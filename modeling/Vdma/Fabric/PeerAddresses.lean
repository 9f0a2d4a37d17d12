import Vdma.Fabric.Server
import Vdma.Lib.Assoc
import Vdma.Lib.Handles

/-!
# `Vdma.Fabric.PeerAddresses`: the address-vector entries of an endpoint

An entry (`RegisteredAddress`) lives while somebody holds it: `by_client` holds one
for each client, and a caller of `handle` holds the one it got until it drops it.
`fi_av_insert` makes the entry and the drop of the last hold is its
`fi_av_remove`. So the entries are reference-counted cells, an entry's age is its
name, and `handles.dropped` is the list of `fi_av_remove` calls.

`by_address` is the index by endpoint slot. It holds entries weakly: a lookup
upgrades, and finds nothing when the entry has gone. The key of the source's map
compares by identity and keeps all its bytes, so here the identity is the key and
the bytes stand in the value, `Known`.

`handle` runs in two parts, with `fi_av_insert` between them: `resolve` finds the
entry or makes room for it, and `enroll` takes what `fi_av_insert` returned.
-/

set_option autoImplicit false

namespace Vdma.Fabric

open Vdma.Lib

/-- The least index size that is swept. -/
def minimumSweep : Nat := 64

/-- `sizeof(struct efa_ep_addr)`. -/
def efaAddressLen : Nat := 32

/-- The GID and the QPN. -/
def efaIdentityLen : Nat := 18

/-- How the provider lays out an address. -/
inductive AddressFormat where
  /-- The leading GID and QPN name the slot, and the rest tells its epochs apart. -/
  | efa
  /-- The address is the address. -/
  | opaqueBytes
  deriving DecidableEq, Repr

namespace AddressFormat

/-- How many leading bytes of an address name its endpoint slot. -/
def identityLen (format : AddressFormat) (bytes : Bytes) : Except DmaError Nat :=
  match format with
  | .efa =>
    if efaAddressLen ≠ bytes.length then
      .error (.fabric s!"efa address is {bytes.length} bytes, not {efaAddressLen}")
    else .ok efaIdentityLen
  | .opaqueBytes => .ok bytes.length

end AddressFormat

/-- An address-vector entry, by the bytes it was inserted with. -/
structure RegisteredAddress where
  address : Bytes
  deriving DecidableEq, Repr

/-- An index entry: the bytes of its key, and the entry they were inserted as. -/
structure Known where
  bytes : Bytes
  entry : Nat
  deriving DecidableEq, Repr

/-- Every address-vector entry of an endpoint. -/
structure PeerAddresses where
  format : AddressFormat
  byAddress : Assoc Bytes Known
  byClient : Assoc ClientId Nat
  sweepAt : Nat
  handles : Handles RegisteredAddress

namespace PeerAddresses

def new (format : AddressFormat) : PeerAddresses where
  format := format
  byAddress := ∅
  byClient := ∅
  sweepAt := minimumSweep
  handles := Handles.empty

/-- What is held for a slot: whether it is the address itself, and the entry. -/
def held (p : PeerAddresses) (identity address : Bytes) : Option (Bool × Nat) :=
  match p.byAddress.lookup identity with
  | some known =>
    -- `upgrade` fails once the last client has let go.
    if 0 < p.handles.strong known.entry then some (decide (known.bytes = address), known.entry)
    else none
  | none => none

/-- `by_client.insert`: the client holds `entry`, and what it held before drops. -/
def hold (p : PeerAddresses) (client : ClientId) (entry : Nat) : PeerAddresses :=
  { p with
    byClient := p.byClient.insert client entry
    handles := (p.handles.clone entry).dropOption (p.byClient.lookup client) }

/-- Let go of a client's entry. -/
def release (p : PeerAddresses) (client : ClientId) : PeerAddresses :=
  { p with
    byClient := p.byClient.erase client
    handles := p.handles.dropOption (p.byClient.lookup client) }

/-- Takes a stale entry from every client that holds it. The upgraded clone drops
last. -/
def evict (p : PeerAddresses) (stale : Nat) : PeerAddresses :=
  let evicted := (Assoc.retain (fun _ held => held == stale) p.byClient).values
  { p with
    byClient := Assoc.retain (fun _ held => !(held == stale)) p.byClient
    handles := ((p.handles.clone stale).dropAll evicted).drop stale }

/-- Drops the index key of a slot. -/
def forget (p : PeerAddresses) (identity : Bytes) : PeerAddresses :=
  { p with byAddress := p.byAddress.erase identity }

/-- `handle` up to `fi_av_insert`. A hit answers the caller's clone of the entry.
Otherwise the slot is free: a stale entry is evicted, the client's previous entry
drops, and the index key goes. -/
def resolve (p : PeerAddresses) (client : ClientId) (identity address : Bytes) :
    PeerAddresses × Option Nat :=
  match p.held identity address with
  | some (true, entry) =>
    (({ p with handles := p.handles.clone entry } : PeerAddresses).hold client entry, some entry)
  | some (false, stale) => (((p.evict stale).release client).forget identity, none)
  | none => ((p.release client).forget identity, none)

/-- Drops index entries whose last client has gone, once the index has grown to its
threshold. -/
def sweep (p : PeerAddresses) : PeerAddresses :=
  if p.byAddress.entries.length < p.sweepAt then p
  else
    -- Only weak references are dropped, so no entry goes.
    let live := Assoc.retain (fun _ known => decide (0 < p.handles.strong known.entry)) p.byAddress
    { p with
      byAddress := live
      sweepAt := max minimumSweep (live.entries.length * 2) }

/-- Registers an entry that `fi_av_insert` made, and indexes it. -/
def index (p : PeerAddresses) (identity address : Bytes) : PeerAddresses :=
  let swept := ({ p with handles := p.handles.new ⟨address⟩ } : PeerAddresses).sweep
  { swept with byAddress := swept.byAddress.insert identity ⟨address, p.handles.next⟩ }

/-- `handle` from `fi_av_insert` on. -/
def enroll (p : PeerAddresses) (client : ClientId) (identity address : Bytes) (inserted : Int) :
    PeerAddresses × Except DmaError Nat :=
  -- The slot was freed by then, and stays free.
  if 1 ≠ inserted then
    (p, .error (.fabric s!"fi_av_insert inserted {inserted} of 1 addresses"))
  else ((p.index identity address).hold client p.handles.next, .ok p.handles.next)

/-- The entry `client` posts against, inserting the address if this is its first
user. `inserted` is what `fi_av_insert` returns, should it be called. -/
def handle (p : PeerAddresses) (client : ClientId) (address : Bytes) (inserted : Int) :
    PeerAddresses × Except DmaError Nat :=
  match p.format.identityLen address with
  | .error error => (p, .error error)
  | .ok length =>
    let identity := address.take length
    match p.resolve client identity address with
    | (found, some entry) => (found, .ok entry)
    | (room, none) => room.enroll client identity address inserted

/-- The entry that `handle` would evict for an address: a live one of its slot, with
other bytes. The source logs it. -/
def supersededBy (p : PeerAddresses) (address : Bytes) : Option Nat :=
  match p.format.identityLen address with
  | .error _ => none
  | .ok length =>
    match p.held (address.take length) address with
    | some (false, stale) => some stale
    | _ => none

/-- The caller of `handle` drops its clone. -/
def drop (p : PeerAddresses) (entry : Nat) : PeerAddresses :=
  { p with handles := p.handles.drop entry }

/-- Release every entry. -/
def clear (p : PeerAddresses) : PeerAddresses :=
  { p with
    byClient := ∅
    byAddress := ∅
    handles := p.handles.dropAll p.byClient.values }

end PeerAddresses

end Vdma.Fabric
