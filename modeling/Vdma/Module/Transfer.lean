import Mathlib.Data.List.MinMax
import Mathlib.Data.Prod.Lex
import Vdma.Fabric.System
import Vdma.Module.Valkey
import Vdma.Protocol.Advertisement

/-!
# `Vdma.Module.Transfer`: `DMA.GET` and `DMA.SET`

The functions of `transfer.rs`, and the state they work on: the fabric services, the
`NEXT` counter, the clients that are blocked, and the keyspace.

What the host answers is an input. `Call` has the answers to one command: the client, the
services or the reason there are none, what the key read and the retained value turn out
to be, and where a landing buffer will be. A blocked client is the number of its command.

`submit` counts a transfer and sends it, and its two halves are two moves of the service.
The worker may have gone, by a panic of its thread too, which a service does not
model. Then the count goes up and down again with nobody else to read it, and the transfer
is finished in place.

The tracing spans, and the two log lines that say which path `DMA.GET` takes, are left
out.
-/

set_option autoImplicit false

namespace Vdma.Module

open Vdma.Lib Vdma.Fabric Vdma.Protocol

/-- The value kept alive for a `DMA.GET`. -/
inductive HeldValue where
  /-- A retained reference to the value's own buffer. -/
  | retained (value : ValkeyString)
  /-- An owned copy. -/
  | copied (bytes : ValkeyString)
  deriving DecidableEq, Repr

def HeldValue.asBytes : HeldValue → Slice
  | .retained value => value.asSlice
  | .copied bytes => bytes.asSlice

/-- The per-op token carried to the worker and back. `landing` is where the host will
allocate the destination. -/
inductive OpToken where
  | get (blocked : Nat) (held : HeldValue)
  | set (blocked : Nat) (destination : Option ValkeyString) (key : Bytes)
      (expectedCrc : Option UInt32) (landing : Nat)
  deriving DecidableEq, Repr

namespace OpToken

/-- A `DMA.GET` writes the value's own buffer. -/
def source : OpToken → Option Slice
  | .get _ held => some held.asBytes
  | .set .. => none

/-- A `DMA.SET` lands in a string of its own. -/
def allocate : OpToken → Nat → Option Slice × OpToken
  | .set blocked destination key expectedCrc landing, length =>
    match ValkeyString.createUninitialized landing length with
    | some value => (some value.asSlice, .set blocked (some value) key expectedCrc landing)
    | none => (none, .set blocked destination key expectedCrc landing)
  | .get blocked held, _ => (none, .get blocked held)

end OpToken

instance : Operands OpToken where
  source := OpToken.source
  allocate := OpToken.allocate

/-! ### Replies -/

/-- A `u32` in the format `{:#010x}`. -/
def hexCrc (crc : UInt32) : String :=
  let digits := Nat.toDigits 16 crc.toNat
  "0x" ++ String.ofList (List.replicate (8 - digits.length) '0' ++ digits)

example : hexCrc 0x1edc6f41 = "0x1edc6f41" := by decide +kernel

/-- The reply for a completed `DMA.GET`. -/
def getReply : Outcome → ValkeyResult
  | .ok ⟨bytes, some checksum⟩ =>
    .ok (.array [.integer (asI64 bytes), .integer checksum.toNat])
  | .ok ⟨bytes, none⟩ => .ok (.integer (asI64 bytes))
  | .error error => .error (commandError (displayDmaError error))

/-- The values of the keyspace. -/
abbrev Keyspace := Assoc Bytes Bytes

/-- The end of `set_reply`: moves the destination into the key. `stores` is what `set_move`
answers. -/
def commit (memory : Nat → UInt8) (stores : Bool) (keyspace : Keyspace) (done : TransferDone)
    (destination : Option ValkeyString) (key : Bytes) : ValkeyResult × Keyspace :=
  match destination with
  | none => (.error (.str "ERR landing buffer missing"), keyspace)
  | some destination =>
    if stores then
      (.ok (.integer (asI64 done.bytes)),
        keyspace.insert key (bytesAt memory destination.asSlice))
    else (.error (.str "ERR failed to store value"), keyspace)

/-- Verifies the worker's checksum against the client's and, on a match, commits. -/
def setReply (memory : Nat → UInt8) (stores : Bool) (keyspace : Keyspace) (outcome : Outcome)
    (destination : Option ValkeyString) (key : Bytes) (expectedCrc : Option UInt32) :
    ValkeyResult × Keyspace :=
  match outcome with
  | .error error => (.error (commandError (displayDmaError error)), keyspace)
  | .ok done =>
    match expectedCrc with
    | some expected =>
      -- The request asked for a checksum, so the worker took one.
      let actual := done.checksum.getD 0
      if actual ≠ expected then
        (.error (.string
          s!"ERR checksum mismatch: client {hexCrc expected}, server {hexCrc actual} (value not stored)"),
          keyspace)
      else commit memory stores keyspace done destination key
    | none => commit memory stores keyspace done destination key

/-- A reply staged for a blocked client. -/
structure PendingReply where
  blocked : Nat
  reply : ValkeyResult

/-- Finishes a transfer under the GIL. -/
def finishUnderGil (memory : Nat → UInt8) (stores : Bool) (keyspace : Keyspace)
    (callerContext : OpToken) (outcome : Outcome) : PendingReply × Keyspace :=
  match callerContext with
  | .get blocked _ => (⟨blocked, getReply outcome⟩, keyspace)
  | .set blocked destination key expectedCrc _ =>
    let finished := setReply memory stores keyspace outcome destination key expectedCrc
    (⟨blocked, finished.1⟩, finished.2)

/-! ### The state -/

/-- A transfer that a client was blocked for. `length` of a `DMA.GET` is that of the value
read. -/
inductive Command where
  | get (device : Nat) (advertisement : Advertisement) (capacity : UInt64) (length : Nat)
  | set (device : Nat) (advertisement : Advertisement) (key : Bytes) (length : UInt64)
      (expectedCrc : Option UInt32)

/-- The bytes that a successful read of the peer's buffer has brought into a landing
buffer. -/
structure Landing where
  device : Nat
  number : Nat
  slice : Slice
  bytes : Bytes

/-- The devices that were discovered, and what each service runs with. -/
structure Devices where
  count : Nat
  setup : Nat → Setup

/-- The module in its host. `commands` has the transfers in the order their clients were
blocked. `landings`, `finished` and `replies` keep the past: what landed, which
completions were finished, by device and number, and what was replied. -/
structure State where
  fabrics : Nat → Fabric.State OpToken
  next : Nat
  keyspace : Keyspace
  commands : List Command
  landings : List Landing
  finished : List (Nat × Nat)
  replies : List PendingReply

/-- What the host and the allocator answer to a command. -/
structure Call where
  /-- `get_client_id`. -/
  client : ClientId
  /-- `fabric_services`. -/
  services : Except DmaError Unit
  /-- The key's value cannot be read as a string. -/
  wrongType : Bool
  /-- `retained_string_value`. -/
  retained : Option ValkeyString
  /-- The copy of the value where it is not retained. -/
  copied : ValkeyString
  /-- Where the destination will be allocated. -/
  landing : Nat
  /-- The worker is gone when the transfer is sent. -/
  gone : Bool

/-- The value's own buffer where the host lets it be retained, else a copy. -/
def Call.held (call : Call) : HeldValue :=
  match call.retained with
  | some value => .retained value
  | none => .copied call.copied

namespace State

/-- The service of a device takes a step. -/
def withFabric (s : State) (device : Nat) (fabric : Fabric.State OpToken) : State :=
  { s with fabrics := Function.update s.fabrics device fabric }

/-! ### Choosing a device -/

/-- The key a device is chosen by: its load, and its index rotated by `rotation`. -/
def loadKey (s : State) (count rotation : Nat) (index : Nat) : Nat ×ₗ Nat :=
  toLex ((s.fabrics index).books.outstanding, (index + rotation) % addressSpace % count)

/-- The device with the least work outstanding. -/
def leastLoadedServer (devices : Devices) (s : State) (services : Except DmaError Unit) :
    State × Except DmaError Nat :=
  match services with
  | .error error => (s, .error error)
  | .ok () =>
    let rotation := s.next
    let s := { s with next := (s.next + 1) % addressSpace }
    match (List.range devices.count).argmin (s.loadKey devices.count rotation) with
    | some device => (s, .ok device)
    | none => (s, .error (.fabric "no fabric workers"))

/-! ### Finishing -/

/-- Finishes a transfer with an outcome, on the memory that the service of a device
sees. -/
def finish (s : State) (device : Nat) (stores : Bool) (callerContext : OpToken)
    (outcome : Outcome) : State :=
  let finished :=
    finishUnderGil (s.fabrics device).memory stores s.keyspace callerContext outcome
  { s with keyspace := finished.2, replies := s.replies ++ [finished.1] }

/-- Submits a request, and finishes it in place when the worker is gone. A failed transfer
asks nothing of `set_move`. -/
def submit (devices : Devices) (s : State) (call : Call) (device : Nat)
    (request : TransferRequest OpToken) : Option State :=
  if call.gone then
    some (s.finish device false request.callerContext
      (.error (.fabric "fabric worker is gone")))
  else
    ((s.fabrics device).step (devices.setup device) (.submit request)).map (s.withFabric device)

/-- Blocks the client of a command. -/
def blockClient (s : State) (command : Command) : State × Nat :=
  ({ s with commands := s.commands ++ [command] }, s.commands.length)

/-! ### The commands -/

/-- Writes the value at `key` to the client's buffer. The retained value has the length
just read, and so has a copy. -/
def dmaGet (devices : Devices) (s : State) (call : Call) (advertisement : Advertisement)
    (key : Bytes) (capacity : UInt64) (wantChecksum : Bool) : Option (State × ValkeyResult) :=
  if call.wrongType then some (s, .error (.str "ERR failed to read key"))
  else
    match s.keyspace.lookup key with
    | none => some (s, .ok .null)
    | some bytes =>
      if capacity.toNat < bytes.length then
        some (s, .error (.string
          s!"ERR value of {bytes.length} bytes exceeds the client buffer of {capacity.toNat} bytes"))
      else
        let held := call.held
        if held.asBytes.length ≠ bytes.length then none
        else
          match s.leastLoadedServer devices call.services with
          | (s, .error error) => some (s, .error (commandError (displayDmaError error)))
          | (s, .ok device) =>
            let (s, blocked) :=
              s.blockClient (.get device advertisement capacity bytes.length)
            let request : TransferRequest OpToken :=
              { clientId := call.client
                peerAddress := advertisement.address
                remoteKey := advertisement.remoteKey
                remoteAddress := advertisement.remoteAddress
                direction := .toPeer
                wantChecksum := wantChecksum
                callerContext := .get blocked held }
            (s.submit devices call device request).map fun s => (s, .ok .noReply)

/-- Reads the payload from the client's buffer, to commit it into `key`. -/
def dmaSet (devices : Devices) (s : State) (call : Call) (advertisement : Advertisement)
    (key : Bytes) (length : UInt64) (expectedCrc : Option UInt32) :
    Option (State × ValkeyResult) :=
  match s.leastLoadedServer devices call.services with
  | (s, .error error) => some (s, .error (commandError (displayDmaError error)))
  | (s, .ok device) =>
    let (s, blocked) := s.blockClient (.set device advertisement key length expectedCrc)
    let request : TransferRequest OpToken :=
      { clientId := call.client
        peerAddress := advertisement.address
        remoteKey := advertisement.remoteKey
        remoteAddress := advertisement.remoteAddress
        direction := .fromPeer length.toNat
        wantChecksum := expectedCrc.isSome
        -- The destination is allocated when the worker prepares the transfer.
        callerContext := .set blocked none key expectedCrc call.landing }
    (s.submit devices call device request).map fun s => (s, .ok .noReply)

end State

end Vdma.Module
