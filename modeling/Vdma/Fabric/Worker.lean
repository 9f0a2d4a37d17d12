import Mathlib.Data.Finset.Insert
import Mathlib.Data.Finset.Erase
import Vdma.Fabric.Endpoint

/-!
# `Vdma.Fabric.Worker`: the worker's records and the functions on them

The functions of `server_dma_worker.rs` that run between two calls into libfabric,
under their own names. `worker_main` itself, which strings them together, is in
`Vdma.Fabric.System`.

`Box::into_raw` puts an `InFlight` box behind a pointer that the box can be reclaimed
from once. `raw` is the memory behind these pointers. A box is at the address that is
the number of its op: an address is free for reuse only once its box is reclaimed, so
naming boxes apart loses no run as long as nobody reclaims a stale pointer, and a
reclaim of one finds nothing and is a fault.

The caller's context carries the number of the message that brought it. Nothing
reads the number but statements.
-/

set_option autoImplicit false

namespace Vdma.Fabric

open Vdma.Lib

/-- A caller context, and the number of its message. -/
structure Tagged (T : Type) where
  number : Nat
  user : T

/-- Tiny read back from the end of a write. -/
structure QuiesceRead where
  peerAddress : Bytes
  remoteKey : UInt64
  remoteAddress : UInt64
  deriving DecidableEq, Repr

/-- Per-op state. Its pointer is the `op_context` handed to libfabric. -/
structure InFlight (T : Type) where
  callerContext : Tagged T
  clientId : ClientId
  length : Nat
  wantChecksum : Bool
  bufferPointer : Nat
  localLease : Option Nat
  quiesce : Option QuiesceRead

/-- A request whose box is built, plus the parameters needed to post. -/
structure Prepared where
  context : Nat
  clientId : ClientId
  peerAddress : Bytes
  remoteKey : UInt64
  remoteAddress : UInt64
  pointer : Nat
  length : Nat
  direction : Direction
  stalledSince : Option Nat

/-- A completed write waiting for its quiesce read. -/
structure Quiescing (T : Type) where
  inflight : InFlight T
  read : QuiesceRead
  stalledSince : Option Nat

/-- A reaped op awaiting its checksummed completion. -/
abbrev ReapedOp (T : Type) := InFlight T × Except DmaError Unit

namespace InFlight

variable {T : Type}

/-- The number of the op. -/
def number (op : InFlight T) : Nat := op.callerContext.number

/-- Turn a libfabric result into a completion, hashing the operand if asked. `crc` is
the checksum of the `length` bytes now at `pointer`. The box's lease drops with it,
which the caller of this function accounts for. -/
def intoCompletion (crc : Nat → Nat → UInt32) (op : InFlight T) (result : Except DmaError Unit) :
    Completion (Tagged T) where
  callerContext := op.callerContext
  outcome := result.map fun _ =>
    { bytes := op.length
      checksum := if op.wantChecksum then some (crc op.bufferPointer op.length) else none }

end InFlight

/-- The operand of a transfer: its range, and the context after it resolved. -/
def resolveOperand {T : Type} [Operands T] (direction : Direction) (user : T) :
    Except DmaError (Nat × Nat) × T :=
  match direction with
  | .toPeer =>
    match Operands.source user with
    | some bytes => (.ok (bytes.pointer, bytes.length), user)
    | none =>
      (.error (.fabric "the caller context supplied no source bytes for a ToPeer transfer"), user)
  | .fromPeer length =>
    match Operands.allocate user length with
    | (some landing, user) =>
      if landing.length < length then
        (.error (.fabric
          s!"the caller context allocated {landing.length} bytes for a {length} byte FromPeer transfer"),
          user)
      else (.ok (landing.pointer, length), user)
    | (none, user) =>
      (.error (.fabric
        "the caller context allocated no landing buffer for a FromPeer transfer"), user)

/-- The quiesce read of a transfer, `none` for one that has none. Refused when the
peer's buffer range overflows. -/
def quiesceOf {T : Type} (request : TransferRequest T) (quiesceWrites : Bool) (length : Nat) :
    Except DmaError (Option QuiesceRead) :=
  if quiesceWrites = true ∧ request.direction = .toPeer ∧ 0 < length then
    if request.remoteAddress.toNat + (length - 1) < addressSpace then
      .ok (some
        { peerAddress := []
          remoteKey := request.remoteKey
          remoteAddress := UInt64.ofNat (request.remoteAddress.toNat + (length - 1)) })
    else .error (.fabric "the peer's buffer range overflows")
  else .ok none

/-- Build the per-op box and the post parameters. -/
def prepare {T : Type} [Operands T] (request : TransferRequest (Tagged T)) (quiesceWrites : Bool) :
    Except (Completion (Tagged T)) (InFlight T × Prepared) :=
  let operand := resolveOperand request.direction request.callerContext.user
  let context : Tagged T := ⟨request.callerContext.number, operand.2⟩
  match operand.1 with
  | .error error => .error ⟨context, .error error⟩
  | .ok (pointer, length) =>
    match quiesceOf request quiesceWrites length with
    | .error error => .error ⟨context, .error error⟩
    | .ok quiesce =>
      .ok
        ({ callerContext := context
           clientId := request.clientId
           length := length
           wantChecksum := request.wantChecksum
           bufferPointer := pointer
           localLease := none
           quiesce := quiesce },
         { context := context.number
           clientId := request.clientId
           peerAddress := request.peerAddress
           remoteKey := request.remoteKey
           remoteAddress := request.remoteAddress
           pointer := pointer
           length := length
           direction := request.direction
           stalledSince := none })

/-! ### The books: counters, deferred removals and peers -/

/-- An address resolved to an entry, for a message. -/
structure Resolution where
  message : Nat
  address : Bytes
  entry : Nat
  deriving DecidableEq, Repr

/-- An entry evicted for the address of a message. -/
structure Eviction where
  message : Nat
  address : Bytes
  entry : Nat
  deriving DecidableEq, Repr

/-- What `finish_op` keeps in step, and the endpoint's peers. `resolutions` and
`evictions` keep the past for statements. `wrapped` is set by a subtraction that went
below zero or saturated. -/
structure Books where
  outstanding : Nat
  outstandingByClient : Assoc ClientId Nat
  pendingRemoval : Finset ClientId
  peers : PeerAddresses
  resolutions : List Resolution
  evictions : List Eviction
  wrapped : Bool

namespace Books

def start (format : AddressFormat) : Books where
  outstanding := 0
  outstandingByClient := ∅
  pendingRemoval := ∅
  peers := .new format
  resolutions := []
  evictions := []
  wrapped := false

/-- Drop one op from the device-wide tally `submit` raised. -/
def releaseOutstanding (b : Books) : Books :=
  { b with outstanding := b.outstanding - 1, wrapped := b.wrapped || b.outstanding == 0 }

/-- `endpoint.release_peer`. -/
def releasePeer (b : Books) (client : ClientId) : Books :=
  { b with peers := b.peers.release client }

/-- Counts a queued op against its client. -/
def countOp (b : Books) (client : ClientId) : Books :=
  { b with
    outstandingByClient :=
      b.outstandingByClient.insert client ((b.outstandingByClient.lookup client).getD 0 + 1) }

/-- Remove a disconnected client's peer, or defer until its last op finishes. -/
def removeOrDefer (b : Books) (client : ClientId) : Books :=
  if 0 = (b.outstandingByClient.lookup client).getD 0 then b.releasePeer client
  else { b with pendingRemoval := insert client b.pendingRemoval }

/-- The end of a client's last op: its deferred removal is due. -/
def drained (b : Books) (client : ClientId) : Books :=
  let b := { b with outstandingByClient := b.outstandingByClient.erase client }
  if client ∈ b.pendingRemoval then
    ({ b with pendingRemoval := b.pendingRemoval.erase client } : Books).releasePeer client
  else b

/-- Account one finished op against its client. -/
def finishOp (b : Books) (client : ClientId) : Books :=
  let b := b.releaseOutstanding
  match b.outstandingByClient.lookup client with
  | some count =>
    let b :=
      { b with
        outstandingByClient := b.outstandingByClient.insert client (count - 1)
        wrapped := b.wrapped || count == 0 }
    if 0 = count - 1 then b.drained client else b
  | none => b.drained client

/-- `endpoint.insert_peer`, for the address that message `message` carries. -/
def insertPeer (b : Books) (message : Nat) (client : ClientId) (address : Bytes) (inserted : Int) :
    Books × Except DmaError Nat :=
  let handled := b.peers.handle client address inserted
  ({ b with
      peers := handled.1
      resolutions :=
        match handled.2 with
        | .ok entry => b.resolutions ++ [⟨message, address, entry⟩]
        | .error _ => b.resolutions
      evictions :=
        match b.peers.supersededBy address with
        | some stale => b.evictions ++ [⟨message, address, stale⟩]
        | none => b.evictions },
    handled.2)

/-- The caller of `insertPeer` drops the entry. -/
def dropPeer (b : Books) (entry : Nat) : Books := { b with peers := b.peers.drop entry }

end Books

/-! ### The queues -/

/-- The worker's queues, and the boxes behind raw pointers. -/
structure Queues (T : Type) where
  raw : Assoc Nat (InFlight T)
  pending : List Prepared
  reaped : List Reaped
  quiescing : List (Quiescing T)
  crcPending : List (ReapedOp T)
  completions : List (Completion (Tagged T))

namespace Queues

variable {T : Type}

def empty : Queues T := ⟨∅, [], [], [], [], []⟩

end Queues

/-- Reclaim a box from its pointer. `none` is a pointer to nothing. -/
def reclaim {T : Type} (raw : Assoc Nat (InFlight T)) (context : Nat) :
    Option (InFlight T × Assoc Nat (InFlight T)) :=
  (raw.lookup context).map fun op => (op, raw.erase context)

/-- Queue a submitted transfer, or complete it when its operand doesn't resolve. -/
def accept {T : Type} [Operands T] (request : TransferRequest (Tagged T)) (quiesceWrites : Bool)
    (books : Books) (queues : Queues T) : Books × Queues T :=
  match prepare request quiesceWrites with
  | .ok (inflight, prepared) =>
    (books.countOp prepared.clientId,
      { queues with
        raw := queues.raw.insert prepared.context inflight
        pending := queues.pending ++ [prepared] })
  | .error completion =>
    (books.releaseOutstanding, { queues with completions := queues.completions ++ [completion] })

/-- Completions to reap in one pass, and the batch size that triggers a flush. -/
def targetCompletions : Nat := 10

/-- Whether to hand the accumulated checksummed completions to the pool this pass. -/
def shouldFlushCrc (batched posted : Nat) (reapedAny aboutToPark : Bool) : Bool :=
  decide (0 < batched) &&
    (decide (targetCompletions ≤ batched) || (decide (0 = posted) && !reapedAny) || aboutToPark)

/-- The decimal digits of a fraction, without trailing zeros. -/
def fractionDigits : (width fraction : Nat) → List Char
  | 0, _ => []
  | width + 1, fraction =>
    if fraction = 0 then []
    else
      Nat.digitChar (fraction / 10 ^ width) :: fractionDigits width (fraction % 10 ^ width)

/-- A number with a decimal fraction of at most `width` digits. -/
def decimal (whole width fraction : Nat) : String :=
  if fraction = 0 then toString whole
  else s!"{whole}." ++ String.ofList (fractionDigits width fraction)

/-- The `Debug` text of a `Duration` of `nanos` nanoseconds. -/
def durationText (nanos : Nat) : String :=
  if 1000000000 ≤ nanos then decimal (nanos / 1000000000) 9 (nanos % 1000000000) ++ "s"
  else if 1000000 ≤ nanos then decimal (nanos / 1000000) 6 (nanos % 1000000) ++ "ms"
  else if 1000 ≤ nanos then decimal (nanos / 1000) 3 (nanos % 1000) ++ "µs"
  else s!"{nanos}ns"

example : durationText 1500000000 = "1.5s" := by decide +kernel

/-- The error of a transfer that stayed unpostable past the deadline. -/
def noProgress (progressDeadline : Nat) : DmaError :=
  .transfer
    s!"no progress posting for {durationText progressDeadline}: peer unreachable or transmit queue stuck"

/-- The same for a quiesce read. -/
def noQuiesceProgress (progressDeadline : Nat) : DmaError :=
  .transfer
    s!"no progress posting the quiesce read for {durationText progressDeadline}: peer unreachable or transmit queue stuck"

end Vdma.Fabric
