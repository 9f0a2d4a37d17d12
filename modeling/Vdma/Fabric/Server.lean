import Vdma.Fabric.Error
import Vdma.Fabric.Operands

/-!
# `Vdma.Fabric.Server`: what a server and its worker exchange

The messages of `server.rs`: transfers and what comes back of them, and the
requests `FabricService` sends down the same channel. A reply slot is named by
the number of the message that carries it.

The tracing span a request names is left out. Nothing reads it but the tracer.
-/

set_option autoImplicit false

namespace Vdma.Fabric

/-- Bytes on the wire. -/
abbrev Bytes := List UInt8

/-- The caller's identifier for a peer. -/
abbrev ClientId := UInt64

/-- Direction of the one-sided RMA. -/
inductive Direction where
  /-- `fi_writemsg`, local to peer. -/
  | toPeer
  /-- `fi_read`, peer to local, of `length` bytes. -/
  | fromPeer (length : Nat)
  deriving DecidableEq, Repr

/-- The result of a completed transfer: how many bytes, and their CRC-32C if one
was asked for. -/
structure TransferDone where
  bytes : Nat
  checksum : Option UInt32
  deriving DecidableEq, Repr

/-- The outcome of a transfer the worker hands back. -/
abbrev Outcome := Except DmaError TransferDone

/-- A finished transfer's context paired with its outcome. -/
structure Completion (T : Type) where
  callerContext : T
  outcome : Outcome

/-- A submitted transfer. -/
structure TransferRequest (T : Type) where
  clientId : ClientId
  peerAddress : Bytes
  remoteKey : UInt64
  remoteAddress : UInt64
  direction : Direction
  wantChecksum : Bool
  callerContext : T

/-- What the worker consumes off its channel. -/
inductive WorkerMessage (T : Type) where
  | transfer (request : TransferRequest T)
  | addPeer (clientId : ClientId) (address : Bytes)
  | removePeer (clientId : ClientId)
  | register (base length : Nat)

/-- The span `FabricService::register` asks the worker to pin, for storage of
`length` bytes at `base`. -/
def registerSpan (base length : Nat) : Except DmaError (Nat × Nat) :=
  if 0 = length then .error (.fabric "cannot register 0 bytes")
  else if base + length < addressSpace then .ok (base, base + length)
  else .error (.fabric "registered region range overflows")

end Vdma.Fabric
