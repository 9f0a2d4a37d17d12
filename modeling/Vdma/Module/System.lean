import Vdma.Lib.Machine
import Vdma.Module.Entry

/-!
# `Vdma.Module.System`: the module, its services and the host

`system` is the machine of the loaded module. A label is a command that arrives, a step of
one of the services, a completion that is finished under the GIL, or something the host
does to memory or to the keyspace.

A command counts its transfer and sends it, in two moves, since the worker runs in between.
A delivered completion is finished later and once. `complete_batch` finishes a batch on the
thread that delivers it, with the GIL held, so a real run has fewer interleavings than
this machine.

The buffer that a read has landed in belongs to its token alone until the token is
finished, and nothing writes to it then: the transfer is over, and its pointer is nowhere
else. This is the guard of `write`.
-/

set_option autoImplicit false

namespace Vdma.Module

open Vdma.Lib Vdma.Fabric

/-- What happens. -/
inductive Event where
  /-- A `DMA.SET` arrives. -/
  | set (call : Call) (args : List Bytes)
  /-- A `DMA.GET` arrives. -/
  | get (call : Call) (args : List Bytes)
  /-- The transfer that a command counted is sent. -/
  | send (device i : Nat)
  /-- A service moves. -/
  | fabric (device : Nat) (move : Move OpToken)
  /-- A delivered completion is finished. -/
  | finish (device index : Nat) (stores : Bool)
  /-- Memory changes: an RMA lands, or somebody writes. -/
  | write (memory : Nat → UInt8)
  /-- Other commands change the keyspace. -/
  | keyspace (keyspace : Keyspace)

/-- The moves of a service that are not the module's own doing. The services are never
dropped. -/
def isOwn : Move OpToken → Bool
  | .submit _ => false
  | .send _ => false
  | .write _ => false
  | .dropService => false
  | _ => true

/-- A change of a client. -/
inductive ClientChange where
  | connected
  | disconnected
  deriving DecidableEq, Repr

/-- `release_client`: every service is asked to remove the client. -/
def releaseClient (devices : Devices) (client : ClientId) : List Event :=
  (List.range devices.count).map fun device => .fabric device (.removePeer client)

/-- `on_client_change`, once the services are up. -/
def onClientChange (devices : Devices) (client : ClientId) : ClientChange → List Event
  | .connected => []
  | .disconnected => releaseClient devices client

/-- What the new reports of a service say has landed. -/
def landed (device : Nat) (memory : Nat → UInt8) (reports : List Report) : List Landing :=
  reports.filterMap fun
    | .reaped op true =>
      if op.kind = .read then
        let slice : Slice := ⟨op.pointer, op.length⟩
        some ⟨device, op.context, slice, bytesAt memory slice⟩
      else none
    | _ => none

namespace State

/-- A buffer that a read has landed in is still its token's. -/
def isOpen (s : State) (landing : Landing) : Bool :=
  (landing.device, landing.number) ∉ s.finished

/-- One step. -/
def step (devices : Devices) (s : State) : Event → Option State
  | .set call args => (s.dmaSetCommand devices call args).map Prod.fst
  | .get call args => (s.dmaGetCommand devices call args).map Prod.fst
  | .send device i =>
    match (s.fabrics device).phase with
    | .exited => none
    | _ => ((s.fabrics device).step (devices.setup device) (.send i)).map (s.withFabric device)
  | .fabric device move =>
    if isOwn move then
      ((s.fabrics device).step (devices.setup device) move).map fun fabric =>
        let reports := fabric.wire.history.drop (s.fabrics device).wire.history.length
        { s.withFabric device fabric with
          landings := s.landings ++ landed device fabric.memory reports }
    else none
  | .finish device index stores =>
    match (s.fabrics device).delivered[index]? with
    | none => none
    | some completion =>
      let token := completion.callerContext
      if (device, token.number) ∈ s.finished then none
      else
        some { s.finish device stores token.user completion.outcome with
          finished := s.finished ++ [(device, token.number)] }
  | .write memory =>
    if ∀ landing ∈ s.landings, s.isOpen landing = true →
        bytesAt memory landing.slice = landing.bytes then
      some { s with fabrics := fun device => { s.fabrics device with memory := memory } }
    else none
  | .keyspace keyspace => some { s with keyspace := keyspace }

end State

/-- The module, from its first command on. -/
def system (devices : Devices) : Machine State Event where
  init s :=
    (∀ device, s.fabrics device = Fabric.State.start (devices.setup device)) ∧
      s.next = 0 ∧ s.commands = [] ∧ s.landings = [] ∧ s.finished = [] ∧ s.replies = []
  step := State.step devices

end Vdma.Module
