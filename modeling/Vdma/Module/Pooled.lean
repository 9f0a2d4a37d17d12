import Vdma.Fabric.Pool
import Vdma.Module.System

/-!
# `Vdma.Module.Pooled`: the module on its pool

`system` lets the jobs of a service be hashed and delivered in any order. `pooled` is the module
with the one pool that `start_services` makes for all its services. `submit_crc_batch` submits a
batch to it, and a job goes on only while a thread of the pool runs it.

A job is the device it is of and a ticket. `tickets` has the tickets of a device in the order of
the service's own list of jobs. The worker that submits a batch draws the next number with the step
that hands the batch over, and sends the job with a step of its own (`submit`). It does nothing
else in between, since it is in `submit` then.

The module's services are never dropped, and neither is the pool. A job of theirs does not panic.
-/

set_option autoImplicit false

namespace Vdma.Module

open Vdma.Lib Vdma.Fabric

/-- The module, and its pool. -/
structure Pooled where
  state : State
  pool : Pool (Nat × Nat)
  tickets : Nat → List Nat
  issued : Nat → Nat

/-- What happens. -/
inductive PooledEvent where
  /-- Anything but a step of a job. -/
  | host (e : Event)
  /-- A worker sends the job that it has drawn a number for. -/
  | submit (device : Nat)
  /-- A thread takes a job. -/
  | take (thread : Nat)
  /-- A thread hashes the next op of its job. -/
  | hash (thread : Nat)
  /-- A thread delivers its job, and is done with it. -/
  | finish (thread : Nat)

namespace Pooled

/-- The worker of a device is in `submit`. -/
def inSubmit (p : Pooled) (device : Nat) : Bool :=
  p.pool.submitting.any fun entry => entry.2.1 = device

/-- The job of a thread. -/
def running (p : Pooled) (thread : Nat) : Option (Nat × Nat) :=
  p.pool.threads[thread]?.bind PoolThread.running

/-- A worker moves. If it hands a batch over, it draws a number for the job. -/
def stepWorker (devices : Devices) (p : Pooled) (device : Nat) (answer : Answer) : Option Pooled :=
  if p.inSubmit device then none
  else
    match p.state.step devices (.fabric device (.worker answer)) with
    | none => none
    | some s =>
      if (p.state.fabrics device).pool.length < (s.fabrics device).pool.length then
        let ticket := p.issued device
        (p.pool.draw (device, ticket)).map fun pool =>
          { state := s
            pool := pool
            tickets := Function.update p.tickets device (p.tickets device ++ [ticket])
            issued := Function.update p.issued device (ticket + 1) }
      else some { p with state := s }

/-- Anything but a step of a job. -/
def stepHost (devices : Devices) (p : Pooled) : Event → Option Pooled
  | .fabric _ (.hash _) => none
  | .fabric _ (.finish _) => none
  | .fabric device (.worker answer) => p.stepWorker devices device answer
  | e => (p.state.step devices e).map fun s => { p with state := s }

/-- A worker sends its job. -/
def stepSubmit (p : Pooled) (device : Nat) : Option Pooled :=
  match p.pool.submitting.findIdx? fun entry => entry.2.1 = device with
  | none => none
  | some i => (p.pool.send i).map fun pool => { p with pool := pool }

/-- A thread hashes the next op of its job. -/
def stepHash (devices : Devices) (p : Pooled) (thread : Nat) : Option Pooled :=
  match p.running thread with
  | none => none
  | some (device, ticket) =>
    let i := (p.tickets device).idxOf ticket
    (p.state.step devices (.fabric device (.hash i))).map fun s => { p with state := s }

/-- A thread delivers its job. -/
def stepFinish (devices : Devices) (p : Pooled) (thread : Nat) : Option Pooled :=
  match p.running thread with
  | none => none
  | some (device, ticket) =>
    let i := (p.tickets device).idxOf ticket
    match p.state.step devices (.fabric device (.finish i)), p.pool.finish thread false with
    | some s, some pool =>
      some { p with
        state := s
        pool := pool
        tickets := Function.update p.tickets device ((p.tickets device).eraseIdx i) }
    | _, _ => none

/-- One step. -/
def step (devices : Devices) (p : Pooled) : PooledEvent → Option Pooled
  | .host e => p.stepHost devices e
  | .submit device => p.stepSubmit device
  | .take thread => (p.pool.take thread).map fun pool => { p with pool := pool }
  | .hash thread => p.stepHash devices thread
  | .finish thread => p.stepFinish devices thread

end Pooled

/-- The module on a pool of so many threads. -/
def pooled (devices : Devices) (threads : Nat) : Machine Pooled PooledEvent where
  init p :=
    (system devices).init p.state ∧ p.pool = Pool.new threads ∧ (∀ device, p.tickets device = []) ∧
      ∀ device, p.issued device = 0
  step := Pooled.step devices

end Vdma.Module
