import Vdma.Fabric.Operands
import Vdma.Lib.Machine

/-!
# `Vdma.Fabric.Pool`: the threads that finish checksummed transfers

The pool of `pool.rs`. Each thread has a channel of its own. `submit` draws the next number,
which names a thread, and sends the job down that thread's channel, in two steps, since others
submit at the same time. `next` wraps as `fetch_add` does.

A thread takes the next job of its channel and runs it. A job that panics is caught, so it ends
like any other. Once the channels are closed, a thread that finds its own empty ends. `drop`
closes the channels, and joins every thread.

What a job does is the caller's: a job of this model is a value of `J`. A pool whose threads
cannot be spawned is an error of `new`, and not a state of the machine.
-/

set_option autoImplicit false

namespace Vdma.Fabric

open Vdma.Lib

variable {J : Type}

/-- A thread. -/
structure PoolThread (J : Type) where
  channel : List J
  running : Option J
  ended : Bool

/-- The pool. `drawn`, `sent` and `ran` keep the past, each with the number of the thread: the
jobs for which a number was drawn, those that were sent, and those that have ended. `lost` has
the jobs that no thread received. -/
structure Pool (J : Type) where
  threads : List (PoolThread J)
  next : Nat
  closed : Bool
  /-- In `submit`, past the draw. -/
  submitting : List (Nat × J)
  drawn : List (Nat × J)
  sent : List (Nat × J)
  ran : List (Nat × J)
  lost : List J

/-- What happens. -/
inductive PoolMove (J : Type) where
  /-- `submit` draws the next number. -/
  | draw (job : J)
  /-- `submit` sends the job. -/
  | send (i : Nat)
  /-- A thread takes a job off its channel. -/
  | take (thread : Nat)
  /-- The job of a thread ends. -/
  | finish (thread : Nat) (panics : Bool)
  /-- `drop` closes the channels. -/
  | close
  /-- A thread ends. -/
  | leave (thread : Nat)

namespace Pool

/-- A pool of at least one thread. -/
def new (threads : Nat) : Pool J where
  threads := List.replicate (max threads 1) ⟨[], none, false⟩
  next := 0
  closed := false
  submitting := []
  drawn := []
  sent := []
  ran := []
  lost := []

/-- `submit`, up to the draw. -/
def draw (p : Pool J) (job : J) : Option (Pool J) :=
  if p.closed then none
  else
    let thread := p.next % p.threads.length
    some { p with
      next := (p.next + 1) % addressSpace
      submitting := p.submitting ++ [(thread, job)]
      drawn := p.drawn ++ [(thread, job)] }

/-- `submit`, past the draw. A thread that has ended has dropped its receiver. -/
def send (p : Pool J) (i : Nat) : Option (Pool J) :=
  match p.submitting[i]? with
  | none => none
  | some (thread, job) =>
    let p := { p with submitting := p.submitting.eraseIdx i }
    match p.threads[thread]? with
    | none => none
    | some t =>
      if t.ended then some { p with lost := p.lost ++ [job] }
      else
        some { p with
          threads := p.threads.set thread { t with channel := t.channel ++ [job] }
          sent := p.sent ++ [(thread, job)] }

/-- A thread that has no job takes one. -/
def take (p : Pool J) (thread : Nat) : Option (Pool J) :=
  match p.threads[thread]? with
  | some ⟨job :: channel, none, false⟩ =>
    some { p with threads := p.threads.set thread ⟨channel, some job, false⟩ }
  | _ => none

/-- A job ends. `catch_unwind` makes no difference of a panic. -/
def finish (p : Pool J) (thread : Nat) (_panics : Bool) : Option (Pool J) :=
  match p.threads[thread]? with
  | some ⟨channel, some job, false⟩ =>
    some { p with
      threads := p.threads.set thread ⟨channel, none, false⟩
      ran := p.ran ++ [(thread, job)] }
  | _ => none

/-- `drop` has the pool to itself, so nobody is in `submit`. -/
def close (p : Pool J) : Option (Pool J) :=
  match p.closed, p.submitting with
  | false, [] => some { p with closed := true }
  | _, _ => none

/-- A thread that finds its channel closed ends. -/
def leave (p : Pool J) (thread : Nat) : Option (Pool J) :=
  match p.closed, p.threads[thread]? with
  | true, some ⟨[], none, false⟩ =>
    some { p with threads := p.threads.set thread ⟨[], none, true⟩ }
  | _, _ => none

/-- One move. -/
def step (p : Pool J) : PoolMove J → Option (Pool J)
  | .draw job => p.draw job
  | .send i => p.send i
  | .take thread => p.take thread
  | .finish thread panics => p.finish thread panics
  | .close => p.close
  | .leave thread => p.leave thread

/-- `drop` has joined every thread. -/
def Joined (p : Pool J) : Prop := ∀ t ∈ p.threads, t.ended = true

end Pool

/-- The pool, from `new` on. -/
def threadPool (J : Type) (threads : Nat) : Machine (Pool J) (PoolMove J) where
  init p := p = Pool.new threads
  step := Pool.step

end Vdma.Fabric
