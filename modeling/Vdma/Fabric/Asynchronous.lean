import Vdma.Fabric.Server
import Vdma.Lib.Machine

/-!
# `Vdma.Fabric.Asynchronous`: awaiting a transfer

A `Transfer` is a future over a cell that it shares with the completion
(`asynchronous.rs`). `awaiting` is the machine of one transfer: the task that polls the
`Transfer` and drops it, and the thread that delivers the completion. A label is one
section under the cell's lock, or one drop of a reference to the cell, or the wake.

The task keeps its waker and the cell keeps clones of it. Two wakers may be equal and
still be two clones, so a stored clone is told apart by its age. `polls`, `woken`,
`cleared` and `ended` keep the past for statements.

`wake` may run the task on the spot. What the task does then are moves of their own.
-/

set_option autoImplicit false

namespace Vdma.Fabric

open Vdma.Lib

/-- The wakers of an executor. `will_wake` may say no of two wakers of one task, and so it
may of a waker and its clone. -/
structure Wakers (W Task : Type) where
  task : W → Task
  clone : W → W
  willWake : W → W → Bool
  /-- A clone wakes the same task. -/
  task_clone : ∀ w, task (clone w) = task w
  /-- What `will_wake` promises. -/
  task_of_willWake : ∀ w w', willWake w w' = true → task w = task w'

/-- `w'` is `w` to the executor: `will_wake` says so, or it is a clone of `w`. -/
def Wakers.Equivalent {W Task : Type} (wakers : Wakers W Task) (w' w : W) : Prop :=
  wakers.willWake w' w = true ∨ w' = wakers.clone w

/-- A clone that the cell was given, by age. -/
structure Stored (W : Type) where
  age : Nat
  waker : W
  deriving DecidableEq, Repr

/-- What the future and the completion share. -/
structure Cell (W T : Type) where
  outcome : Option (Outcome × T)
  waker : Option (Stored W)

/-- Where the `Transfer` is: with its task, in `Drop::drop` past the lock, or gone. -/
inductive Holder where
  | held
  | cleared
  | gone
  deriving DecidableEq, Repr

/-- Where the completion is. -/
inductive Delivery (W T : Type) where
  /-- With the worker. Its context holds a reference to the cell. -/
  | inFlight (user : T)
  /-- In `deliver`, past the lock, with the waker it took. -/
  | stored (waker : Option (Stored W))
  /-- In `deliver`, past the drop of its reference. -/
  | released (waker : Option (Stored W))
  | done

/-- A poll: the waker it brought, whether the outcome had been stored by then, and what it
returned. `none` is `Pending`. -/
structure Polled (W T : Type) where
  waker : W
  delivered : Bool
  result : Option (Outcome × T)

/-- The end of a context. -/
inductive End (T : Type) where
  | returned (user : T)
  | dropped (user : T)

/-- A transfer and its completion. `strong` counts the references to the cell, and `clones`
the wakers it was given. -/
structure Awaiting (W T : Type) where
  cell : Cell W T
  strong : Nat
  holder : Holder
  delivery : Delivery W T
  clones : Nat
  polls : List (Polled W T)
  woken : List (Stored W)
  cleared : List (Stored W)
  ended : List (End T)

/-- One move. -/
inductive AwaitEvent (W : Type) where
  | poll (waker : W)
  /-- The lock section of `Transfer::drop`. -/
  | drop
  /-- The `Transfer` drops its reference, after `Transfer::drop`. -/
  | release
  /-- The lock section of `deliver`. -/
  | deliver
  /-- `deliver` drops its reference. -/
  | dropCell
  /-- `deliver` wakes the waker it took, if it took one. -/
  | wake

/-- Move a request onto a different context. -/
def mapContext {T T' : Type} (request : TransferRequest T) (map : T → T') :
    TransferRequest T' where
  clientId := request.clientId
  peerAddress := request.peerAddress
  remoteKey := request.remoteKey
  remoteAddress := request.remoteAddress
  direction := request.direction
  wantChecksum := request.wantChecksum
  callerContext := map request.callerContext

/-- A context on its way, and the cell it holds a reference to. -/
structure Awaited (W T : Type) where
  user : T
  cell : Cell W T

namespace Awaiting

variable {W T Task : Type}

/-- `FabricService::transfer`. `submit` says whether the worker took the request. -/
def transfer (request : TransferRequest T) (submit : TransferRequest (Awaited W T) → Bool) :
    Except (TransferRequest T) (Awaiting W T) :=
  let cell : Cell W T := ⟨none, none⟩
  let request := mapContext request fun user => (⟨user, cell⟩ : Awaited W T)
  if submit request then
    .ok
      { cell := cell
        strong := 2
        holder := .held
        delivery := .inFlight request.callerContext.user
        clones := 0
        polls := []
        woken := []
        cleared := []
        ended := [] }
  -- The worker is gone. The request comes back with the caller's own context.
  else .error (mapContext request fun awaited => awaited.user)

/-- Whether the outcome has been stored. -/
def isDelivered (s : Awaiting W T) : Bool :=
  match s.delivery with
  | .inFlight _ => false
  | _ => true

/-- One reference to the cell less. The last one drops the cell, and the context with it. -/
def dropReference (s : Awaiting W T) : Awaiting W T :=
  if s.strong = 1 then
    { s with
      strong := 0
      cell := ⟨none, none⟩
      ended := s.ended ++ s.cell.outcome.toList.map fun finished => .dropped finished.2 }
  else { s with strong := s.strong - 1 }

/-- The clone that the cell keeps after a pending poll. -/
def keepWaker (wakers : Wakers W Task) (s : Awaiting W T) (waker : W) : Awaiting W T :=
  match s.cell.waker with
  | some kept =>
    -- `will_wake`: a waker of the same task is kept, not cloned again.
    if wakers.willWake kept.waker waker then s
    else
      { s with
        cell := { s.cell with waker := some ⟨s.clones, wakers.clone waker⟩ }
        clones := s.clones + 1 }
  | none =>
    { s with
      cell := { s.cell with waker := some ⟨s.clones, wakers.clone waker⟩ }
      clones := s.clones + 1 }

/-- `Transfer::poll`. -/
def poll (wakers : Wakers W Task) (s : Awaiting W T) (waker : W) : Awaiting W T :=
  match s.cell.outcome with
  | some finished =>
    { s with
      -- `take`: a poll after this one finds nothing, and waits.
      cell := { s.cell with outcome := none }
      polls := s.polls ++ [⟨waker, s.isDelivered, some finished⟩]
      ended := s.ended ++ [.returned finished.2] }
  | none =>
    { s.keepWaker wakers waker with polls := s.polls ++ [⟨waker, s.isDelivered, none⟩] }

/-- One move. The completion carries `outcome`. -/
def step (wakers : Wakers W Task) (outcome : Outcome) (s : Awaiting W T) :
    AwaitEvent W → Option (Awaiting W T)
  | .poll waker => if s.holder = .held then some (s.poll wakers waker) else none
  | .drop =>
    if s.holder = .held then
      some { s with
        cell := { s.cell with waker := none }
        cleared := s.cleared ++ s.cell.waker.toList
        holder := .cleared }
    else none
  | .release =>
    if s.holder = .cleared then some { s.dropReference with holder := .gone } else none
  | .deliver =>
    match s.delivery with
    | .inFlight user =>
      some { s with
        -- One lock section: the outcome goes in and the waker comes out.
        cell := ⟨some (outcome, user), none⟩
        delivery := .stored s.cell.waker }
    | _ => none
  | .dropCell =>
    match s.delivery with
    | .stored waker => some { s.dropReference with delivery := .released waker }
    | _ => none
  | .wake =>
    match s.delivery with
    | .released waker => some { s with woken := s.woken ++ waker.toList, delivery := .done }
    | _ => none

end Awaiting

/-- The transfer of `request`, once the worker has taken it. -/
def awaiting {W T Task : Type} (wakers : Wakers W Task) (outcome : Outcome)
    (request : TransferRequest T) : Machine (Awaiting W T) (AwaitEvent W) where
  init s := Awaiting.transfer request (fun _ => true) = .ok s
  step := Awaiting.step wakers outcome

end Vdma.Fabric
