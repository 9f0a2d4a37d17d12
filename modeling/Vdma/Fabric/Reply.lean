import Mathlib.Logic.Function.Basic
import Vdma.Lib.Machine

/-!
# `Vdma.Fabric.Reply`: one-shot answers

A caller that waits for the worker and the worker share a slot (`reply.rs`). `replies` is the
machine of any number of slots: the worker sends or drops each `Answer`, and each caller waits
on its own `Waiting`. A label is a slot and one section under its lock, or a notification
outside of it, or a wake-up of the condition variable that nobody asked for.

`send` stores the value under the lock, notifies without it, and drops the `Answer` at its end:
three moves. A waiter gives up the lock and blocks in one. Only one thread waits on a slot, since
`wait` takes the `Waiting` by value, so `notify_one` wakes that thread or nobody. A thread that
was woken still needs the lock, and until then others may have it.

The lock is taken back from a thread that panicked, as `into_inner` does, so poisoning is
nothing to the slot.
-/

set_option autoImplicit false

namespace Vdma.Fabric

open Vdma.Lib

/-- What the lock guards. -/
inductive SlotState (T : Type) where
  | pending
  | answered (value : T)
  | abandoned
  deriving DecidableEq, Repr

/-- Where the `Answer` is. -/
inductive AnswerEnd (T : Type) where
  /-- With the worker. -/
  | held
  /-- In `send`, past the lock and before `notify_one`. -/
  | stored (value : T)
  /-- In `send`, past `notify_one`. The `Answer` is yet to drop. -/
  | notified (value : T)
  | dropped (sent : Option T)
  deriving DecidableEq, Repr

/-- Where the `Waiting` is. -/
inductive WaitEnd (T : Type) where
  /-- Before the first look. -/
  | starting
  /-- On the condition variable. -/
  | blocked
  /-- Awake, and about to take the lock back. -/
  | woken
  | returned (result : Option T)
  deriving DecidableEq, Repr

/-- A slot and its two ends. -/
structure Reply (T : Type) where
  slot : SlotState T
  answer : AnswerEnd T
  waiting : WaitEnd T
  deriving DecidableEq, Repr

/-- A move of one end. -/
inductive ReplyEvent (T : Type) where
  /-- The lock section of `settle`, in `send`. -/
  | send (value : T)
  /-- The `notify_one` of `settle`. -/
  | notify
  /-- `Answer::drop`. -/
  | drop
  /-- The lock section of `wait`, up to its return or to the condition variable. -/
  | look
  /-- The condition variable wakes its thread unasked. -/
  | spurious

/-- `reply`. -/
def Reply.new {T : Type} : Reply T := ⟨.pending, .held, .starting⟩

/-- `notify_one`, of a condition variable that one thread may be on. -/
def WaitEnd.notifyOne {T : Type} : WaitEnd T → WaitEnd T
  | .blocked => .woken
  | waiting => waiting

namespace Reply

variable {T : Type}

/-- The lock section of `wait`. It leaves `Pending` behind, whatever it finds. -/
def look (r : Reply T) : Reply T :=
  match r.slot with
  | .answered value => { r with slot := .pending, waiting := .returned (some value) }
  | .abandoned => { r with slot := .pending, waiting := .returned none }
  | .pending => { r with slot := .pending, waiting := .blocked }

/-- `Answer::drop`, after `sent` or nothing. It notifies under the lock. -/
def dropAnswer (r : Reply T) (sent : Option T) : Reply T :=
  match r.slot with
  | .pending =>
    { slot := .abandoned, answer := .dropped sent, waiting := r.waiting.notifyOne }
  | _ => { r with answer := .dropped sent }

/-- One move. -/
def step (r : Reply T) : ReplyEvent T → Option (Reply T)
  | .send value =>
    match r.answer with
    | .held => some { r with slot := .answered value, answer := .stored value }
    | _ => none
  | .notify =>
    match r.answer with
    | .stored value =>
      some { r with answer := .notified value, waiting := r.waiting.notifyOne }
    | _ => none
  | .drop =>
    match r.answer with
    | .held => some (r.dropAnswer none)
    | .notified value => some (r.dropAnswer (some value))
    | _ => none
  | .look =>
    match r.waiting with
    | .starting => some r.look
    | .woken => some r.look
    | _ => none
  | .spurious =>
    match r.waiting with
    | .blocked => some { r with waiting := .woken }
    | _ => none

end Reply

/-- Any number of replies, each of its own type. -/
def replies {ι : Type} [DecidableEq ι] (T : ι → Type) :
    Machine ((i : ι) → Reply (T i)) ((i : ι) × ReplyEvent (T i)) where
  init s := s = fun _ => .new
  step s e := ((s e.1).step e.2).map (Function.update s e.1)

end Vdma.Fabric
