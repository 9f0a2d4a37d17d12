import Vdma.Fabric.Reply
import Vdma.Lib.Fairness

/-!
# `Vdma.Proofs.Reply`: every wait ends with what was sent

`Settles` is the invariant of a slot. Until the `Answer` is sent or dropped the slot stays
`Pending`, so the waiter takes nothing away when it writes `Pending` over it. From then on the
slot keeps the answer for the waiter, until the waiter has it. The drop at the end of `send`
finds `Pending` only after the waiter has taken the value, and what it writes is never read.

A waiter blocks only on a slot that it found `Pending` under the lock. So an answer that was
stored before is seen, and one that is stored after has its notification still to come.
-/

set_option autoImplicit false

namespace Vdma.Fabric

open Vdma.Lib

/-- What the worker did with an `Answer`: it sent a value, or dropped it unsent. -/
def AnswerEnd.settled {T : Type} : AnswerEnd T → Option (Option T)
  | .held => none
  | .stored value => some (some value)
  | .notified value => some (some value)
  | .dropped sent => some sent

/-- The slot that keeps an answer for the waiter. -/
def SlotState.keeping {T : Type} : Option T → SlotState T
  | some value => .answered value
  | none => .abandoned

/-- The wait has returned. -/
def WaitEnd.isReturned {T : Type} : WaitEnd T → Bool
  | .returned _ => true
  | _ => false

section
variable {T : Type} {waiting : WaitEnd T}

/-- A notification ends no wait. -/
theorem WaitEnd.isReturned_notifyOne : waiting.notifyOne.isReturned = waiting.isReturned := by
  cases waiting <;> rfl

/-- A waiter that was notified is not blocked. -/
theorem WaitEnd.notifyOne_ne_blocked : waiting.notifyOne ≠ .blocked := by
  intro h
  cases waiting <;> cases h

end

/-- The invariant of a slot. -/
structure Settles {T : Type} (r : Reply T) : Prop where
  /-- Nobody has answered. -/
  waits : r.answer.settled = none → r.slot = .pending ∧ r.waiting.isReturned = false
  /-- The answer is with the waiter, or kept for it. -/
  keeps : ∀ sent, r.answer.settled = some sent →
    r.waiting = .returned sent ∨ (r.slot = .keeping sent ∧ r.waiting.isReturned = false)
  /-- A waiter that missed the answer is yet to be notified. -/
  notifies : r.waiting = .blocked → ∀ sent, r.answer.settled = some sent →
    ∃ value, r.answer = .stored value

namespace Settles

variable {T : Type} {r r' : Reply T}

/-- A new slot is pending, and nothing was sent. -/
theorem new : Settles (Reply.new : Reply T) where
  waits _ := ⟨rfl, rfl⟩
  keeps sent h := by cases h
  notifies h := by cases h

/-- A look at a settled slot returns what was sent. -/
theorem look (h : Settles r) {sent : Option T} (hsent : r.answer.settled = some sent)
    (hopen : r.waiting.isReturned = false) :
    r.look = { r with slot := .pending, waiting := .returned sent } := by
  rcases h.keeps sent hsent with hreturned | ⟨hslot, -⟩
  · rw [hreturned] at hopen
    cases hopen
  · cases sent with
    | none => simp only [Reply.look, hslot, SlotState.keeping]
    | some value => simp only [Reply.look, hslot, SlotState.keeping]

/-- A look at a slot that nobody has answered blocks. -/
theorem look_pending (h : Settles r) (hnone : r.answer.settled = none) :
    r.look = { r with slot := .pending, waiting := .blocked } := by
  simp only [Reply.look, (h.waits hnone).1]

/-- What a wait returned is what the worker did. -/
theorem settled_of_returned (h : Settles r) {result : Option T}
    (hreturned : r.waiting = .returned result) : r.answer.settled = some result := by
  cases hsettled : r.answer.settled with
  | none =>
    obtain ⟨-, hopen⟩ := h.waits hsettled
    rw [hreturned] at hopen
    cases hopen
  | some sent =>
    rcases h.keeps sent hsettled with hsent | ⟨-, hopen⟩
    · rw [hreturned] at hsent
      cases hsent
      rfl
    · rw [hreturned] at hopen
      cases hopen

/-- A move that looks at a settled slot returns what was sent. -/
theorem returned_of_look (h : Settles r) {sent : Option T} (hsent : r.answer.settled = some sent)
    (hstep : r.step .look = some r') : r'.waiting = .returned sent := by
  simp only [Reply.step] at hstep
  split at hstep
  · next hstarting =>
    cases hstep
    rw [h.look hsent (by rw [hstarting]; rfl)]
  · next hwoken =>
    cases hstep
    rw [h.look hsent (by rw [hwoken]; rfl)]
  · cases hstep

/-- The lock section of a waiter that has not returned. -/
theorem step_look (h : Settles r) (hopen : r.waiting.isReturned = false) : Settles r.look := by
  cases hsettled : r.answer.settled with
  | none =>
    -- Nobody has answered, so there is nothing to return.
    rw [h.look_pending hsettled]
    refine ⟨fun _ => ⟨rfl, rfl⟩, ?_, ?_⟩
    · intro sent hsent
      rw [show r.answer.settled = some sent from hsent] at hsettled
      cases hsettled
    · intro _ sent hsent
      rw [show r.answer.settled = some sent from hsent] at hsettled
      cases hsettled
  | some sent =>
    -- The answer is there: looking returns it.
    rw [h.look hsettled hopen]
    constructor
    · intro hnone
      rw [show r.answer.settled = none from hnone] at hsettled
      cases hsettled
    · intro sent' hsent'
      rw [show r.answer.settled = some sent' from hsent'] at hsettled
      cases hsettled
      exact .inl rfl
    · intro hblocked
      cases hblocked

/-- The drop of an `Answer` that was held, or at the end of its `send`. -/
theorem step_drop (h : Settles r) {sent : Option T}
    (hanswer : (r.answer = .held ∧ sent = none) ∨ ∃ value, r.answer = .notified value ∧
      sent = some value) : Settles (r.dropAnswer sent) := by
  have hsettled : (r.dropAnswer sent).answer.settled = some sent := by
    unfold Reply.dropAnswer
    split <;> rfl
  have hkeeps : (r.dropAnswer sent).waiting = .returned sent ∨
      ((r.dropAnswer sent).slot = .keeping sent ∧
        (r.dropAnswer sent).waiting.isReturned = false) := by
    rcases hanswer with ⟨hheld, rfl⟩ | ⟨value, hnotified, rfl⟩
    · -- Unsent: the slot is pending, and the drop marks it.
      obtain ⟨hslot, hopen⟩ := h.waits (by rw [hheld]; rfl)
      simp only [Reply.dropAnswer, hslot]
      exact .inr ⟨rfl, WaitEnd.isReturned_notifyOne.trans hopen⟩
    · rcases h.keeps (some value) (by rw [hnotified]; rfl) with hreturned | ⟨hslot, hopen⟩
      · -- The waiter has the value, and nobody reads what the drop writes.
        left
        unfold Reply.dropAnswer
        split
        · show r.waiting.notifyOne = _
          rw [hreturned]
          rfl
        · exact hreturned
      · simp only [Reply.dropAnswer, hslot]
        exact .inr ⟨rfl, hopen⟩
  have hblocked : (r.dropAnswer sent).waiting ≠ .blocked := by
    unfold Reply.dropAnswer
    split
    · exact WaitEnd.notifyOne_ne_blocked
    · next hslot =>
      -- The slot is not pending: a waiter that blocks there waits for its notification.
      intro hwaiting
      rcases hanswer with ⟨hheld, -⟩ | ⟨value, hnotified, -⟩
      · exact hslot (h.waits (by rw [hheld]; rfl)).1
      · obtain ⟨value', hstored⟩ := h.notifies hwaiting (some value) (by rw [hnotified]; rfl)
        rw [hnotified] at hstored
        cases hstored
  refine ⟨?_, ?_, fun hwaiting => absurd hwaiting hblocked⟩
  · intro hnone
    rw [hsettled] at hnone
    cases hnone
  · intro sent' hsent'
    rw [hsettled] at hsent'
    cases hsent'
    exact hkeeps

/-- Every move keeps the invariant. -/
theorem step {e : ReplyEvent T} (h : Settles r) (hstep : r.step e = some r') : Settles r' := by
  cases e with
  | send value =>
    simp only [Reply.step] at hstep
    split at hstep
    · next hheld =>
      -- Stored, and the notification is still to come.
      cases hstep
      obtain ⟨-, hopen⟩ := h.waits (by rw [hheld]; rfl)
      constructor
      · intro hnone
        cases hnone
      · intro sent hsent
        cases hsent
        exact .inr ⟨rfl, hopen⟩
      · intro _ _ _
        exact ⟨value, rfl⟩
    · cases hstep
  | notify =>
    simp only [Reply.step] at hstep
    split at hstep
    · next value hstored =>
      -- The slot is as it was. The waiter may have looked before the notification.
      cases hstep
      constructor
      · intro hnone
        cases hnone
      · intro sent hsent
        cases hsent
        rcases h.keeps (some value) (by rw [hstored]; rfl) with hreturned | ⟨hslot, hopen⟩
        · left
          show r.waiting.notifyOne = _
          rw [hreturned]
          rfl
        · exact .inr ⟨hslot, WaitEnd.isReturned_notifyOne.trans hopen⟩
      · intro hblocked
        exact absurd hblocked WaitEnd.notifyOne_ne_blocked
    · cases hstep
  | drop =>
    simp only [Reply.step] at hstep
    split at hstep
    · next hheld =>
      cases hstep
      exact h.step_drop (.inl ⟨hheld, rfl⟩)
    · next value hnotified =>
      cases hstep
      exact h.step_drop (.inr ⟨value, hnotified, rfl⟩)
    · cases hstep
  | look =>
    simp only [Reply.step] at hstep
    split at hstep
    · next hstarting =>
      cases hstep
      exact h.step_look (by rw [hstarting]; rfl)
    · next hwoken =>
      cases hstep
      exact h.step_look (by rw [hwoken]; rfl)
    · cases hstep
  | spurious =>
    simp only [Reply.step] at hstep
    split at hstep
    · next hblocked =>
      -- Nothing is read before the next look.
      cases hstep
      constructor
      · intro hnone
        exact ⟨(h.waits hnone).1, rfl⟩
      · intro sent hsent
        rcases h.keeps sent hsent with hreturned | ⟨hslot, -⟩
        · rw [hblocked] at hreturned
          cases hreturned
        · exact .inr ⟨hslot, rfl⟩
      · intro hblocked'
        cases hblocked'
    · cases hstep

end Settles

/-! ### Runs -/

section
variable {ι : Type} [DecidableEq ι] {T : ι → Type}

/-- What a step does to one slot: nothing, or a move of its own. -/
theorem reply_step {s s' : (i : ι) → Reply (T i)} {e : (i : ι) × ReplyEvent (T i)}
    (h : (replies T).step s e = some s') (i : ι) :
    (s' i = s i ∧ e.1 ≠ i) ∨ ∃ move, e = ⟨i, move⟩ ∧ (s i).step move = some (s' i) := by
  obtain ⟨j, move⟩ := e
  obtain ⟨r, hr, rfl⟩ := Option.map_eq_some_iff.mp h
  by_cases hi : i = j
  · subst hi
    refine .inr ⟨move, rfl, ?_⟩
    rw [Function.update_self]
    exact hr
  · exact .inl ⟨Function.update_of_ne hi _ _, Ne.symm hi⟩

/-- A move of a slot is a step. -/
theorem step_of_reply {s : (i : ι) → Reply (T i)} {i : ι} {move : ReplyEvent (T i)}
    {r : Reply (T i)} (h : (s i).step move = some r) :
    (replies T).step s ⟨i, move⟩ = some (Function.update s i r) := by
  show ((s i).step move).map _ = _
  rw [h]
  rfl

/-- Every slot of every run settles. -/
theorem settles_reach {s : (i : ι) → Reply (T i)} (h : (replies T).Reachable s) (i : ι) :
    Settles (s i) := by
  refine h.invariant (I := fun s => Settles (s i)) ?_ ?_
  · rintro s rfl
    exact .new
  · intro s e s' _ hstep hs
    rcases reply_step hstep i with ⟨hsame, -⟩ | ⟨move, -, hmove⟩
    · rw [hsame]
      exact hs
    · exact hs.step hmove

/-! ### Fair runs -/

/-- An answer past its notification, or dropped. -/
def AnswerEnd.isOver {α : Type} : AnswerEnd α → Bool
  | .held => false
  | .stored _ => false
  | _ => true

/-- The waiter of a slot whose answer is past its notification has returned, or is about to
look. -/
theorem Settles.returned_or_looks {α : Type} {r : Reply α} (h : Settles r)
    (hover : r.answer.isOver = true) {sent : Option α} (hsent : r.answer.settled = some sent) :
    r.waiting = .returned sent ∨
      (r.waiting.isReturned = false ∧ r.step .look = some r.look) := by
  cases hwaiting : r.waiting with
  | starting => exact .inr ⟨rfl, by rw [Reply.step, hwaiting]⟩
  | woken => exact .inr ⟨rfl, by rw [Reply.step, hwaiting]⟩
  | blocked =>
    obtain ⟨value, hstored⟩ := h.notifies hwaiting sent hsent
    rw [hstored] at hover
    cases hover
  | returned result =>
    rcases h.keeps sent hsent with hreturned | ⟨-, hopen⟩
    · left
      rw [← hwaiting]
      exact hreturned
    · rw [hwaiting] at hopen
      cases hopen

/-- What is settled stays settled, and what is over stays over. -/
theorem Reply.settled_step {α : Type} {r r' : Reply α} {move : ReplyEvent α}
    (h : r.step move = some r') {sent : Option α} (hsent : r.answer.settled = some sent) :
    r'.answer.settled = some sent ∧ (r.answer.isOver = true → r'.answer.isOver = true) := by
  cases move with
  -- The sender's end is used up.
  | send value =>
    simp only [Reply.step] at h
    split at h
    · next hheld =>
      rw [hheld] at hsent
      cases hsent
    · cases h
  | notify =>
    simp only [Reply.step] at h
    split at h
    · next value hstored =>
      cases h
      rw [hstored] at hsent
      exact ⟨hsent, fun _ => rfl⟩
    · cases h
  -- Dropping the end keeps what was stored.
  | drop =>
    simp only [Reply.step] at h
    split at h
    · next hheld =>
      rw [hheld] at hsent
      cases hsent
    · next value hnotified =>
      cases h
      rw [hnotified] at hsent
      have hanswer : (r.dropAnswer (some value)).answer = .dropped (some value) := by
        unfold Reply.dropAnswer
        split <;> rfl
      rw [hanswer]
      exact ⟨hsent, fun _ => rfl⟩
    · cases h
  -- Looking and waking change the waiting side only.
  | look =>
    have hanswer : r'.answer = r.answer := by
      simp only [Reply.step, Reply.look] at h
      split at h
      · split at h <;> cases h <;> rfl
      · split at h <;> cases h <;> rfl
      · cases h
    rw [hanswer]
    exact ⟨hsent, id⟩
  | spurious =>
    simp only [Reply.step] at h
    split at h
    · cases h
      exact ⟨hsent, id⟩
    · cases h

/-- A settled slot of a run stays settled. -/
theorem settled_of_step {s s' : (i : ι) → Reply (T i)} {e : (i : ι) × ReplyEvent (T i)}
    (h : (replies T).step s e = some s') {i : ι} {sent : Option (T i)}
    (hsent : (s i).answer.settled = some sent) :
    (s' i).answer.settled = some sent ∧
      ((s i).answer.isOver = true → (s' i).answer.isOver = true) := by
  rcases reply_step h i with ⟨hsame, -⟩ | ⟨move, -, hmove⟩
  · rw [hsame]
    exact ⟨hsent, id⟩
  · exact Reply.settled_step hmove hsent

/-- A settled answer that is not over waits for its notification. -/
theorem AnswerEnd.exists_stored {α : Type} {answer : AnswerEnd α} {sent : Option α}
    (hsent : answer.settled = some sent) (hopen : answer.isOver = false) :
    ∃ value, answer = .stored value := by
  cases answer with
  | held => cases hsent
  | stored value => exact ⟨value, rfl⟩
  | notified value => cases hopen
  | dropped sent' => cases hopen

/-- The notification comes, if the worker goes on. -/
theorem eventually_over (x : (replies T).Execution) {i : ι} (hfair : x.WeaklyFair ⟨i, .notify⟩)
    {n : Nat} {sent : Option (T i)} (hsent : (x.state n i).answer.settled = some sent) :
    ∃ m, n ≤ m ∧ (x.state m i).answer.settled = some sent ∧
      (x.state m i).answer.isOver = true := by
  cases hover : (x.state n i).answer.isOver with
  | true => exact ⟨n, Nat.le_refl n, hsent, hover⟩
  | false =>
    refine x.eventually hfair
      (P := fun s => (s i).answer.settled = some sent ∧ (s i).answer.isOver = false)
      (Q := fun s => (s i).answer.settled = some sent ∧ (s i).answer.isOver = true)
      ?_ ?_ ?_ ⟨hsent, hover⟩
    · -- While the answer is stored and not notified, notifying is enabled.
      rintro s - ⟨hs, hopen⟩
      obtain ⟨value, hstored⟩ := AnswerEnd.exists_stored hs hopen
      have hnotify : (s i).step .notify = some { s i with
          answer := .notified value, waiting := (s i).waiting.notifyOne } := by
        rw [Reply.step, hstored]
      rw [Machine.Enabled, step_of_reply hnotify]
      rfl
    · -- Every step keeps the answer, and either keeps or ends its notification.
      rintro s e s' - ⟨hs, -⟩ hstep
      have hs' := (settled_of_step hstep hs).1
      cases hover' : (s' i).answer.isOver with
      | true => exact .inr ⟨hs', rfl⟩
      | false => exact .inl ⟨hs', rfl⟩
    · -- Notifying ends it.
      rintro s s' - ⟨hs, -⟩ hstep
      refine ⟨(settled_of_step hstep hs).1, ?_⟩
      rcases reply_step hstep i with ⟨-, hother⟩ | ⟨move, hmove, hslot⟩
      · exact absurd rfl hother
      · cases hmove
        simp only [Reply.step] at hslot
        split at hslot
        · rw [← Option.some.inj hslot]
          rfl
        · cases hslot

/-- Every wait on a settled slot returns, if the worker and the waiter go on. -/
theorem eventually_returned (x : (replies T).Execution) {i : ι}
    (hnotify : x.WeaklyFair ⟨i, .notify⟩) (hlook : x.WeaklyFair ⟨i, .look⟩) {n : Nat}
    {sent : Option (T i)} (hsent : (x.state n i).answer.settled = some sent) :
    ∃ m, n ≤ m ∧ (x.state m i).waiting = .returned sent := by
  obtain ⟨k, hk, hsettled, hover⟩ := eventually_over x hnotify hsent
  rcases (settles_reach (x.reachable k) i).returned_or_looks hover hsettled with hreturned
    | ⟨hopen, -⟩
  · exact ⟨k, hk, hreturned⟩
  · have heventually := x.eventually hlook (n := k)
      (P := fun s => (s i).answer.settled = some sent ∧ (s i).answer.isOver = true ∧
        (s i).waiting.isReturned = false)
      (Q := fun s => (s i).waiting = .returned sent) ?_ ?_ ?_ ⟨hsettled, hover, hopen⟩
    · obtain ⟨m, hm, hreturned⟩ := heventually
      exact ⟨m, Nat.le_trans hk hm, hreturned⟩
    · -- While the thread has not returned, looking is enabled.
      rintro s hs ⟨hs', hover', hopen'⟩
      rcases (settles_reach hs i).returned_or_looks hover' hs' with hreturned | ⟨-, hstep⟩
      · rw [hreturned] at hopen'
        cases hopen'
      · rw [Machine.Enabled, step_of_reply hstep]
        rfl
    · -- The answer stays over, whatever the others do.
      rintro s e s' hs ⟨hs', hover', -⟩ hstep
      obtain ⟨hsent', hkeeps⟩ := settled_of_step hstep hs'
      rcases (settles_reach (hs.step trivial hstep) i).returned_or_looks (hkeeps hover') hsent'
        with hreturned | ⟨hopen', -⟩
      · exact .inr hreturned
      · exact .inl ⟨hsent', hkeeps hover', hopen'⟩
    · -- Looking returns it.
      rintro s s' hs ⟨hs', hover', hopen'⟩ hstep
      have hsettles := settles_reach hs i
      rcases hsettles.returned_or_looks hover' hs' with hreturned | ⟨-, hmove⟩
      · rw [hreturned] at hopen'
        cases hopen'
      · rw [step_of_reply hmove] at hstep
        cases hstep
        rw [Function.update_self, hsettles.look hs' hopen']

/-- One-shot replies always settle. In every state of every run, for each slot: a wait that has
returned has what the worker sent, or `None` when the `Answer` was dropped unsent. Once it was
sent or dropped, any look of the waiter returns exactly that, and a waiter that is blocked has its
notification still to come. So in a run where the worker goes on to notify and the woken waiter
to look, every wait on an `Answer` that was sent or dropped returns. -/
theorem replies_settle {ι : Type} [DecidableEq ι] (T : ι → Type) :
    (∀ s, (replies T).Reachable s → ∀ i,
      (∀ result, (s i).waiting = .returned result →
        (∀ value, result = some value ↔ (s i).answer.settled = some (some value)) ∧
          (result = none ↔ (s i).answer.settled = some none)) ∧
      (∀ sent, (s i).answer.settled = some sent → ∀ s',
        (replies T).step s ⟨i, .look⟩ = some s' → (s' i).waiting = .returned sent) ∧
      (∀ sent, (s i).answer.settled = some sent → (s i).waiting = .blocked →
        ∃ s', (replies T).step s ⟨i, .notify⟩ = some s' ∧ (s' i).waiting = .woken)) ∧
    ∀ (x : (replies T).Execution) (i : ι), x.WeaklyFair ⟨i, .notify⟩ →
      x.WeaklyFair ⟨i, .look⟩ → ∀ n sent, (x.state n i).answer.settled = some sent →
        ∃ m, n ≤ m ∧ (x.state m i).waiting = .returned sent := by
  refine ⟨?_, fun x i hnotify hlook n sent => eventually_returned x hnotify hlook⟩
  intro s hs i
  have hsettles := settles_reach hs i
  -- Three parts: what is returned is what was settled, looking returns it, and a blocked thread is
  -- yet to be notified.
  refine ⟨?_, ?_, ?_⟩
  · intro result hreturned
    have hsettled := hsettles.settled_of_returned hreturned
    rw [hsettled]
    exact ⟨fun value => by rw [Option.some.injEq], by rw [Option.some.injEq]⟩
  · intro sent hsent s' hstep
    rcases reply_step hstep i with ⟨-, hother⟩ | ⟨move, hmove, hslot⟩
    · exact absurd rfl hother
    · cases hmove
      exact hsettles.returned_of_look hsent hslot
  · intro sent hsent hblocked
    obtain ⟨value, hstored⟩ := hsettles.notifies hblocked sent hsent
    have hnotify : (s i).step .notify = some { s i with
        answer := .notified value, waiting := (s i).waiting.notifyOne } := by
      rw [Reply.step, hstored]
    refine ⟨_, step_of_reply hnotify, ?_⟩
    rw [Function.update_self, hblocked]
    rfl

end

/-- The waiter wakes unasked and blocks again, and then takes the value before the `Answer` is
dropped. -/
example : ((replies fun _ : Unit => Nat).run (fun _ => .new) [⟨(), .look⟩, ⟨(), .spurious⟩,
      ⟨(), .look⟩, ⟨(), .send 7⟩, ⟨(), .notify⟩, ⟨(), .look⟩, ⟨(), .drop⟩]).map (fun s => s ())
    = some ⟨.abandoned, .dropped (some 7), .returned (some 7)⟩ := by
  decide +kernel

end Vdma.Fabric
