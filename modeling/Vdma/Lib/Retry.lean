import Mathlib.Data.List.Chain
import Mathlib.Data.List.Nodup

/-!
# `Vdma.Lib.Retry`: a queue that is tried in passes

A pass takes each entry that was queued when it began for one attempt, in order. The attempt is
posted, or fails, or is refused. A refused entry goes to the end of the queue, unless its first
refusal was a deadline ago: then it fails too.

`Run` has the rules of such a queue, with what is seen of it as a list of events. `Run.lawful`
reads the events as passes: each obeys `Pass.Fair`, and each attempt `Attempt.Timely`.

The rules keep the time of the first refusal with the entry. `Timely` does not know of it and
looks for the refusal among the attempts that were seen, so entries must not come back under an
old key. That is what `State.seen` is for.
-/

set_option autoImplicit false

namespace Vdma.Lib.Retry

variable {κ ε : Type}

/-! ### What is seen -/

/-- What is seen of a queue. -/
inductive Event (κ ε : Type) where
  /-- A pass begins over these entries. -/
  | begun (queued : List κ)
  /-- The head is taken for an attempt. -/
  | taken (k : κ)
  /-- The attempt is refused. The readings of the clock follow, `first` before `now`. -/
  | refused (k : κ) (first now : Nat)
  | posted (k : κ)
  | requeued (k : κ)
  | failed (k : κ) (error : ε)
  /-- The pass ends: whether it had no more room, and the entries it leaves. -/
  | ended (full : Bool) (left : List κ)
  deriving DecidableEq, Repr

/-- How an attempt ends. -/
inductive Outcome (ε : Type) where
  | posted
  | requeued
  | failed (error : ε)
  deriving DecidableEq, Repr

/-- An attempt: the readings that followed a refusal, and how it ended. It is under way as long
as it has no outcome. -/
structure Attempt (κ ε : Type) where
  key : κ
  refusal : Option (Nat × Nat)
  outcome : Option (Outcome ε)
  deriving DecidableEq, Repr

/-- A pass: the entries it began with, its attempts, and how it ended. -/
structure Pass (κ ε : Type) where
  queued : List κ
  attempts : List (Attempt κ ε)
  ended : Option (Bool × List κ)
  deriving DecidableEq, Repr

/-- What is seen of an outcome. -/
def Outcome.event (k : κ) : Outcome ε → Event κ ε
  | .posted => .posted k
  | .requeued => .requeued k
  | .failed error => .failed k error

namespace Attempt

/-- What is seen of an attempt. -/
def events (a : Attempt κ ε) : List (Event κ ε) :=
  .taken a.key :: (a.refusal.toList.map fun r => .refused a.key r.1 r.2)
    ++ (a.outcome.toList.map fun o => o.event a.key)

/-- The entry went back to the queue. -/
def isRequeued (a : Attempt κ ε) : Bool :=
  match a.outcome with
  | some .requeued => true
  | _ => false

/-- The key and the first reading of a refused attempt. -/
def refusedAt [DecidableEq κ] (k : κ) (a : Attempt κ ε) : Option Nat :=
  if a.key = k then a.refusal.map Prod.fst else none

end Attempt

/-- When an entry was first refused. -/
def stalledSince [DecidableEq κ] (k : κ) (attempts : List (Attempt κ ε)) : Option Nat :=
  attempts.findSome? (Attempt.refusedAt k)

/-- The attempt `a`, after the attempts `before`, is put off exactly if it is refused before the
deadline of its entry, and given up as stuck exactly if it is refused from then on. -/
structure Attempt.Timely [DecidableEq κ] (deadline : Nat) (stuck : ε)
    (before : List (Attempt κ ε)) (a : Attempt κ ε) : Prop where
  requeued : ∀ outcome, a.outcome = some outcome → (outcome = .requeued ↔
    ∃ first now since, a.refusal = some (first, now) ∧
      stalledSince a.key (before ++ [a]) = some since ∧ now < since + deadline)
  failed : ∀ outcome, a.outcome = some outcome → (outcome = .failed stuck ↔
    ∃ first now since, a.refusal = some (first, now) ∧
      stalledSince a.key (before ++ [a]) = some since ∧ since + deadline ≤ now)

namespace Pass

/-- What is seen of a pass. -/
def events (p : Pass κ ε) : List (Event κ ε) :=
  .begun p.queued :: p.attempts.flatMap Attempt.events
    ++ (p.ended.toList.map fun e => .ended e.1 e.2)

/-- A pass tries the entries it began with once each, from the front. Each attempt ends before
the next one. At the end of the pass every entry was tried, or there was no more room, and the
queue has the rest in the old order, then what was put off in the order of the attempts. -/
structure Fair (p : Pass κ ε) : Prop where
  nodup : p.queued.Nodup
  settled : ∀ a ∈ p.attempts.dropLast, a.outcome ≠ none
  rest : ∃ rest, p.queued = p.attempts.map Attempt.key ++ rest ∧
    ∀ full left, p.ended = some (full, left) →
      (∀ a ∈ p.attempts, a.outcome ≠ none) ∧ (rest = [] ∨ full = true) ∧
        left = rest ++ (p.attempts.filter Attempt.isRequeued).map Attempt.key

/-- What a pass leaves is at the front of the queue at the next one. -/
def Stays (p p' : Pass κ ε) : Prop := ∀ full left, p.ended = some (full, left) → left <+: p'.queued

end Pass

/-- What is seen of a queue are fair passes with timely attempts, each pass after the one before
it has ended. -/
structure Lawful [DecidableEq κ] (deadline : Nat) (stuck : ε) (passes : List (Pass κ ε)) :
    Prop where
  fair : ∀ p ∈ passes, p.Fair
  ended : ∀ p ∈ passes.dropLast, p.ended ≠ none
  stays : passes.IsChain Pass.Stays
  timely : ∀ before a after, passes.flatMap Pass.attempts = before ++ a :: after →
    a.Timely deadline stuck before

/-! ### The rules -/

/-- The entry an attempt is made for, and the readings that followed its refusal. -/
structure Hand (κ : Type) where
  key : κ
  since : Option Nat
  refusal : Option (Nat × Nat)

/-- Where a queue stands: between two passes, or in one that may take `attempts` more entries. -/
inductive Stage (κ : Type) where
  | resting
  | passing (attempts : Nat) (hand : Option (Hand κ))

/-- A queue. An entry carries the time of its first refusal. `seen` has the key of every entry
there was. -/
structure State (κ : Type) where
  entries : List (κ × Option Nat)
  stage : Stage κ
  seen : List κ
  clock : Nat

/-- The keys of the queue. -/
def State.keys (a : State κ) : List κ := a.entries.map Prod.fst

/-- The queues there may be, and what was seen of them. -/
inductive Run (deadline : Nat) (stuck : ε) : List (Event κ ε) → State κ → Prop
  | start (clock : Nat) : Run deadline stuck [] ⟨[], .resting, [], clock⟩
  | arrive {log : List (Event κ ε)} {a : State κ} (k : κ) (h : Run deadline stuck log a)
      (hstage : a.stage = .resting) (hnew : k ∉ a.seen) :
      Run deadline stuck log { a with entries := a.entries ++ [(k, none)], seen := k :: a.seen }
  | begin {log : List (Event κ ε)} {a : State κ} (h : Run deadline stuck log a)
      (hstage : a.stage = .resting) :
      Run deadline stuck (log ++ [.begun a.keys])
        { a with stage := .passing a.entries.length none }
  | take {log : List (Event κ ε)} {a : State κ} {k : κ} {since : Option Nat}
      {entries : List (κ × Option Nat)} {n : Nat} (h : Run deadline stuck log a)
      (hstage : a.stage = .passing (n + 1) none) (hentries : a.entries = (k, since) :: entries) :
      Run deadline stuck (log ++ [.taken k])
        { a with entries := entries, stage := .passing n (some ⟨k, since, none⟩) }
  | refuse {log : List (Event κ ε)} {a : State κ} {k : κ} {since : Option Nat} {n first now : Nat}
      (h : Run deadline stuck log a) (hstage : a.stage = .passing n (some ⟨k, since, none⟩))
      (hfirst : a.clock ≤ first) (hnow : first ≤ now) :
      Run deadline stuck (log ++ [.refused k first now])
        { a with
          stage := .passing n (some ⟨k, some (since.getD first), some (first, now)⟩)
          clock := now }
  | post {log : List (Event κ ε)} {a : State κ} {k : κ} {since : Option Nat} {n : Nat}
      (h : Run deadline stuck log a) (hstage : a.stage = .passing n (some ⟨k, since, none⟩)) :
      Run deadline stuck (log ++ [.posted k]) { a with stage := .passing n none }
  | requeue {log : List (Event κ ε)} {a : State κ} {k : κ} {since n first now : Nat}
      (h : Run deadline stuck log a)
      (hstage : a.stage = .passing n (some ⟨k, some since, some (first, now)⟩))
      (hearly : now - since < deadline) :
      Run deadline stuck (log ++ [.requeued k])
        { a with entries := a.entries ++ [(k, some since)], stage := .passing n none }
  | giveUp {log : List (Event κ ε)} {a : State κ} {k : κ} {since n first now : Nat}
      (h : Run deadline stuck log a)
      (hstage : a.stage = .passing n (some ⟨k, some since, some (first, now)⟩))
      (hlate : deadline ≤ now - since) :
      Run deadline stuck (log ++ [.failed k stuck]) { a with stage := .passing n none }
  | fail {log : List (Event κ ε)} {a : State κ} {k : κ} {since : Option Nat} {n : Nat} {error : ε}
      (h : Run deadline stuck log a) (hstage : a.stage = .passing n (some ⟨k, since, none⟩))
      (herror : error ≠ stuck) :
      Run deadline stuck (log ++ [.failed k error]) { a with stage := .passing n none }
  | finish {log : List (Event κ ε)} {a : State κ} {n : Nat} {full : Bool}
      (h : Run deadline stuck log a) (hstage : a.stage = .passing n none)
      (hfull : n = 0 ∨ full = true) :
      Run deadline stuck (log ++ [.ended full a.keys]) { a with stage := .resting }

/-! ### The attempts -/

/-- What holds of each element of a list and what is before it, with one element more. -/
theorem forall_concat {α : Type} {P : List α → α → Prop} {l : List α} {x : α}
    (h : ∀ before a after, l = before ++ a :: after → P before a) (hx : P l x) :
    ∀ before a after, l ++ [x] = before ++ a :: after → P before a := by
  intro before a after heq
  rcases List.eq_nil_or_concat after with rfl | ⟨after, y, rfl⟩
  · obtain ⟨rfl, hlast⟩ := List.append_inj' heq rfl
    cases hlast
    exact hx
  · have hassoc : l ++ [x] = (before ++ a :: after) ++ [y] := by
      rw [heq, List.concat_eq_append, List.append_assoc, List.cons_append]
    exact h before a after (List.append_inj' hassoc rfl).1

/-- The same with fewer elements. -/
theorem forall_prefix {α : Type} {P : List α → α → Prop} {l l' : List α}
    (h : ∀ before a after, l' = before ++ a :: after → P before a) (hfront : l <+: l') :
    ∀ before a after, l = before ++ a :: after → P before a := by
  rintro before a after rfl
  obtain ⟨more, rfl⟩ := hfront
  exact h before a (after ++ more) (by rw [List.append_assoc, List.cons_append])

section
variable [DecidableEq κ] {deadline : Nat} {stuck : ε}

/-- The first refusal of a key is the one it had, or the last attempt's. -/
theorem stalledSince_concat (k : κ) (attempts : List (Attempt κ ε)) (a : Attempt κ ε) :
    stalledSince k (attempts ++ [a]) = (stalledSince k attempts).or (a.refusedAt k) := by
  rw [stalledSince, List.findSome?_append, List.findSome?_singleton]
  rfl

/-- An attempt that is not refused leaves the first refusals as they are. -/
theorem stalledSince_unrefused (k : κ) (attempts : List (Attempt κ ε)) (key : κ)
    (outcome : Option (Outcome ε)) :
    stalledSince k (attempts ++ [⟨key, none, outcome⟩]) = stalledSince k attempts := by
  rw [stalledSince_concat, Attempt.refusedAt, Option.map_none, ite_self, Option.or_none]

/-- A refusal counts for its own entry, if that was never refused. -/
theorem stalledSince_refused (k : κ) (attempts : List (Attempt κ ε)) (key : κ) (first now : Nat)
    (outcome : Option (Outcome ε)) :
    stalledSince k (attempts ++ [⟨key, some (first, now), outcome⟩])
      = if key = k then some ((stalledSince k attempts).getD first)
        else stalledSince k attempts := by
  rw [stalledSince_concat, Attempt.refusedAt]
  split
  · exact Option.or_some
  · exact Option.or_none

/-- How an attempt ends leaves them too. -/
theorem stalledSince_outcome (k : κ) (attempts : List (Attempt κ ε)) (key : κ)
    (refusal : Option (Nat × Nat)) (outcome outcome' : Option (Outcome ε)) :
    stalledSince k (attempts ++ [⟨key, refusal, outcome⟩])
      = stalledSince k (attempts ++ [⟨key, refusal, outcome'⟩]) := by
  rw [stalledSince_concat, stalledSince_concat]
  rfl

/-- An entry that was never tried was never refused. -/
theorem stalledSince_eq_none {k : κ} {attempts : List (Attempt κ ε)}
    (h : k ∉ attempts.map Attempt.key) : stalledSince k attempts = none := by
  rw [stalledSince, List.findSome?_eq_none_iff]
  intro a ha
  rw [Attempt.refusedAt, if_neg]
  rintro rfl
  exact h (List.mem_map_of_mem ha)

namespace Attempt.Timely

variable {before : List (Attempt κ ε)}

/-- An attempt under way. -/
theorem underWay (key : κ) (refusal : Option (Nat × Nat)) :
    (⟨key, refusal, none⟩ : Attempt κ ε).Timely deadline stuck before where
  requeued outcome h := by cases h
  failed outcome h := by cases h

/-- An attempt that was not refused. -/
theorem of_unrefused (key : κ) {outcome : Outcome ε} (hrequeued : outcome ≠ .requeued)
    (hfailed : outcome ≠ .failed stuck) :
    (⟨key, none, some outcome⟩ : Attempt κ ε).Timely deadline stuck before where
  requeued outcome' h := by
    cases h
    refine iff_of_false hrequeued ?_
    rintro ⟨first, now, since, hrefusal, -⟩
    cases hrefusal
  failed outcome' h := by
    cases h
    refine iff_of_false hfailed ?_
    rintro ⟨first, now, since, hrefusal, -⟩
    cases hrefusal

/-- An attempt that was refused, at a known time after the first refusal. -/
theorem of_refused {a : Attempt κ ε} {first now since : Nat} {outcome : Outcome ε}
    (hrefusal : a.refusal = some (first, now)) (houtcome : a.outcome = some outcome)
    (hsince : stalledSince a.key (before ++ [a]) = some since)
    (h : outcome = .requeued ∧ now < since + deadline ∨
      outcome = .failed stuck ∧ since + deadline ≤ now) : a.Timely deadline stuck before where
  requeued outcome' houtcome' := by
    cases houtcome.symm.trans houtcome'
    -- An attempt has one outcome, and one reading of the clock.
    constructor
    · intro heq
      rcases h with ⟨-, hearly⟩ | ⟨hfailed, -⟩
      · exact ⟨first, now, since, hrefusal, hsince, hearly⟩
      · rw [hfailed] at heq
        cases heq
    · rintro ⟨first', now', since', hrefusal', hsince', hearly⟩
      cases hrefusal.symm.trans hrefusal'
      cases hsince.symm.trans hsince'
      rcases h with ⟨hrequeued, -⟩ | ⟨-, hlate⟩
      · exact hrequeued
      · omega
  failed outcome' houtcome' := by
    cases houtcome.symm.trans houtcome'
    constructor
    · intro heq
      rcases h with ⟨hrequeued, -⟩ | ⟨-, hlate⟩
      · rw [hrequeued] at heq
        cases heq
      · exact ⟨first, now, since, hrefusal, hsince, hlate⟩
    · rintro ⟨first', now', since', hrefusal', hsince', hlate⟩
      cases hrefusal.symm.trans hrefusal'
      cases hsince.symm.trans hsince'
      rcases h with ⟨-, hearly⟩ | ⟨hfailed, -⟩
      · omega
      · exact hfailed

end Attempt.Timely

/-! ### The passes -/

namespace Lawful

variable {passes closed : List (Pass κ ε)} {p p' : Pass κ ε}

/-- Nothing was seen yet. -/
theorem nil : Lawful deadline stuck ([] : List (Pass κ ε)) where
  fair p h := by cases h
  ended p h := by cases h
  stays := List.isChain_nil
  timely before a after h := by cases before <;> cases h

/-- A pass begins. -/
theorem begin (h : Lawful deadline stuck passes) {queued : List κ} (hnodup : queued.Nodup)
    (hended : ∀ p ∈ passes, p.ended ≠ none)
    (hstays : ∀ p ∈ passes.getLast?, ∀ full left, p.ended = some (full, left) → left <+: queued) :
    Lawful deadline stuck (passes ++ [⟨queued, [], none⟩]) where
  fair p hp := by
    -- The pass that begins has no attempt yet, so it is fair.
    rcases List.mem_append.mp hp with hold | hnew
    · exact h.fair p hold
    · rw [List.mem_singleton.mp hnew]
      refine ⟨hnodup, fun a ha => absurd ha List.not_mem_nil, queued, rfl, ?_⟩
      intro full left hended
      cases hended
  ended p hp := by
    rw [List.dropLast_concat] at hp
    exact hended p hp
  stays := by
    rw [List.isChain_append]
    refine ⟨h.stays, List.isChain_singleton _, fun p hp p' hp' => ?_⟩
    -- The one before it left its rest at the head of the queue.
    cases hp'
    exact hstays p hp
  timely := by
    rw [List.flatMap_append, List.flatMap_singleton, List.append_nil]
    exact h.timely

/-- The pass under way goes on: its last attempt is seen differently, or one more is. -/
theorem goOn (h : Lawful deadline stuck (closed ++ [p])) (hqueued : p'.queued = p.queued)
    (hfair : p'.Fair) {attempts : List (Attempt κ ε)} (hattempts : attempts <+: p.attempts)
    (latest : Option (Attempt κ ε)) (heq : p'.attempts = attempts ++ latest.toList)
    (htimely : ∀ a ∈ latest, a.Timely deadline stuck (closed.flatMap Pass.attempts ++ attempts)) :
    Lawful deadline stuck (closed ++ [p']) where
  fair q hq := by
    rcases List.mem_append.mp hq with hold | hnew
    · -- The pass replaces the last one; the others are as they were.
      exact h.fair q (List.mem_append_left _ hold)
    · rw [List.mem_singleton.mp hnew]
      exact hfair
  ended q hq := by
    have hended := h.ended q
    rw [List.dropLast_concat] at hq hended
    exact hended hq
  stays := by
    obtain ⟨hclosed, -, hlast⟩ := List.isChain_append.mp h.stays
    rw [List.isChain_append]
    refine ⟨hclosed, List.isChain_singleton _, fun q hq q' hq' full left hended => ?_⟩
    cases hq'
    rw [hqueued]
    exact hlast q hq p rfl full left hended
  timely := by
    have hold := h.timely
    rw [List.flatMap_append, List.flatMap_singleton] at hold ⊢
    have hkept := forall_prefix hold
      ((List.prefix_append_right_inj (closed.flatMap Pass.attempts)).mpr hattempts)
    rw [heq, ← List.append_assoc]
    -- What the pass keeps of its attempts was timely, and so is what it adds.
    cases latest with
    | none =>
      rw [Option.toList_none, List.append_nil]
      exact hkept
    | some a => exact forall_concat hkept (htimely a rfl)

end Lawful

end

/-! ### What a queue remembers -/

namespace Hand

variable {hand : Hand κ} {entries : List (κ × Option Nat)}

/-- What goes to the end of the queue after an attempt. -/
def back (hand : Hand κ) : Outcome ε → List (κ × Option Nat)
  | .requeued => [(hand.key, hand.since)]
  | _ => []

/-- Only a refusal puts the entry back. -/
theorem back_eq_nil {outcome : Outcome ε} (h : outcome ≠ .requeued) : hand.back outcome = [] := by
  cases outcome with
  | requeued => exact absurd rfl h
  | posted => rfl
  | failed error => rfl

/-- Only the entry in hand goes back. -/
theorem mem_back {outcome : Outcome ε} {e : κ × Option Nat}
    (he : e ∈ entries ++ hand.back outcome) : e ∈ (hand.key, hand.since) :: entries := by
  rcases List.mem_append.mp he with hold | hback
  · exact List.mem_cons_of_mem _ hold
  · cases outcome with
    | requeued =>
      rw [List.mem_singleton.mp hback]
      exact List.mem_cons_self
    | posted => cases hback
    | failed error => cases hback

/-- An entry that is put back is not there twice. -/
theorem nodup_back (outcome : Outcome ε)
    (h : (((hand.key, hand.since) :: entries).map Prod.fst).Nodup) :
    ((entries ++ hand.back outcome).map Prod.fst).Nodup := by
  by_cases hrequeued : outcome = .requeued
  · subst hrequeued
    have hperm := List.perm_append_singleton (hand.key, hand.since) entries
    exact (hperm.map Prod.fst).nodup_iff.mpr h
  · rw [back_eq_nil hrequeued, List.append_nil]
    exact (List.nodup_cons.mp h).2

/-- The entries that were put off, after one more attempt. -/
theorem requeued_concat (hand : Hand κ) (attempts : List (Attempt κ ε)) (outcome : Outcome ε) :
    ((attempts ++ [(⟨hand.key, hand.refusal, some outcome⟩ : Attempt κ ε)]).filter
        Attempt.isRequeued).map Attempt.key
      = (attempts.filter Attempt.isRequeued).map Attempt.key
        ++ (hand.back outcome).map Prod.fst := by
  rw [List.filter_append, List.map_append]
  cases outcome <;> rfl

end Hand

namespace State

/-- The entry in hand. -/
def hand (a : State κ) : Option (Hand κ) :=
  match a.stage with
  | .resting => none
  | .passing _ hand => hand

/-- The entries, with the one in hand. -/
def held (a : State κ) : List (κ × Option Nat) :=
  (a.hand.toList.map fun h => (h.key, h.since)) ++ a.entries

/-- The pass under way, with the attempt in hand. -/
def underWay (queued : List κ) (attempts : List (Attempt κ ε)) (hand : Option (Hand κ)) :
    Pass κ ε :=
  ⟨queued, attempts ++ hand.toList.map fun h => ⟨h.key, h.refusal, none⟩, none⟩

/-- How the passes seen so far end. -/
def Stands (a : State κ) (passes : List (Pass κ ε)) : Prop :=
  match a.stage with
  | .resting =>
    (∀ p ∈ passes, p.ended ≠ none) ∧
      ∀ p ∈ passes.getLast?, ∀ full left, p.ended = some (full, left) → left <+: a.keys
  | .passing n hand =>
    ∃ (closed : List (Pass κ ε)) (queued : List κ) (attempts : List (Attempt κ ε)) (rest : List κ),
      passes = closed ++ [underWay queued attempts hand] ∧ (∀ t ∈ attempts, t.outcome ≠ none) ∧
        queued = attempts.map Attempt.key ++ hand.toList.map Hand.key ++ rest ∧ rest.length = n ∧
        a.keys = rest ++ (attempts.filter Attempt.isRequeued).map Attempt.key

/-- The pass under way is fair so far. -/
theorem fair_underWay {queued rest : List κ} {attempts : List (Attempt κ ε)}
    {hand : Option (Hand κ)} (hnodup : queued.Nodup) (hdone : ∀ t ∈ attempts, t.outcome ≠ none)
    (hqueued : queued = attempts.map Attempt.key ++ hand.toList.map Hand.key ++ rest) :
    (underWay queued attempts hand).Fair where
  nodup := hnodup
  settled t ht := by
    cases hand with
    | none =>
      have hmem : t ∈ attempts.dropLast := by simpa [underWay] using ht
      exact hdone t (List.dropLast_subset attempts hmem)
    | some h =>
      have hmem : t ∈ attempts := by simpa [underWay] using ht
      exact hdone t hmem
  rest := by
    refine ⟨rest, ?_, ?_⟩
    · rw [hqueued]
      show _ = (attempts ++ hand.toList.map _).map Attempt.key ++ rest
      rw [List.map_append, List.map_map]
      rfl
    · intro full left hended
      cases hended

/-- What is seen up to the attempt in hand. -/
theorem events_underWay (closed : List (Pass κ ε)) (queued : List κ)
    (attempts : List (Attempt κ ε)) (hand : Option (Hand κ)) :
    (closed ++ [underWay queued attempts hand]).flatMap Pass.events
      = closed.flatMap Pass.events ++ .begun queued :: attempts.flatMap Attempt.events
        ++ hand.toList.flatMap fun h => (⟨h.key, h.refusal, none⟩ : Attempt κ ε).events := by
  rw [List.flatMap_append, List.flatMap_singleton, List.append_assoc]
  cases hand with
  | none => simp [underWay, Pass.events]
  | some h => simp [underWay, Pass.events]

/-- The attempts of the pass under way are those made and the one in hand. -/
theorem attempts_underWay (closed : List (Pass κ ε)) (queued : List κ)
    (attempts : List (Attempt κ ε)) (hand : Option (Hand κ)) :
    (closed ++ [underWay queued attempts hand]).flatMap Pass.attempts
      = closed.flatMap Pass.attempts ++ attempts
        ++ hand.toList.map fun h => ⟨h.key, h.refusal, none⟩ := by
  rw [List.flatMap_append, List.flatMap_singleton, List.append_assoc]
  rfl

end State

/-- The passes seen so far, beside the queue. -/
structure Tells [DecidableEq κ] (deadline : Nat) (stuck : ε) (a : State κ)
    (passes : List (Pass κ ε)) : Prop where
  lawful : Lawful deadline stuck passes
  since : ∀ e ∈ a.held, stalledSince e.1 (passes.flatMap Pass.attempts) = e.2
  nodup : (a.held.map Prod.fst).Nodup
  seen : ∀ e ∈ a.held, e.1 ∈ a.seen
  tried : ∀ t ∈ passes.flatMap Pass.attempts, t.key ∈ a.seen
  clock : ∀ e ∈ a.held, ∀ since ∈ e.2, since ≤ a.clock
  refusal : ∀ h ∈ a.hand, ∀ r ∈ h.refusal, r.2 = a.clock
  stands : a.Stands passes

namespace Tells

variable [DecidableEq κ] {deadline : Nat} {stuck : ε} {a a' : State κ} {passes : List (Pass κ ε)}

/-- At the start there is nothing to tell. -/
theorem start (clock : Nat) :
    Tells deadline stuck ⟨[], .resting, [], clock⟩ ([] : List (Pass κ ε)) where
  lawful := .nil
  since e h := by cases h
  nodup := List.nodup_nil
  seen e h := by cases h
  tried t h := by cases h
  clock e h := by cases h
  refusal h hh := by cases hh
  stands := by
    refine ⟨fun p hp => absurd hp List.not_mem_nil, fun p hp => ?_⟩
    cases hp

/-- A new entry joins the queue. -/
theorem arrive (h : Tells deadline stuck a passes) {k : κ} (hstage : a.stage = .resting)
    (hnew : k ∉ a.seen) :
    Tells deadline stuck { a with entries := a.entries ++ [(k, none)], seen := k :: a.seen }
      passes := by
  obtain ⟨entries, stage, seen, clock⟩ := a
  subst hstage
  have hsince := h.since
  have hseen := h.seen
  have hclock := h.clock
  obtain ⟨hended, hleft⟩ := h.stands
  have hcases : ∀ e ∈ entries ++ [(k, none)], e ∈ entries ∨ e = (k, none) := by
    intro e he
    rw [List.mem_append, List.mem_singleton] at he
    exact he
  refine ⟨h.lawful, fun e he => ?_, ?_, fun e he => ?_, ?_, fun e he since hsome => ?_, h.refusal,
    hended, fun p hp full left hend => ?_⟩
  · rcases hcases e he with hold | rfl
    · exact hsince e hold
    · -- A new key was never tried, so it has no stall.
      refine stalledSince_eq_none fun htried => ?_
      obtain ⟨t, ht, hkey⟩ := List.mem_map.mp htried
      have hmem := h.tried t ht
      rw [hkey] at hmem
      exact hnew hmem
  · show ((entries ++ [(k, none)]).map Prod.fst).Nodup
    rw [List.map_append, List.nodup_append]
    -- A new key is in no entry.
    refine ⟨h.nodup, List.nodup_singleton k, fun j hj k' hk' => ?_⟩
    obtain ⟨e, he, rfl⟩ := List.mem_map.mp hj
    rw [List.mem_singleton.mp hk']
    intro heq
    have hmem := hseen e he
    rw [heq] at hmem
    exact hnew hmem
  · rcases hcases e he with hold | rfl
    · exact List.mem_cons_of_mem k (hseen e hold)
    · exact List.mem_cons_self
  · intro t ht
    exact List.mem_cons_of_mem k (h.tried t ht)
  · rcases hcases e he with hold | rfl
    · -- It was not refused either.
      exact hclock e hold since hsome
    · cases hsome
  · -- What the last pass left stays in front: the key comes last.
    refine (hleft p hp full left hend).trans ?_
    show entries.map Prod.fst <+: (entries ++ [(k, none)]).map Prod.fst
    rw [List.map_append]
    exact List.prefix_append _ _

/-- A pass begins. -/
theorem begin (h : Tells deadline stuck a passes) (hstage : a.stage = .resting) :
    ∃ passes', passes.flatMap Pass.events ++ [.begun a.keys] = passes'.flatMap Pass.events ∧
      Tells deadline stuck { a with stage := .passing a.entries.length none } passes' := by
  obtain ⟨entries, stage, seen, clock⟩ := a
  subst hstage
  obtain ⟨hended, hleft⟩ := h.stands
  have hattempts :
      (passes ++ [(⟨entries.map Prod.fst, [], none⟩ : Pass κ ε)]).flatMap Pass.attempts
        = passes.flatMap Pass.attempts := by
    rw [List.flatMap_append, List.flatMap_singleton, List.append_nil]
  refine ⟨passes ++ [⟨entries.map Prod.fst, [], none⟩], ?_, ?_⟩
  · rw [List.flatMap_append, List.flatMap_singleton]
    rfl
  · refine ⟨h.lawful.begin h.nodup hended hleft, ?_, h.nodup, h.seen, ?_, h.clock, h.refusal, ?_⟩
    · -- No attempt is added, so no entry's stall moves.
      rw [hattempts]
      exact h.since
    · rw [hattempts]
      exact h.tried
    · -- The pass stands at its beginning: nothing tried, everything left.
      refine ⟨passes, entries.map Prod.fst, [], entries.map Prod.fst, rfl, ?_, rfl, ?_, ?_⟩
      · intro t ht
        cases ht
      · exact List.length_map _
      · exact (List.append_nil _).symm

/-- The head of the queue is taken. -/
theorem take (h : Tells deadline stuck a passes) {k : κ} {since : Option Nat}
    {entries : List (κ × Option Nat)} {n : Nat} (hstage : a.stage = .passing (n + 1) none)
    (hentries : a.entries = (k, since) :: entries) :
    ∃ passes', passes.flatMap Pass.events ++ [.taken k] = passes'.flatMap Pass.events ∧
      Tells deadline stuck
        { a with entries := entries, stage := .passing n (some ⟨k, since, none⟩) } passes' := by
  obtain ⟨entries', stage, seen, clock⟩ := a
  subst hstage
  subst hentries
  obtain ⟨closed, queued, attempts, rest, rfl, hdone, hqueued, hlength, hkeys⟩ := h.stands
  -- The head of the queue is the first of the entries that were not tried.
  obtain ⟨j, rest, rfl⟩ := List.exists_cons_of_length_eq_add_one hlength
  obtain ⟨rfl, htail⟩ := List.cons_eq_cons.mp hkeys
  have hnodup : queued.Nodup := (h.lawful.fair _ List.mem_concat_self).nodup
  refine ⟨closed ++ [State.underWay queued attempts (some ⟨k, since, none⟩)], ?_, ?_⟩
  · rw [State.events_underWay, State.events_underWay]
    simp [Attempt.events]
  · have hsince := h.since
    have htried := h.tried
    rw [State.attempts_underWay, Option.toList_none, List.map_nil, List.append_nil]
      at hsince htried
    have hqueued' : queued = attempts.map Attempt.key ++ [k] ++ rest := by
      rw [hqueued, List.append_assoc, List.append_assoc]
      rfl
    refine ⟨h.lawful.goOn rfl (State.fair_underWay hnodup hdone hqueued') (List.prefix_refl _)
      (some ⟨k, none, none⟩) ?_ ?_, fun e he => ?_, h.nodup, h.seen, fun t ht => ?_, h.clock, ?_,
      closed, queued, attempts, rest, rfl, hdone, hqueued', Nat.succ.inj hlength, htail⟩
    · show _ = (attempts ++ []) ++ [_]
      rw [List.append_nil]
      rfl
    · intro t ht
      cases ht
      exact .underWay k none
    · rw [State.attempts_underWay]
      show stalledSince e.1 (_ ++ [_]) = e.2
      rw [stalledSince_unrefused, hsince e he]
    · rw [State.attempts_underWay] at ht
      rcases List.mem_append.mp ht with hold | hnew
      · exact htried t hold
      · rw [List.mem_singleton.mp hnew]
        exact h.seen (k, since) List.mem_cons_self
    · intro hand hhand r hr
      cases hhand
      cases hr

/-- The attempt in hand is refused. -/
theorem refuse (h : Tells deadline stuck a passes) {k : κ} {since : Option Nat}
    {n first now : Nat} (hstage : a.stage = .passing n (some ⟨k, since, none⟩))
    (hfirst : a.clock ≤ first) (hnow : first ≤ now) :
    ∃ passes', passes.flatMap Pass.events ++ [.refused k first now] = passes'.flatMap Pass.events ∧
      Tells deadline stuck
        { a with
          stage := .passing n (some ⟨k, some (since.getD first), some (first, now)⟩)
          clock := now } passes' := by
  obtain ⟨entries, stage, seen, clock⟩ := a
  subst hstage
  obtain ⟨closed, queued, attempts, rest, rfl, hdone, hqueued, hlength, hkeys⟩ := h.stands
  have hnodup : queued.Nodup := (h.lawful.fair _ List.mem_concat_self).nodup
  have hsince := h.since
  have htried := h.tried
  have hclock := h.clock
  rw [State.attempts_underWay] at hsince htried
  have hold : ∀ e ∈ (k, since) :: entries,
      stalledSince e.1 (closed.flatMap Pass.attempts ++ attempts) = e.2 := by
    intro e he
    rw [← hsince e he]
    exact (stalledSince_unrefused e.1 _ k none).symm
  refine ⟨closed ++ [State.underWay queued attempts
    (some ⟨k, some (since.getD first), some (first, now)⟩)], ?_, ?_⟩
  · rw [State.events_underWay, State.events_underWay]
    simp [Attempt.events]
  · refine ⟨h.lawful.goOn rfl (State.fair_underWay hnodup hdone hqueued) (List.prefix_append _ _)
      (some ⟨k, some (first, now), none⟩) rfl ?_, ?_, h.nodup, ?_, fun t ht => ?_, ?_, ?_,
      closed, queued, attempts, rest, rfl, hdone, hqueued, hlength, hkeys⟩
    · intro t ht
      cases ht
      exact .underWay k _
    · rw [State.attempts_underWay]
      show ∀ e ∈ (k, some (since.getD first)) :: entries,
        stalledSince e.1 (_ ++ [⟨k, some (first, now), none⟩]) = e.2
      intro e he
      rw [stalledSince_refused]
      rcases List.mem_cons.mp he with rfl | he
      · rw [if_pos rfl, hold (k, since) List.mem_cons_self]
      · rw [if_neg, hold e (List.mem_cons_of_mem _ he)]
        -- No other entry has this key.
        intro heq
        exact (List.nodup_cons.mp h.nodup).1 (List.mem_map.mpr ⟨e, he, heq.symm⟩)
    · intro e he
      rcases List.mem_cons.mp he with rfl | he
      · exact h.seen (k, since) List.mem_cons_self
      · exact h.seen e (List.mem_cons_of_mem _ he)
    · rw [State.attempts_underWay] at ht
      rcases List.mem_append.mp ht with hbefore | hlatest
      · exact htried t (List.mem_append_left _ hbefore)
      · rw [List.mem_singleton.mp hlatest]
        exact h.seen (k, since) List.mem_cons_self
    · -- The clock only goes on.
      show ∀ e ∈ (k, some (since.getD first)) :: entries, ∀ t ∈ e.2, t ≤ now
      intro e he t ht
      rcases List.mem_cons.mp he with rfl | he
      · cases ht
        cases hsome : since with
        | none => exact hnow
        | some t =>
          have hle : t ≤ clock := hclock (k, since) List.mem_cons_self t hsome
          exact hle.trans (hfirst.trans hnow)
      · have hle : t ≤ clock := hclock e (List.mem_cons_of_mem _ he) t ht
        exact hle.trans (hfirst.trans hnow)
    · intro hand hhand r hr
      cases hhand
      cases hr
      rfl

/-- The attempt in hand ends. -/
theorem settle (h : Tells deadline stuck a passes) {hand : Hand κ} {n : Nat}
    (hstage : a.stage = .passing n (some hand)) (outcome : Outcome ε)
    (htimely : ∀ before : List (Attempt κ ε),
      stalledSince hand.key (before ++ [⟨hand.key, hand.refusal, some outcome⟩]) = hand.since →
      (∀ r ∈ hand.refusal, ∀ since ∈ hand.since, since ≤ r.2) →
      (⟨hand.key, hand.refusal, some outcome⟩ : Attempt κ ε).Timely deadline stuck before) :
    ∃ passes', passes.flatMap Pass.events ++ [outcome.event hand.key]
        = passes'.flatMap Pass.events ∧
      Tells deadline stuck
        { a with entries := a.entries ++ hand.back outcome, stage := .passing n none } passes' := by
  obtain ⟨entries, stage, seen, clock⟩ := a
  subst hstage
  obtain ⟨closed, queued, attempts, rest, rfl, hdone, hqueued, hlength, hkeys⟩ := h.stands
  have hnodup : queued.Nodup := (h.lawful.fair _ List.mem_concat_self).nodup
  have hsince := h.since
  have htried := h.tried
  have hclock := h.clock
  rw [State.attempts_underWay] at hsince htried
  have hdone' : ∀ t ∈ attempts ++ [⟨hand.key, hand.refusal, some outcome⟩], t.outcome ≠ none := by
    intro t ht
    rcases List.mem_append.mp ht with hold | hnew
    · exact hdone t hold
    · rw [List.mem_singleton.mp hnew]
      exact Option.some_ne_none outcome
  have hqueued' : queued = (attempts ++
      [(⟨hand.key, hand.refusal, some outcome⟩ : Attempt κ ε)]).map Attempt.key ++ [] ++ rest := by
    rw [hqueued, List.map_append, List.append_nil]
    rfl
  have hattempts : (closed ++ [State.underWay queued (attempts ++
      [(⟨hand.key, hand.refusal, some outcome⟩ : Attempt κ ε)]) none]).flatMap Pass.attempts
        = closed.flatMap Pass.attempts ++ attempts
          ++ [⟨hand.key, hand.refusal, some outcome⟩] := by
    rw [State.attempts_underWay, Option.toList_none, List.map_nil, List.append_nil,
      List.append_assoc]
  refine ⟨closed ++ [State.underWay queued
    (attempts ++ [⟨hand.key, hand.refusal, some outcome⟩]) none], ?_, ?_⟩
  · rw [State.events_underWay, State.events_underWay]
    simp [Attempt.events]
  · refine ⟨h.lawful.goOn rfl (State.fair_underWay hnodup hdone' hqueued')
      (List.prefix_append _ _) (some ⟨hand.key, hand.refusal, some outcome⟩) ?_ ?_, fun e he => ?_,
      Hand.nodup_back outcome h.nodup, fun e he => h.seen e (Hand.mem_back he), fun t ht => ?_,
      fun e he => hclock e (Hand.mem_back he), ?_,
      closed, queued, _, rest, rfl, hdone', hqueued', hlength, ?_⟩
    · show (attempts ++ [_]) ++ [] = _
      exact List.append_nil _
    · intro t ht
      cases ht
      -- The entry still knows its first refusal, which was before the last reading.
      refine htimely _ ?_ ?_
      · rw [stalledSince_outcome _ _ _ _ _ none]
        exact hsince (hand.key, hand.since) List.mem_cons_self
      · intro r hr since hsome
        rw [h.refusal hand rfl r hr]
        exact hclock (hand.key, hand.since) List.mem_cons_self since hsome
    · rw [hattempts, stalledSince_outcome _ _ _ _ _ none]
      exact hsince e (Hand.mem_back he)
    · rw [hattempts] at ht
      rcases List.mem_append.mp ht with hold | hnew
      · exact htried t (List.mem_append_left _ hold)
      · rw [List.mem_singleton.mp hnew]
        exact h.seen (hand.key, hand.since) List.mem_cons_self
    · intro hand' hhand
      cases hhand
    · show (entries ++ hand.back outcome).map Prod.fst = _
      rw [List.map_append, Hand.requeued_concat, ← List.append_assoc]
      exact congrArg (· ++ (hand.back outcome).map Prod.fst) hkeys

/-- The attempt in hand ends, and its entry does not come back. -/
theorem drop (h : Tells deadline stuck a passes) {hand : Hand κ} {n : Nat}
    (hstage : a.stage = .passing n (some hand)) {outcome : Outcome ε}
    (hnot : outcome ≠ .requeued)
    (htimely : ∀ before : List (Attempt κ ε),
      stalledSince hand.key (before ++ [⟨hand.key, hand.refusal, some outcome⟩]) = hand.since →
      (∀ r ∈ hand.refusal, ∀ since ∈ hand.since, since ≤ r.2) →
      (⟨hand.key, hand.refusal, some outcome⟩ : Attempt κ ε).Timely deadline stuck before) :
    ∃ passes', passes.flatMap Pass.events ++ [outcome.event hand.key]
        = passes'.flatMap Pass.events ∧
      Tells deadline stuck { a with stage := .passing n none } passes' := by
  have hsettled := h.settle hstage outcome htimely
  rw [Hand.back_eq_nil hnot, List.append_nil] at hsettled
  exact hsettled

/-- The pass ends. -/
theorem finish (h : Tells deadline stuck a passes) {n : Nat} {full : Bool}
    (hstage : a.stage = .passing n none) (hfull : n = 0 ∨ full = true) :
    ∃ passes', passes.flatMap Pass.events ++ [.ended full a.keys] = passes'.flatMap Pass.events ∧
      Tells deadline stuck { a with stage := .resting } passes' := by
  obtain ⟨entries, stage, seen, clock⟩ := a
  subst hstage
  obtain ⟨closed, queued, attempts, rest, rfl, hdone, hqueued, hlength, hkeys⟩ := h.stands
  have hfair := h.lawful.fair _ List.mem_concat_self
  have hattempts : ∀ ended, (closed ++ [(⟨queued, attempts, ended⟩ : Pass κ ε)]).flatMap
      Pass.attempts = (closed ++ [State.underWay queued attempts none]).flatMap Pass.attempts := by
    intro ended
    rw [State.attempts_underWay, List.flatMap_append, List.flatMap_singleton]
    exact (List.append_nil _).symm
  refine ⟨closed ++ [⟨queued, attempts, some (full, entries.map Prod.fst)⟩], ?_, ?_⟩
  · rw [State.events_underWay, List.flatMap_append, List.flatMap_singleton]
    simp [Pass.events, State.keys]
  · refine ⟨h.lawful.goOn rfl ?_ (List.prefix_refl _) none ?_ ?_, ?_, h.nodup, h.seen, ?_,
      h.clock, ?_, ?_, ?_⟩
    · refine ⟨hfair.nodup, fun t ht => hdone t (List.dropLast_subset attempts ht), rest, ?_, ?_⟩
      · rw [hqueued]
        simp
      · intro full' left hended
        cases hended
        refine ⟨hdone, ?_, hkeys⟩
        -- With no attempts left, nothing of the old queue is left either.
        rcases hfull with rfl | rfl
        · exact .inl (List.length_eq_zero_iff.mp hlength)
        · exact .inr rfl
    · simp [State.underWay]
    · intro t ht
      cases ht
    · rw [hattempts]
      exact h.since
    · rw [hattempts]
      exact h.tried
    · intro hand hhand
      cases hhand
    · intro p hp
      rcases List.mem_append.mp hp with hold | hnew
      · refine h.lawful.ended p ?_
        rw [List.dropLast_concat]
        exact hold
      · rw [List.mem_singleton.mp hnew]
        exact Option.some_ne_none _
    · intro p hp full' left hended
      rw [List.getLast?_concat] at hp
      cases hp
      cases hended
      exact List.prefix_refl _

end Tells

/-- What is seen of a queue are fair passes with timely attempts. -/
theorem Run.lawful [DecidableEq κ] {deadline : Nat} {stuck : ε} {log : List (Event κ ε)}
    {a : State κ} (h : Run deadline stuck log a) :
    ∃ passes, log = passes.flatMap Pass.events ∧ Tells deadline stuck a passes := by
  -- One case for each rule, with its lemma.
  induction h with
  | start clock => exact ⟨[], rfl, .start clock⟩
  | arrive k h hstage hnew ih =>
    obtain ⟨passes, hlog, htells⟩ := ih
    exact ⟨passes, hlog, htells.arrive hstage hnew⟩
  | begin h hstage ih =>
    obtain ⟨passes, rfl, htells⟩ := ih
    exact htells.begin hstage
  | take h hstage hentries ih =>
    obtain ⟨passes, rfl, htells⟩ := ih
    exact htells.take hstage hentries
  | refuse h hstage hfirst hnow ih =>
    obtain ⟨passes, rfl, htells⟩ := ih
    exact htells.refuse hstage hfirst hnow
  | post h hstage ih =>
    obtain ⟨passes, rfl, htells⟩ := ih
    -- A post is neither put off nor given up, so the deadline says nothing about it.
    have hrequeued : (.posted : Outcome ε) ≠ .requeued := by
      intro heq
      cases heq
    have hfailed : Outcome.posted ≠ .failed stuck := by
      intro heq
      cases heq
    exact htells.drop hstage hrequeued fun before _ _ => .of_unrefused _ hrequeued hfailed
  | @requeue log a k since n first now h hstage hearly ih =>
    obtain ⟨passes, rfl, htells⟩ := ih
    refine htells.settle hstage .requeued fun before hsince hclock => ?_
    -- The clock goes on from the refusal that is remembered.
    have hle : since ≤ now := hclock (first, now) rfl since rfl
    exact .of_refused rfl rfl hsince (.inl ⟨rfl, by omega⟩)
  | @giveUp log a k since n first now h hstage hlate ih =>
    obtain ⟨passes, rfl, htells⟩ := ih
    have hrequeued : Outcome.failed stuck ≠ .requeued := by
      intro heq
      cases heq
    refine htells.drop hstage hrequeued fun before hsince hclock => ?_
    have hle : since ≤ now := hclock (first, now) rfl since rfl
    exact .of_refused rfl rfl hsince (.inr ⟨rfl, by omega⟩)
  | @fail log a k since n error h hstage herror ih =>
    obtain ⟨passes, rfl, htells⟩ := ih
    have hrequeued : Outcome.failed error ≠ .requeued := by
      intro heq
      cases heq
    -- An error of its own is not the deadline's.
    have hfailed : Outcome.failed error ≠ .failed stuck := by
      intro heq
      cases heq
      exact herror rfl
    exact htells.drop hstage hrequeued fun before _ _ => .of_unrefused _ hrequeued hfailed
  | finish h hstage hfull ih =>
    obtain ⟨passes, rfl, htells⟩ := ih
    exact htells.finish hstage hfull

/-- A pass may take no more entries than there are. -/
theorem Run.attempts_le [DecidableEq κ] {deadline : Nat} {stuck : ε} {log : List (Event κ ε)}
    {a : State κ} (h : Run deadline stuck log a) {n : Nat} {hand : Option (Hand κ)}
    (hstage : a.stage = .passing n hand) : n ≤ a.entries.length := by
  obtain ⟨passes, -, htells⟩ := h.lawful
  have hstands := htells.stands
  rw [State.Stands, hstage] at hstands
  obtain ⟨closed, queued, attempts, rest, -, -, -, hlength, hkeys⟩ := hstands
  have hentries := congrArg List.length hkeys
  rw [State.keys, List.length_map, List.length_append, hlength] at hentries
  omega

end Vdma.Lib.Retry
