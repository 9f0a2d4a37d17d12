import Mathlib.Order.Interval.Set.Defs
import Mathlib.Order.WellFounded
import Mathlib.Tactic.ByContra
import Vdma.Lib.Machine

/-!
# `Vdma.Lib.Fairness`: what a fair execution comes to

An infinite execution of a machine, with idle steps, and weak fairness of a label: a label that
stays enabled is taken. `Execution.eventually` is the rule for one label: a property that enables
the label, and that only the way to the goal ends, leads to the goal.

A party has many labels, and which of them is enabled changes with the state. `FairTo` is weak
fairness of a group: while the group can move, it does. Its rule is `Execution.runs_out`: a group
whose moves go down a well-founded rank that nobody else raises comes to a state in which it cannot
move. `run_count_le` is its finite form, `constant_from` finds the time from which a rank that
nobody raises stays as it is. A part of a machine is followed through an execution of the whole by
`exists_projection`.
-/

set_option autoImplicit false

namespace Vdma.Lib.Machine

universe u v

variable {σ : Type u} {ε : Type v}

/-- The step of a label can be taken. -/
def Enabled (M : Machine σ ε) (s : σ) (e : ε) : Prop := (M.step s e).isSome = true

/-- An infinite execution. `none` is an idle step. -/
structure Execution (M : Machine σ ε) where
  state : Nat → σ
  label : Nat → Option ε
  starts : M.init (state 0)
  idles : ∀ n, label n = none → state (n + 1) = state n
  steps : ∀ n e, label n = some e → M.step (state n) e = some (state (n + 1))

namespace Execution

variable {M : Machine σ ε}

/-- A label that stays enabled from some time on is taken after it. -/
def WeaklyFair (x : M.Execution) (e : ε) : Prop :=
  ∀ n, (∀ m, n ≤ m → M.Enabled (x.state m) e) → ∃ m, n ≤ m ∧ x.label m = some e

/-- Every state of an execution is reachable. -/
theorem reachable (x : M.Execution) (n : Nat) : M.Reachable (x.state n) := by
  induction n with
  | zero => exact .init x.starts
  | succ n ih =>
    cases hlabel : x.label n with
    | none =>
      rw [x.idles n hlabel]
      exact ih
    | some e => exact ih.step trivial (x.steps n e hlabel)

/-- What enables a fair label, and is only left for the goal, leads to the goal. -/
theorem eventually (x : M.Execution) {P Q : σ → Prop} {e : ε} (hfair : x.WeaklyFair e)
    (henabled : ∀ s, M.Reachable s → P s → M.Enabled s e)
    (hkeeps : ∀ s e' s', M.Reachable s → P s → M.step s e' = some s' → P s' ∨ Q s')
    (htakes : ∀ s s', M.Reachable s → P s → M.step s e = some s' → Q s') {n : Nat}
    (h : P (x.state n)) : ∃ m, n ≤ m ∧ Q (x.state m) := by
  by_contra hnever
  -- Without the goal the property stays, and so does the label.
  have hstays : ∀ k, P (x.state (n + k)) := by
    intro k
    induction k with
    | zero => exact h
    | succ k ih =>
      cases hlabel : x.label (n + k) with
      | none =>
        rw [← Nat.add_assoc, x.idles (n + k) hlabel]
        exact ih
      | some e' =>
        rcases hkeeps _ e' _ (x.reachable (n + k)) ih (x.steps (n + k) e' hlabel) with hP | hQ
        · exact hP
        · exact absurd ⟨n + k + 1, by omega, hQ⟩ hnever
  have hP : ∀ m, n ≤ m → P (x.state m) := by
    intro m hm
    rw [show m = n + (m - n) by omega]
    exact hstays (m - n)
  obtain ⟨m, hm, hlabel⟩ := hfair n fun m hm => henabled _ (x.reachable m) (hP m hm)
  exact hnever ⟨m + 1, by omega, htakes _ _ (x.reachable m) (hP m hm) (x.steps m e hlabel)⟩

end Execution

/-! ### Groups of labels -/

/-- Some label of a group can be taken. -/
def CanMove (M : Machine σ ε) (group : ε → Prop) (s : σ) : Prop := ∃ e, group e ∧ M.Enabled s e

/-- A label is taken, or nothing happens. -/
def Stutters (M : Machine σ ε) (s : σ) : Option ε → σ → Prop
  | none, s' => s' = s
  | some e, s' => M.step s e = some s'

/-- What no later value exceeds is constant from some time on. -/
theorem constant_from {α : Type u} [PartialOrder α] [WellFoundedLT α] {f : Nat → α} {n : Nat}
    (h : ∀ m, n ≤ m → f (m + 1) ≤ f m) : ∃ N, n ≤ N ∧ ∀ m, N ≤ m → f m = f N := by
  have hdown : ∀ k m, n ≤ m → f (m + k) ≤ f m := by
    intro k
    induction k with
    | zero => exact fun m _ => le_refl _
    | succ k ih => exact fun m hm => (h (m + k) (by omega)).trans (ih m hm)
  -- The least value is taken somewhere, and nothing below it comes later.
  obtain ⟨_, ⟨N, hN, rfl⟩, hleast⟩ :=
    wellFounded_lt.has_min (f '' Set.Ici n) ⟨f n, n, le_refl n, rfl⟩
  refine ⟨N, hN, fun m hm => ?_⟩
  have hle := hdown (m - N) N hN
  rw [show N + (m - N) = m by omega] at hle
  by_contra hne
  exact hleast (f m) ⟨m, le_trans hN hm, rfl⟩ (lt_of_le_of_ne hle hne)

namespace Execution

variable {M : Machine σ ε} {group : ε → Prop}

/-- A group that can go on moving does. -/
def FairTo (x : M.Execution) (group : ε → Prop) : Prop :=
  ∀ n, (∀ m, n ≤ m → M.CanMove group (x.state m)) →
    ∃ m e, n ≤ m ∧ group e ∧ x.label m = some e

/-- The state after a step, whoever takes it. -/
theorem next {P : σ → Prop} (x : M.Execution) {n : Nat} (h : P (x.state n))
    (hsteps : ∀ e, x.label n = some e → P (x.state (n + 1))) : P (x.state (n + 1)) := by
  cases hlabel : x.label n with
  | none =>
    rw [x.idles n hlabel]
    exact h
  | some e => exact hsteps e hlabel

/-- What every step from some time on keeps holds from then on. -/
theorem stays {P : σ → Prop} (x : M.Execution) {n : Nat} (h : P (x.state n))
    (hsteps : ∀ m e, n ≤ m → x.label m = some e → P (x.state m) → P (x.state (m + 1))) {m : Nat}
    (hm : n ≤ m) : P (x.state m) := by
  induction m, hm using Nat.le_induction with
  | base => exact h
  | succ m hm ih => exact x.next ih fun e hlabel => hsteps m e hm hlabel ih

/-- A group that goes down a rank at each of its moves, while nobody else raises it, comes to a
state in which it cannot move. -/
theorem runs_out {α : Type u} [Preorder α] [WellFoundedLT α] (x : M.Execution)
    (hfair : x.FairTo group) (rank : σ → α) {n : Nat}
    (hothers : ∀ m e, n ≤ m → ¬group e → x.label m = some e →
      rank (x.state (m + 1)) ≤ rank (x.state m))
    (hgroup : ∀ m e, n ≤ m → group e → x.label m = some e →
      rank (x.state (m + 1)) < rank (x.state m)) :
    ∃ m, n ≤ m ∧ ¬M.CanMove group (x.state m) := by
  -- By induction on the rank at the time the group is watched from.
  suffices h : ∀ r k, n ≤ k → rank (x.state k) ≤ r → ∃ m, k ≤ m ∧ ¬M.CanMove group (x.state m) from
    h _ n (Nat.le_refl n) (le_refl _)
  intro r
  induction r using WellFoundedLT.induction with
  | ind r ih =>
    intro k hk hrank
    by_contra hnever
    have hmoves : ∀ m, k ≤ m → M.CanMove group (x.state m) := by
      intro m hm
      by_contra hstuck
      exact hnever ⟨m, hm, hstuck⟩
    obtain ⟨m, e, hm, he, hlabel⟩ := hfair k hmoves
    have hstill : rank (x.state m) ≤ rank (x.state k) := by
      refine x.stays (P := fun s => rank s ≤ rank (x.state k)) (le_refl _) ?_ hm
      intro m e hm hlabel hle
      by_cases he : group e
      · exact (hgroup m e (by omega) he hlabel).le.trans hle
      · exact (hothers m e (by omega) he hlabel).trans hle
    have hless : rank (x.state (m + 1)) < r :=
      ((hgroup m e (by omega) he hlabel).trans_le hstill).trans_le hrank
    obtain ⟨l, hl, hstuck⟩ := ih _ hless (m + 1) (by omega) (le_refl _)
    exact hnever ⟨l, by omega, hstuck⟩

/-! ### Finite runs -/

/-- The state after the first `n` labels, or the last one before a label that is not enabled. -/
def after (M : Machine σ ε) : σ → List ε → Nat → σ
  | s, _, 0 => s
  | s, [], _ + 1 => s
  | s, e :: es, n + 1 =>
    match M.step s e with
    | none => s
    | some s' => after M s' es n

/-- A run of nothing stays where it is. -/
theorem after_nil (s : σ) (n : Nat) : after M s [] n = s := by cases n <;> rfl

/-- A run takes its labels one by one. -/
theorem step_after {s t : σ} {es : List ε} (hrun : M.run s es = some t) {n : Nat} {e : ε}
    (h : es[n]? = some e) : M.step (after M s es n) e = some (after M s es (n + 1)) := by
  induction n generalizing s es with
  | zero =>
    cases es with
    | nil => cases h
    | cons e' es =>
      cases h
      simp only [Machine.run] at hrun
      simp only [after]
      split at hrun
      · cases hrun
      · next s' hs' => simp only [hs']
  | succ n ih =>
    cases es with
    | nil => cases h
    | cons e' es =>
      simp only [Machine.run] at hrun
      split at hrun
      · cases hrun
      · next s' hs' =>
        simp only [after, hs']
        exact ih hrun h

/-- A run stays where it ends. -/
theorem after_end {s t : σ} {es : List ε} (hrun : M.run s es = some t) {n : Nat}
    (hn : es.length ≤ n) : after M s es n = t := by
  induction es generalizing s n with
  | nil =>
    cases hrun
    exact after_nil _ n
  | cons e es ih =>
    cases n with
    | zero => cases hn
    | succ n =>
      simp only [Machine.run] at hrun
      split at hrun
      · cases hrun
      · next s' hs' =>
        simp only [after, hs']
        exact ih hrun (Nat.le_of_succ_le_succ hn)

/-- The state in the middle of a run. -/
theorem after_append {s t : σ} {es : List ε} (hrun : M.run s es = some t) (es' : List ε) :
    after M s (es ++ es') es.length = t := by
  induction es generalizing s with
  | nil =>
    cases hrun
    cases es' <;> rfl
  | cons e es ih =>
    simp only [Machine.run] at hrun
    split at hrun
    · cases hrun
    · next s' hs' =>
      simp only [List.cons_append, List.length_cons, after, hs']
      exact ih hrun

/-- A run, and nothing after it. -/
def ofRun {s t : σ} {es : List ε} (hinit : M.init s) (hrun : M.run s es = some t) :
    M.Execution where
  state := after M s es
  label n := es[n]?
  starts := by
    cases es <;> exact hinit
  idles n h := by
    have hn := List.getElem?_eq_none_iff.mp h
    rw [after_end hrun hn, after_end hrun (by omega)]
  steps n e h := step_after hrun h

/-- A run is fair to a group that cannot move at its end. -/
theorem fairTo_ofRun {s t : σ} {es : List ε} (hinit : M.init s) (hrun : M.run s es = some t)
    (hstuck : ¬M.CanMove group t) : (ofRun hinit hrun).FairTo group := by
  intro n hmoves
  have hlast := hmoves (max n es.length) (by omega)
  have hend : (ofRun hinit hrun).state (max n es.length) = t := after_end hrun (by omega)
  rw [hend] at hlast
  exact absurd hlast hstuck

/-! ### Parts -/

/-- What a part of a machine does in an execution of the whole is an execution of the part, if
each step of the whole is one of the part, or none. -/
theorem exists_projection {τ : Type u} {δ : Type v} {N : Machine τ δ} (x : M.Execution)
    (view : σ → τ) (seen : σ → ε → Option δ → Prop) (hinit : N.init (view (x.state 0)))
    (hsteps : ∀ n e, x.label n = some e →
      ∃ d, seen (x.state n) e d ∧ Stutters N (view (x.state n)) d (view (x.state (n + 1)))) :
    ∃ y : N.Execution, (∀ n, y.state n = view (x.state n)) ∧
      (∀ n, x.label n = none → y.label n = none) ∧
      ∀ n e, x.label n = some e → seen (x.state n) e (y.label n) := by
  have hlabels : ∀ n, ∃ d, Stutters N (view (x.state n)) d (view (x.state (n + 1))) ∧
      (x.label n = none → d = none) ∧ ∀ e, x.label n = some e → seen (x.state n) e d := by
    intro n
    cases hlabel : x.label n with
    | none => exact ⟨none, congrArg view (x.idles n hlabel), fun _ => rfl, by simp⟩
    | some e =>
      obtain ⟨d, hseen, hstep⟩ := hsteps n e hlabel
      refine ⟨d, hstep, by simp, fun e' he' => ?_⟩
      cases he'
      exact hseen
  choose label hstutters hidle hseen using hlabels
  refine ⟨⟨fun n => view (x.state n), label, hinit, ?_, ?_⟩, fun _ => rfl, hidle, hseen⟩
  · intro n hnone
    have hstep := hstutters n
    rw [hnone] at hstep
    exact hstep
  · intro n d hsome
    have hstep := hstutters n
    rw [hsome] at hstep
    exact hstep

end Execution

/-- A group makes no more moves in a run than its rank, if it goes down at each of them and nobody
else raises it. -/
theorem run_count_le {M : Machine σ ε} (group : ε → Prop) [DecidablePred group] {ok : σ → ε → Prop}
    (rank : σ → Nat) {s s' : σ} {es : List ε} (hreach : M.Reachable s) (hok : M.Obeys ok s es)
    (hrun : M.run s es = some s')
    (hothers : ∀ s e s', M.Reachable s → ok s e → ¬group e → M.step s e = some s' →
      rank s' ≤ rank s)
    (hgroup : ∀ s e s', M.Reachable s → ok s e → group e → M.step s e = some s' →
      rank s' < rank s) :
    (es.filter group).length + rank s' ≤ rank s := by
  induction es generalizing s with
  | nil =>
    cases hrun
    simp
  | cons e es ih =>
    obtain ⟨hhead, htail⟩ := hok
    simp only [Machine.run] at hrun
    split at hrun
    · cases hrun
    · next t ht =>
      rw [ht] at htail
      have hrest := ih (hreach.step trivial ht) htail hrun
      by_cases he : group e
      · have hless := hgroup s e t hreach hhead he ht
        rw [List.filter_cons_of_pos (by simpa using he), List.length_cons]
        omega
      · have hle := hothers s e t hreach hhead he ht
        rw [List.filter_cons_of_neg (by simpa using he)]
        omega

end Vdma.Lib.Machine
