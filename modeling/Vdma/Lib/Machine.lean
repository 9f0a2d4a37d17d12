/-!
# `Vdma.Lib.Machine`: labelled machines and their runs

A machine is a set of initial states and a partial step function. A label the
state does not enable steps to `none`. Interleavings need nothing more: when the
labels name who moves, a run of the machine is one schedule.

`Machine.Reach M ok` is the set of states a run reaches when every step it takes
meets `ok`. The plain reachable states are the case where `ok` is always true.
Two rules carry every proof over runs:

* `Reach.invariant`: a property of the initial states that each allowed step
  keeps holds in every state reached.
* `Reach.invariant_given`: the same, where the step may also use a property that
  is already known of every state reached.

`startingAt` is the machine that goes on from one state, for what holds from then on.
`observing` is the machine that also keeps what is seen of each step, so that a property of a
whole run is an invariant too, by `Reach.invariant_observed`.
`run` executes a list of labels, and `reach_run` turns an execution into
reachability, so that a concrete schedule can be checked by evaluation.
-/

set_option autoImplicit false

namespace Vdma.Lib

universe u v

/-- A labelled machine: the states a run may start in, and the step each label
takes. `none` means that the label is not enabled. -/
structure Machine (σ : Type u) (ε : Type v) where
  /-- The states a run may start in. -/
  init : σ → Prop
  /-- The step of a label. -/
  step : σ → ε → Option σ

namespace Machine

variable {σ : Type u} {ε : Type v} (M : Machine σ ε)

/-- The states reached by runs whose every step meets `ok`. The condition reads
the label and the state before the step. -/
inductive Reach (ok : σ → ε → Prop) : σ → Prop
  | init {s : σ} (h : M.init s) : Reach ok s
  | step {s s' : σ} {e : ε} (h : Reach ok s) (hok : ok s e) (hs : M.step s e = some s') :
      Reach ok s'

/-- The states reached by any run. -/
abbrev Reachable : σ → Prop := M.Reach fun _ _ => True

variable {M} {ok : σ → ε → Prop}

/-- The induction over a run: what holds at the start and is kept by each
allowed step holds in every state reached. -/
theorem Reach.invariant {I : σ → Prop} (hinit : ∀ s, M.init s → I s)
    (hstep : ∀ s e s', ok s e → M.step s e = some s' → I s → I s') {s : σ}
    (h : M.Reach ok s) : I s := by
  induction h with
  | init h => exact hinit _ h
  | step _ hok hs ih => exact hstep _ _ _ hok hs ih

/-- The induction over a run, relative to a property `J` already known of every
state reached. The step lemma gets `J` on both sides of the step. -/
theorem Reach.invariant_given {I J : σ → Prop} (hJ : ∀ s, M.Reach ok s → J s)
    (hinit : ∀ s, M.init s → I s)
    (hstep : ∀ s e s', J s → J s' → ok s e → M.step s e = some s' → I s → I s') {s : σ}
    (h : M.Reach ok s) : I s := by
  induction h with
  | init h => exact hinit _ h
  | step hr hok hs ih => exact hstep _ _ _ (hJ _ hr) (hJ _ (hr.step hok hs)) hok hs ih

/-- A weaker condition on the steps reaches at least as much. -/
theorem Reach.mono {ok' : σ → ε → Prop} (himp : ∀ s e, ok s e → ok' s e) {s : σ}
    (h : M.Reach ok s) : M.Reach ok' s := by
  induction h with
  | init h => exact .init h
  | step _ hok hs ih => exact ih.step (himp _ _ hok) hs

/-- A state reached under a condition is reachable. -/
theorem Reach.reachable {s : σ} (h : M.Reach ok s) : M.Reachable s :=
  h.mono fun _ _ _ => trivial

variable (M)

/-- The machine whose runs go on from one state. -/
def startingAt (s : σ) : Machine σ ε where
  init s' := s' = s
  step := M.step

variable {M}

/-- A run that goes on under the same condition. -/
theorem Reach.trans {s s' : σ} (h : M.Reach ok s) (h' : (M.startingAt s).Reach ok s') :
    M.Reach ok s' := by
  induction h' with
  | init hinit =>
    rw [show _ = s from hinit]
    exact h
  | step _ hok hs ih => exact ih.step hok hs

/-- A run that goes on from a reachable state stays among the reachable ones. -/
theorem Reach.of_startingAt {s s' : σ} (h : M.Reachable s) (h' : (M.startingAt s).Reach ok s') :
    M.Reachable s' :=
  h.trans h'.reachable

section
variable {τ : Type u} (M)

/-- The machine whose runs keep what is seen of each step, the latest last. -/
def observing (observe : σ → ε → σ → List τ) : Machine (σ × List τ) ε where
  init s := M.init s.1 ∧ s.2 = []
  step s e := (M.step s.1 e).map fun s' => (s', s.2 ++ observe s.1 e s')

variable {M} {observe : σ → ε → σ → List τ}

/-- A step that is observed is a step. -/
theorem step_of_observing {s s' : σ × List τ} {e : ε}
    (h : (M.observing observe).step s e = some s') :
    M.step s.1 e = some s'.1 ∧ s'.2 = s.2 ++ observe s.1 e s'.1 := by
  obtain ⟨t, ht, rfl⟩ := Option.map_eq_some_iff.mp h
  exact ⟨ht, rfl⟩

/-- What is observed is a run. -/
theorem Reach.of_observing {ok : σ × List τ → ε → Prop} {ok' : σ → ε → Prop}
    (himp : ∀ s e, ok s e → ok' s.1 e) {s : σ × List τ}
    (h : (M.observing observe).Reach ok s) : M.Reach ok' s.1 := by
  induction h with
  | init h => exact .init h.1
  | step _ hok hs ih => exact ih.step (himp _ _ hok) (step_of_observing hs).1

/-- The state of an observed run is reachable. -/
theorem Reach.reachable_fst {ok : σ × List τ → ε → Prop} {s : σ × List τ}
    (h : (M.observing observe).Reach ok s) : M.Reachable s.1 :=
  h.of_observing fun _ _ _ => trivial

/-- The induction over an observed run: what holds at the start, when nothing was seen, and is kept
by each step with what is seen of it holds throughout. `J` is known of every reachable state. -/
theorem Reach.invariant_observed {I : σ × List τ → Prop} {J : σ → Prop}
    (hJ : ∀ s, M.Reachable s → J s) (hinit : ∀ s, M.init s → I (s, []))
    (hstep : ∀ s seen e s', J s → M.step s e = some s' → I (s, seen) →
      I (s', seen ++ observe s e s'))
    {ok : σ × List τ → ε → Prop} {s : σ × List τ} (h : (M.observing observe).Reach ok s) :
    I s := by
  induction h with
  | @init s h =>
    obtain ⟨s, seen⟩ := s
    obtain ⟨hs, hseen⟩ := h
    rw [show seen = [] from hseen]
    exact hinit s hs
  | @step s s' e hr hok hs ih =>
    obtain ⟨hmove, hseen⟩ := step_of_observing hs
    rw [show s' = (s'.1, s.2 ++ observe s.1 e s'.1) from Prod.ext rfl hseen]
    exact hstep s.1 s.2 e s'.1 (hJ s.1 hr.reachable_fst) hmove ih

end

variable (M)

/-- Executes the labels in order, and stops with `none` at the first one that is
not enabled. -/
def run : σ → List ε → Option σ
  | s, [] => some s
  | s, e :: es =>
    match M.step s e with
    | none => none
    | some s' => run s' es

/-- Every step of the execution of `es` from `s` meets `ok`. -/
def Obeys (ok : σ → ε → Prop) : σ → List ε → Prop
  | _, [] => True
  | s, e :: es =>
    ok s e ∧
      match M.step s e with
      | none => True
      | some s' => Obeys ok s' es

/-- One more step at the front of an obedient execution. -/
theorem Obeys.cons {M : Machine σ ε} {ok : σ → ε → Prop} {s s' : σ} {e : ε} {es : List ε}
    (hok : ok s e) (hs : M.step s e = some s') (h : M.Obeys ok s' es) : M.Obeys ok s (e :: es) :=
  ⟨hok, by rw [hs]; exact h⟩

instance Obeys.decidable (ok : σ → ε → Prop) [∀ s e, Decidable (ok s e)] :
    (s : σ) → (es : List ε) → Decidable (M.Obeys ok s es)
  | _, [] => .isTrue trivial
  | s, e :: es =>
    match hs : M.step s e with
    | none => decidable_of_iff (ok s e) (by simp [Obeys, hs])
    | some s' =>
      have := Obeys.decidable ok s' es
      decidable_of_iff (ok s e ∧ M.Obeys ok s' es) (by simp [Obeys, hs])

variable {M}

/-- An execution goes on where the one before it ends. -/
theorem run_append {s s' : σ} {es : List ε} (h : M.run s es = some s') (es' : List ε) :
    M.run s (es ++ es') = M.run s' es' := by
  induction es generalizing s with
  | nil =>
    cases h
    rfl
  | cons e es ih =>
    simp only [Machine.run, List.cons_append] at h ⊢
    split at h
    · cases h
    · exact ih h

/-- An execution from a state reached under `ok`, whose steps obey `ok`, ends in
a state reached under `ok`. -/
theorem Reach.run {s s' : σ} (h : M.Reach ok s) {es : List ε} (hok : M.Obeys ok s es)
    (hrun : M.run s es = some s') : M.Reach ok s' := by
  induction es generalizing s with
  | nil =>
    cases hrun
    exact h
  | cons e es ih =>
    obtain ⟨hhead, htail⟩ := hok
    simp only [Machine.run] at hrun
    split at hrun
    · cases hrun
    · next t ht =>
      rw [ht] at htail
      exact ih (h.step hhead ht) htail hrun

/-- An execution of labels that always meet the condition is obedient. -/
theorem obeys_of_forall {es : List ε} (h : ∀ e ∈ es, ∀ s, ok s e) (s : σ) : M.Obeys ok s es := by
  induction es generalizing s with
  | nil => trivial
  | cons e es ih =>
    refine ⟨h e (.head _) s, ?_⟩
    split
    · trivial
    · exact ih (fun e' he' => h e' (.tail _ he')) _

/-- Every execution is obedient where nothing is asked. -/
theorem obeys_true (s : σ) (es : List ε) : M.Obeys (fun _ _ => True) s es :=
  obeys_of_forall (fun _ _ _ => trivial) s

/-- An execution from an initial state ends in a reachable state. -/
theorem reach_run {s s' : σ} (h : M.init s) (es : List ε) (hrun : M.run s es = some s') :
    M.Reachable s' :=
  (Reach.init h).run (obeys_true s es) hrun

end Machine

end Vdma.Lib
