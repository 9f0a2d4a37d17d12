import Mathlib.Logic.Function.Basic
import Mathlib.Data.List.Basic

/-!
# `Vdma.Lib.Handles`: shared ownership by counting

The memory behind reference-counted handles: `new` allocates a value with one
handle, `clone` adds a handle, and `drop` takes one away. The value is finalised
when its last handle is dropped, and `dropped` lists the finalised allocations,
latest first. Allocations are named by the order they were made in, so a name is
never used twice and comparing two names compares their ages.

`Counts a held` says that the counters are right about a given population of
holders, where `held i` is the number of handles on `i` that exist. It is the
only invariant a user of the module needs. Each operation has one rule that says
how the population changes, and `Counts.open_iff` reads off what the counters
promise: an allocation is open exactly while somebody holds it, and it is
finalised at most once.
-/

set_option autoImplicit false

namespace Vdma.Lib

/-- Reference-counted cells holding values of `α`. -/
structure Handles (α : Type) where
  /-- The value of each allocation, in allocation order. -/
  cells : List α
  /-- The number of handles on each allocation. -/
  strong : Nat → Nat
  /-- The allocations whose last handle was dropped, latest first. -/
  dropped : List Nat

namespace Handles

variable {α : Type}

/-- No allocation yet. -/
def empty : Handles α := { cells := [], strong := fun _ => 0, dropped := [] }

/-- The name the next allocation gets. -/
def next (a : Handles α) : Nat := a.cells.length

/-- Allocates `value` with one handle on it, named `a.next`. -/
def new (a : Handles α) (value : α) : Handles α :=
  { a with
    cells := a.cells ++ [value]
    strong := Function.update a.strong a.next 1 }

/-- One more handle on `i`. -/
def clone (a : Handles α) (i : Nat) : Handles α :=
  { a with strong := Function.update a.strong i (a.strong i + 1) }

/-- One handle on `i` less. The last one finalises the value. -/
def drop (a : Handles α) (i : Nat) : Handles α :=
  if a.strong i = 1 then
    { a with strong := Function.update a.strong i 0, dropped := i :: a.dropped }
  else
    { a with strong := Function.update a.strong i (a.strong i - 1) }

/-- Drops a handle, where there is one. -/
def dropOption (a : Handles α) : Option Nat → Handles α
  | some i => a.drop i
  | none => a

/-- Drops the handles of a list, first to last. -/
def dropAll (a : Handles α) (l : List Nat) : Handles α := l.foldl drop a

/-- Allocated and not finalised. -/
def Open (a : Handles α) (i : Nat) : Prop := i < a.next ∧ i ∉ a.dropped

instance (a : Handles α) (i : Nat) : Decidable (a.Open i) :=
  inferInstanceAs (Decidable (_ ∧ _))

/-- A new cell takes the next name. -/
@[simp] theorem next_new (a : Handles α) (v : α) : (a.new v).next = a.next + 1 := by
  simp [next, new]

/-- A clone takes no name. -/
@[simp] theorem next_clone (a : Handles α) (i : Nat) : (a.clone i).next = a.next := rfl

/-- A clone makes no cell. -/
@[simp] theorem cells_clone (a : Handles α) (i : Nat) : (a.clone i).cells = a.cells := rfl

/-- A clone drops nothing. -/
@[simp] theorem dropped_clone (a : Handles α) (i : Nat) : (a.clone i).dropped = a.dropped := rfl

/-- A new cell drops nothing. -/
@[simp] theorem dropped_new (a : Handles α) (v : α) : (a.new v).dropped = a.dropped := rfl

/-- A drop leaves the cells. -/
@[simp] theorem cells_drop (a : Handles α) (i : Nat) : (a.drop i).cells = a.cells := by
  unfold drop
  split <;> rfl

/-- A drop takes no name. -/
@[simp] theorem next_drop (a : Handles α) (i : Nat) : (a.drop i).next = a.next := by
  simp [next]

/-- Dropping a handle that may be missing leaves the cells. -/
@[simp] theorem cells_dropOption (a : Handles α) (i : Option Nat) :
    (a.dropOption i).cells = a.cells := by
  cases i with
  | none => rfl
  | some i => exact cells_drop a i

/-- Dropping a handle that may be missing takes no name. -/
@[simp] theorem next_dropOption (a : Handles α) (i : Option Nat) :
    (a.dropOption i).next = a.next := by
  simp [next]

/-- Dropping a list of handles leaves the cells. -/
@[simp] theorem cells_dropAll (a : Handles α) (l : List Nat) : (a.dropAll l).cells = a.cells := by
  induction l generalizing a with
  | nil => rfl
  | cons i l ih => exact (ih (a.drop i)).trans (cells_drop a i)

/-- Dropping a list of handles takes no name. -/
@[simp] theorem next_dropAll (a : Handles α) (l : List Nat) : (a.dropAll l).next = a.next := by
  simp [next]

/-- What is finalised stays so. -/
theorem subset_dropped_drop (a : Handles α) (i : Nat) : a.dropped ⊆ (a.drop i).dropped := by
  intro j hj
  unfold drop
  split
  · exact List.mem_cons_of_mem i hj
  · exact hj

/-- Dropping a handle that may be missing undoes no drop. -/
theorem subset_dropped_dropOption (a : Handles α) (i : Option Nat) :
    a.dropped ⊆ (a.dropOption i).dropped := by
  cases i with
  | none => exact fun _ h => h
  | some i => exact a.subset_dropped_drop i

/-- Dropping a list of handles undoes no drop. -/
theorem subset_dropped_dropAll (a : Handles α) (l : List Nat) :
    a.dropped ⊆ (a.dropAll l).dropped := by
  induction l generalizing a with
  | nil => exact fun _ h => h
  | cons i l ih => exact List.Subset.trans (a.subset_dropped_drop i) (ih (a.drop i))

/-- The value of an allocation is the one it was made with: later allocations
leave it alone. -/
theorem getElem?_cells_new_of_lt (a : Handles α) (v : α) {i : Nat} (h : i < a.next) :
    (a.new v).cells[i]? = a.cells[i]? := by
  simp only [new]
  exact List.getElem?_append_left h

/-- The new allocation holds its value. -/
@[simp] theorem getElem?_cells_new (a : Handles α) (v : α) : (a.new v).cells[a.next]? = some v := by
  simp [new, next]

/-- `a'` comes after `a`: values stay, and so does what was finalised. -/
structure Later (a a' : Handles α) : Prop where
  cells : ∀ (i : Nat) (v : α), a.cells[i]? = some v → a'.cells[i]? = some v
  dropped : a.dropped ⊆ a'.dropped

namespace Later

variable {a a' a'' : Handles α}

/-- An arena comes later than itself. -/
theorem refl (a : Handles α) : Later a a := ⟨fun _ _ h => h, fun _ h => h⟩

/-- What comes later than a later one comes later. -/
theorem trans (h : Later a a') (h' : Later a' a'') : Later a a'' :=
  ⟨fun i v hv => h'.cells i v (h.cells i v hv), List.Subset.trans h.dropped h'.dropped⟩

/-- A new cell is later than the arena without it. -/
theorem new (a : Handles α) (v : α) : Later a (a.new v) := by
  refine ⟨?_, fun _ h => h⟩
  intro i w hw
  have hlt : i < a.next := (List.getElem?_eq_some_iff.mp hw).1
  rw [getElem?_cells_new_of_lt a v hlt]
  exact hw

/-- A clone changes neither cells nor drops. -/
theorem clone (a : Handles α) (i : Nat) : Later a (a.clone i) := ⟨fun _ _ h => h, fun _ h => h⟩

/-- A drop is later than the arena before it. -/
theorem drop (a : Handles α) (i : Nat) : Later a (a.drop i) :=
  ⟨fun _ _ h => by rwa [cells_drop], a.subset_dropped_drop i⟩

/-- So is the drop of a handle that may be missing. -/
theorem dropOption (a : Handles α) (i : Option Nat) : Later a (a.dropOption i) :=
  ⟨fun _ _ h => by rwa [cells_dropOption], a.subset_dropped_dropOption i⟩

/-- So is the drop of a list. -/
theorem dropAll (a : Handles α) (l : List Nat) : Later a (a.dropAll l) :=
  ⟨fun _ _ h => by rwa [cells_dropAll], a.subset_dropped_dropAll l⟩

end Later

/-- The counters agree with a population of holders: `held i` handles exist on
`i`. Finalised allocations have none, and each was finalised once. -/
structure Counts (a : Handles α) (held : Nat → Nat) : Prop where
  strong_eq : ∀ i, a.strong i = held i
  fresh : ∀ i, a.next ≤ i → held i = 0
  nodup : a.dropped.Nodup
  mem_dropped : ∀ i, i ∈ a.dropped ↔ i < a.next ∧ held i = 0

namespace Counts

variable {a : Handles α} {held held' : Nat → Nat}

/-- Nobody holds anything at the start. -/
theorem empty : Counts (Handles.empty : Handles α) fun _ => 0 where
  strong_eq _ := rfl
  fresh _ _ := rfl
  nodup := List.nodup_nil
  mem_dropped i := by simp [Handles.empty, Handles.next]

/-- Only the number of holders of each allocation matters. -/
theorem congr (h : Counts a held) (heq : ∀ i, held i = held' i) : Counts a held' :=
  (funext heq : held = held') ▸ h

/-- A held allocation was made. -/
theorem lt_next (h : Counts a held) {i : Nat} (hi : 0 < held i) : i < a.next := by
  by_contra hge
  have := h.fresh i (by omega)
  omega

/-- Nobody holds the name the next allocation gets. -/
theorem held_next (h : Counts a held) : held a.next = 0 := h.fresh a.next (Nat.le_refl _)

/-- An allocation is open exactly while somebody holds it. -/
theorem open_iff (h : Counts a held) (i : Nat) : a.Open i ↔ 0 < held i := by
  have hdropped := h.mem_dropped i
  have hfresh := h.fresh i
  unfold Open
  rw [hdropped]
  omega

/-- Allocating adds one holder of the new name. -/
theorem new (h : Counts a held) (v : α) :
    Counts (a.new v) fun i => held i + if i = a.next then 1 else 0 where
  strong_eq i := by
    have hnext := h.held_next
    by_cases hi : i = a.next
    · subst hi
      simp [Handles.new, hnext]
    · simp [Handles.new, hi, h.strong_eq]
  fresh i hi := by
    rw [next_new] at hi
    rw [h.fresh i (by omega), if_neg (by omega)]
  nodup := h.nodup
  mem_dropped i := by
    have hnext := h.held_next
    rw [dropped_new, h.mem_dropped, next_new]
    by_cases hi : i = a.next
    · subst hi
      simp
    · rw [if_neg hi]
      omega

/-- Cloning a handle that exists adds one holder. -/
theorem clone (h : Counts a held) {i : Nat} (hi : 0 < held i) :
    Counts (a.clone i) fun j => held j + if j = i then 1 else 0 where
  strong_eq j := by
    by_cases hj : j = i
    · subst hj
      simp [Handles.clone, h.strong_eq]
    · simp [Handles.clone, hj, h.strong_eq]
  fresh j hj := by
    have hlt := h.lt_next hi
    rw [next_clone] at hj
    rw [h.fresh j hj, if_neg (by omega)]
  nodup := h.nodup
  mem_dropped j := by
    rw [dropped_clone, h.mem_dropped, next_clone]
    by_cases hj : j = i
    · subst hj
      rw [if_pos rfl]
      omega
    · rw [if_neg hj, Nat.add_zero]

/-- Dropping a handle that exists takes one holder away. When it was the only
one, the allocation is finalised, for the first time. -/
theorem drop (h : Counts a held) {i : Nat} (hi : 0 < held i) :
    Counts (a.drop i) fun j => held j - if j = i then 1 else 0 := by
  have hlt := h.lt_next hi
  have hstrong := h.strong_eq i
  have hfresh : ∀ j, a.next ≤ j → (held j - if j = i then 1 else 0) = 0 := by
    intro j hj
    rw [h.fresh j hj, Nat.zero_sub]
  unfold Handles.drop
  split
  · next hone =>
    refine ⟨fun j => ?_, hfresh, ?_, fun j => ?_⟩
    · by_cases hj : j = i
      · subst hj
        simp only [Function.update_self, if_pos]
        omega
      · simp [hj, h.strong_eq]
    · have hnot : i ∉ a.dropped := by
        rw [h.mem_dropped]
        omega
      exact List.nodup_cons.mpr ⟨hnot, h.nodup⟩
    · show j ∈ i :: a.dropped ↔ j < a.next ∧ _
      rw [List.mem_cons, h.mem_dropped]
      by_cases hj : j = i
      · subst hj
        simp only [if_pos, true_or, true_iff]
        omega
      · simp [hj]
  · next hone =>
    refine ⟨fun j => ?_, hfresh, h.nodup, fun j => ?_⟩
    · by_cases hj : j = i
      · subst hj
        simp [hstrong]
      · simp [hj, h.strong_eq]
    · show j ∈ a.dropped ↔ j < a.next ∧ _
      rw [h.mem_dropped]
      by_cases hj : j = i
      · subst hj
        rw [if_pos rfl]
        omega
      · simp [hj]

/-- Dropping a handle that may be missing. -/
theorem dropOption (h : Counts a held) {i : Option Nat} (hi : ∀ j, i = some j → 0 < held j) :
    Counts (a.dropOption i) fun j => held j - if i = some j then 1 else 0 := by
  cases i with
  | none => exact h.congr fun j => by simp
  | some i =>
    refine (h.drop (hi i rfl)).congr fun j => ?_
    have hcomm : (if j = i then 1 else 0) = if some i = some j then 1 else 0 :=
      if_congr (by rw [Option.some.injEq, eq_comm]) rfl rfl
    omega

/-- Dropping a list of handles that exist takes that many holders away. -/
theorem dropAll (h : Counts a held) {l : List Nat} (hl : ∀ i, l.count i ≤ held i) :
    Counts (a.dropAll l) fun i => held i - l.count i := by
  induction l generalizing a held with
  | nil => exact h.congr fun i => by simp
  | cons i l ih =>
    have hi : 0 < held i := by
      have := hl i
      rw [List.count_cons_self] at this
      omega
    have hcount : ∀ j, (i :: l).count j = l.count j + if j = i then 1 else 0 := by
      intro j
      rw [List.count_cons]
      by_cases hj : j = i
      · subst hj
        simp
      · simp [hj, Ne.symm hj]
    have hrest : ∀ j, l.count j ≤ held j - if j = i then 1 else 0 := by
      intro j
      have := hl j
      rw [hcount j] at this
      omega
    refine (ih (h.drop hi) hrest).congr fun j => ?_
    rw [hcount j]
    omega

end Counts

end Handles

end Vdma.Lib
