import Mathlib.Data.List.MinMax
import Mathlib.Data.List.Perm.Subperm
import Mathlib.Data.Nat.ModEq
import Mathlib.Data.Prod.Lex

/-!
# `Vdma.Lib.Rotation`: a least element, with ties that rotate

The least of `n` candidates by a value, where candidates of one value are told apart by their
index rotated by `r`. The candidate that the rotation puts first wins every tie it is in. Over
`n` consecutive rotations each candidate is put first once, so each one of least value has its
turn.
-/

set_option autoImplicit false

namespace Vdma.Lib.Rotation

/-- The place of index `i` of `n`, rotated by `r`. -/
def rotated (n r i : Nat) : Nat := (i + r) % n

/-- The rotation puts one index first. -/
theorem eq_of_rotated {n r i j : Nat} (hi : i < n) (hj : j < n) (hfirst : rotated n r i = 0)
    (hfirst' : rotated n r j = 0) : i = j := by
  have hmod : i + r ≡ j + r [MOD n] := hfirst.trans hfirst'.symm
  exact Nat.ModEq.eq_of_lt_of_lt (hmod.add_right_cancel' r) hi hj

/-- Within `n` consecutive rotations every index is put first. -/
theorem exists_rotated {n i : Nat} (hi : i < n) (r : Nat) : ∃ k < n, rotated n (r + k) i = 0 := by
  have hn : 0 < n := Nat.lt_of_le_of_lt (Nat.zero_le i) hi
  have hlt := Nat.mod_lt (i + r) hn
  by_cases hfirst : (i + r) % n = 0
  · exact ⟨0, hn, hfirst⟩
  · refine ⟨n - (i + r) % n, by omega, ?_⟩
    have hsplit := Nat.div_add_mod (i + r) n
    have hsum : i + (r + (n - (i + r) % n)) = n * ((i + r) / n + 1) := by
      rw [Nat.mul_add]
      omega
    rw [rotated, hsum, Nat.mul_mod_right]

/-- A counter that turns by one each time, and does not wrap among `n` values. -/
theorem map_eq_range' {α : Type} {counter : α → Nat} {limit n : Nat} {l : List α}
    (hchain : l.IsChain fun a b => counter b = (counter a + 1) % limit) (hlength : l.length ≤ n)
    (hshort : ∀ a ∈ l, counter a + n ≤ limit) {a : α} (hhead : l.head? = some a) :
    l.map counter = List.range' (counter a) l.length := by
  induction l generalizing a with
  | nil => cases hhead
  | cons b l ih =>
    cases hhead
    rw [List.map_cons, List.length_cons, List.range'_succ]
    cases l with
    | nil => rfl
    | cons c l =>
      obtain ⟨hturn, hchain⟩ := List.isChain_cons_cons.mp hchain
      have hbelow := hshort b List.mem_cons_self
      rw [List.length_cons, List.length_cons] at hlength
      -- Two values fit, so the first of them is not the last before the wrap.
      rw [Nat.mod_eq_of_lt (by omega)] at hturn
      rw [ih hchain (by rw [List.length_cons]; omega)
        (fun d hd => hshort d (List.mem_cons_of_mem b hd)) rfl, hturn]

section
variable {α : Type} [LinearOrder α] {value : Nat → α} {place : Nat → Nat} {n d : Nat}

/-- The least by value and place is least by value. -/
theorem least_of_argmin
    (h : (List.range n).argmin (fun i => toLex (value i, place i)) = some d) :
    d < n ∧ ∀ i < n, value d ≤ value i := by
  refine ⟨List.mem_range.mp (List.argmin_mem h), fun i hi => ?_⟩
  have hle := List.le_of_mem_argmin (List.mem_range.mpr hi) h
  rcases Prod.Lex.le_iff.mp hle with hlt | ⟨heq, -⟩
  · exact le_of_lt hlt
  · exact le_of_eq heq

/-- The index that is put first is chosen when its value is least. -/
theorem argmin_of_first (hd : d < n) (hleast : ∀ i < n, value d ≤ value i) (hfirst : place d = 0)
    (hone : ∀ i < n, place i = 0 → i = d) :
    (List.range n).argmin (fun i => toLex (value i, place i)) = some d := by
  cases h : (List.range n).argmin fun i => toLex (value i, place i) with
  | none =>
    rw [List.argmin_eq_none, List.range_eq_nil] at h
    omega
  | some d' =>
    have hle := List.le_of_mem_argmin (List.mem_range.mpr hd) h
    have hd' : d' < n := List.mem_range.mp (List.argmin_mem h)
    rcases Prod.Lex.le_iff.mp hle with hlt | ⟨-, hplace⟩
    · exact absurd hlt (not_lt_of_ge (hleast d' hd'))
    · rw [hone d' hd' (Nat.le_zero.mp (hplace.trans_eq hfirst))]

end

/-- A list of `n` indices that has each one of them has each one once. -/
theorem perm_range {l : List Nat} {n : Nat} (hlength : l.length = n) (hall : ∀ i < n, i ∈ l) :
    l.Perm (List.range n) := by
  have hsub : (List.range n).Subperm l :=
    List.nodup_range.subperm fun i hi => hall i (List.mem_range.mp hi)
  exact (hsub.perm_of_length_le (by rw [hlength, List.length_range])).symm

end Vdma.Lib.Rotation
