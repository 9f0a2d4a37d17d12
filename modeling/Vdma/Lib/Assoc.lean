import Mathlib.Data.List.AList
import Mathlib.Algebra.Order.BigOperators.Group.List
import Mathlib.Algebra.Order.Group.Nat
import Mathlib.Algebra.GroupWithZero.Nat

/-!
# `Vdma.Lib.Assoc`: finite maps and the weight of their values

`Assoc K V` is Mathlib's association list with distinct keys, at a constant
value type. It models hash maps and ordered maps alike where only lookups and
populations are observed. The distinctness of the keys is a field of the list,
so a map with two values for one key cannot be built.

Mathlib has lookups after `insert` and `erase`. This module adds `retain` and
`mapValues`, and `weight f m`, the sum of `f` over the values. Weights are how a
conservation law is stated over a map: the indicator of a property counts the
values that have it, and the constant `1` counts them all. The rules say how a
weight changes under each update.
-/

set_option autoImplicit false

namespace Vdma.Lib

/-- A finite map with distinct keys. -/
abbrev Assoc (K V : Type) : Type := AList fun _ : K => V

namespace Assoc

variable {K V W : Type}

/-- The values, in list order. -/
def values (m : Assoc K V) : List V := m.entries.map Sigma.snd

/-- Keeps the entries `p` accepts. -/
def retain (p : K → V → Bool) (m : Assoc K V) : Assoc K V where
  entries := m.entries.filter fun e => p e.1 e.2
  nodupKeys := m.nodupKeys.sublist List.filter_sublist

/-- Replaces each value, keeping its key. -/
def mapValues (f : V → W) (m : Assoc K V) : Assoc K W where
  entries := m.entries.map fun e => ⟨e.1, f e.2⟩
  nodupKeys := by
    have hkeys : (m.entries.map fun e => (⟨e.1, f e.2⟩ : Sigma fun _ : K => W)).keys
        = m.entries.keys := by
      simp [List.keys, Function.comp_def]
    unfold List.NodupKeys
    rw [hkeys]
    exact m.nodupKeys

/-- The sum of `f` over the values. -/
def weight (f : V → Nat) (m : Assoc K V) : Nat := (m.values.map f).sum

/-- The entry of a key is what a lookup finds. -/
theorem mem_entries_iff [DecidableEq K] {m : Assoc K V} {k : K} {v : V} :
    (⟨k, v⟩ : Sigma fun _ : K => V) ∈ m.entries ↔ m.lookup k = some v :=
  (AList.mem_lookup_iff (s := m)).symm

/-- A value is found under some key. -/
theorem mem_values_iff [DecidableEq K] {m : Assoc K V} {v : V} :
    v ∈ m.values ↔ ∃ k, m.lookup k = some v := by
  simp only [values, List.mem_map, Sigma.exists, ← mem_entries_iff]
  constructor
  · rintro ⟨k, v', h, rfl⟩
    exact ⟨k, h⟩
  · rintro ⟨k, h⟩
    exact ⟨k, v, h, rfl⟩

/-- Erasing adds no value. -/
theorem mem_of_mem_values_erase [DecidableEq K] {m : Assoc K V} {k : K} {v : V}
    (h : v ∈ values (m.erase k)) : v ∈ values m := by
  obtain ⟨k', hk'⟩ := mem_values_iff.mp h
  by_cases hk : k' = k
  · rw [hk, AList.lookup_erase] at hk'
    cases hk'
  · rw [AList.lookup_erase_ne hk] at hk'
    exact mem_values_iff.mpr ⟨k', hk'⟩

/-- Inserting adds one value. -/
theorem mem_of_mem_values_insert [DecidableEq K] {m : Assoc K V} {k : K} {v w : V}
    (h : v ∈ values (m.insert k w)) : v = w ∨ v ∈ values m := by
  obtain ⟨k', hk'⟩ := mem_values_iff.mp h
  by_cases hk : k' = k
  · rw [hk, AList.lookup_insert] at hk'
    exact .inl (Option.some.inj hk').symm
  · rw [AList.lookup_insert_ne hk] at hk'
    exact .inr (mem_values_iff.mpr ⟨k', hk'⟩)

/-- A lookup after `retain` finds the entry if `p` accepts it. -/
theorem lookup_retain [DecidableEq K] (p : K → V → Bool) (m : Assoc K V) (k : K) :
    (retain p m).lookup k = (m.lookup k).filter (p k) := by
  ext v
  rw [← mem_entries_iff]
  simp only [retain, List.mem_filter, mem_entries_iff, Option.filter_eq_some_iff]

/-- A lookup after `mapValues` finds the replaced value. -/
theorem lookup_mapValues [DecidableEq K] (f : V → W) (m : Assoc K V) (k : K) :
    (mapValues f m).lookup k = (m.lookup k).map f :=
  List.dlookup_map₂ (γ := fun _ => V) (δ := fun _ => W) (f := fun _ => f) k

/-! ### Weights -/

/-- An empty map weighs nothing. -/
@[simp] theorem weight_empty (f : V → Nat) : weight f (∅ : Assoc K V) = 0 := rfl

/-- A map of pointwise equal weights. -/
theorem weight_congr {f g : V → Nat} {m : Assoc K V} (h : ∀ v ∈ m.values, f v = g v) :
    weight f m = weight g m := by
  unfold weight
  rw [List.map_congr_left h]

/-- Inserting replaces the entry of the key, so the weight of the rest stays. -/
theorem weight_insert [DecidableEq K] (f : V → Nat) (m : Assoc K V) (k : K) (v : V) :
    weight f (m.insert k v) = f v + weight f (m.erase k) := by
  have herase : (m.erase k).entries = m.entries.kerase k := rfl
  simp [weight, values, AList.insert, herase, List.kinsert_def]

/-- The weight of a map is that of one entry and that of the others. -/
theorem weight_of_lookup [DecidableEq K] {m : Assoc K V} {k : K} {v : V}
    (h : m.lookup k = some v) (f : V → Nat) : weight f m = f v + weight f (m.erase k) := by
  obtain ⟨entries, hnd⟩ := m
  have hmem : (⟨k, v⟩ : Sigma fun _ : K => V) ∈ entries := mem_entries_iff.mpr h
  obtain ⟨v', l₁, l₂, hnot, hl, herase⟩ := List.exists_of_kerase (List.mem_keys_of_mem hmem)
  have hv : v' = v := by
    have hfound : entries.dlookup k = some v' := by
      refine List.mem_dlookup hnd ?_
      rw [hl]
      simp
    exact Option.some.inj (hfound.symm.trans h)
  subst hv
  show ((entries.map Sigma.snd).map f).sum
    = f v' + (((entries.kerase k).map Sigma.snd).map f).sum
  rw [herase, hl]
  simp
  omega

/-- Erasing an absent key changes nothing. -/
theorem erase_of_lookup_none [DecidableEq K] {m : Assoc K V} {k : K} (h : m.lookup k = none) :
    m.erase k = m :=
  AList.ext (List.kerase_of_notMem_keys (AList.lookup_eq_none.mp h))

/-- Erasing a key that was just added takes the addition back. -/
theorem erase_insert_of_none [DecidableEq K] {m : Assoc K V} {k : K} (h : m.lookup k = none)
    (v : V) : (m.insert k v).erase k = m := by
  refine AList.ext ?_
  show ((m.insert k v).entries).kerase k = m.entries
  rw [AList.entries_insert_of_notMem (AList.lookup_eq_none.mp h)]
  exact List.kerase_cons_eq rfl

/-- Inserting a new key adds its value. -/
theorem weight_insert_of_none [DecidableEq K] {m : Assoc K V} {k : K} (h : m.lookup k = none)
    (f : V → Nat) (v : V) : weight f (m.insert k v) = f v + weight f m := by
  rw [weight_insert, erase_of_lookup_none h]

/-- Inserting at a present key trades the old value for the new one. -/
theorem weight_insert_of_some [DecidableEq K] {m : Assoc K V} {k : K} {old : V}
    (h : m.lookup k = some old) (f : V → Nat) (v : V) :
    weight f (m.insert k v) + f old = f v + weight f m := by
  rw [weight_insert, weight_of_lookup h]
  omega

/-- The weight of a map is that of the retained and of the other entries. -/
theorem weight_retain_add (f : V → Nat) (p : K → V → Bool) (m : Assoc K V) :
    weight f (retain p m) + weight f (retain (fun k v => !p k v) m) = weight f m := by
  simp only [weight, values, retain]
  generalize m.entries = l
  induction l with
  | nil => rfl
  | cons e l ih =>
    cases hp : p e.1 e.2 <;> simp [hp] at ih ⊢ <;> omega

/-- Mapping the values changes the function being summed. -/
@[simp] theorem weight_mapValues (g : W → Nat) (f : V → W) (m : Assoc K V) :
    weight g (mapValues f m) = weight (fun v => g (f v)) m := by
  simp [weight, values, mapValues, Function.comp_def]

/-- A weight is positive when some value weighs something. -/
theorem weight_pos_iff {f : V → Nat} {m : Assoc K V} :
    0 < weight f m ↔ ∃ v ∈ m.values, 0 < f v := by
  simp only [weight]
  generalize m.values = l
  induction l with
  | nil => simp
  | cons v l ih =>
    simp only [List.map_cons, List.sum_cons, List.exists_mem_cons_iff, ← ih]
    omega

/-- A found value contributes to the weight. -/
theorem le_weight_of_lookup [DecidableEq K] {m : Assoc K V} {k : K} {v : V}
    (h : m.lookup k = some v) (f : V → Nat) : f v ≤ weight f m := by
  rw [weight_of_lookup h]
  omega

/-- How often a value occurs. -/
theorem count_values [DecidableEq V] (m : Assoc K V) (v : V) :
    m.values.count v = weight (fun w => if w = v then 1 else 0) m := by
  simp only [weight]
  generalize m.values = l
  induction l with
  | nil => rfl
  | cons w l ih =>
    simp only [List.count_cons, List.map_cons, List.sum_cons, ih, beq_iff_eq]
    omega

/-- The weight of the entries a predicate on values keeps. -/
theorem weight_retain_values (f : V → Nat) (p : V → Bool) (m : Assoc K V) :
    weight f (retain (fun _ v => p v) m) = weight (fun v => if p v then f v else 0) m := by
  simp only [weight, values, retain]
  generalize m.entries = l
  induction l with
  | nil => rfl
  | cons e l ih =>
    cases hp : p e.2 <;> simp [hp] at ih ⊢ <;> omega

end Assoc

/-! ### Sums over lists -/

section
variable {α β : Type}

/-- Each element adds its part. -/
theorem le_sum_map {a : α} {l : List α} (h : a ∈ l) (f : α → Nat) : f a ≤ (l.map f).sum :=
  List.le_sum_of_mem (List.mem_map_of_mem h)

/-- So do two different elements. -/
theorem add_le_sum_map {a b : α} {l : List α} (ha : a ∈ l) (hb : b ∈ l) (hne : a ≠ b)
    (f : α → Nat) : f a + f b ≤ (l.map f).sum := by
  obtain ⟨before, after, rfl⟩ := List.append_of_mem ha
  have hrest : b ∈ before ++ after := by
    rcases List.mem_append.mp hb with hb | hb
    · exact List.mem_append_left _ hb
    · exact List.mem_append_right _ ((List.mem_cons.mp hb).resolve_left hne.symm)
  have hle := le_sum_map hrest f
  simp only [List.map_append, List.map_cons, List.sum_append, List.sum_cons] at hle ⊢
  omega

/-- The sum over lists put end to end is the sum of their sums. -/
theorem sum_map_flatMap (g : β → List α) (f : α → Nat) (l : List β) :
    ((l.flatMap g).map f).sum = (l.map fun b => ((g b).map f).sum).sum := by
  induction l with
  | nil => rfl
  | cons b l ih =>
    rw [List.flatMap_cons, List.map_append, List.sum_append, ih, List.map_cons, List.sum_cons]

/-- Ones add up to the length. -/
theorem sum_map_one (l : List α) : (l.map fun _ => 1).sum = l.length := by
  induction l with
  | nil => rfl
  | cons a l ih =>
    rw [List.map_cons, List.sum_cons, ih, List.length_cons]
    omega

/-- A map with no value is empty. -/
theorem eq_empty_of_weight {K V : Type} {m : Assoc K V} (h : Assoc.weight (fun _ => 1) m = 0) :
    m = ∅ := by
  rw [Assoc.weight, sum_map_one, Assoc.values, List.length_map] at h
  exact AList.ext (List.length_eq_zero_iff.mp h)

/-- A map in which no key is found is empty. -/
theorem Assoc.eq_empty_of_lookup {K V : Type} [DecidableEq K] {m : Assoc K V}
    (h : ∀ k, m.lookup k = none) : m = ∅ := by
  refine AList.ext (List.eq_nil_iff_forall_not_mem.mpr ?_)
  intro e he
  have hlookup : m.lookup e.1 = some e.2 := Assoc.mem_entries_iff.mp he
  rw [h] at hlookup
  cases hlookup

/-- Counting by a key is summing its indicator. -/
theorem sum_indicator [DecidableEq β] (g : α → β) (b : β) (l : List α) :
    (l.map fun a => if g a = b then 1 else 0).sum = (l.map g).count b := by
  induction l with
  | nil => rfl
  | cons a l ih =>
    simp only [List.map_cons, List.sum_cons, List.count_cons, ih, beq_iff_eq]
    omega

/-- What every sum agrees on is the same up to order. -/
theorem perm_of_sums {l l' : List α} (h : ∀ f : α → Nat, (l.map f).sum = (l'.map f).sum) :
    l.Perm l' := by
  classical
  rw [List.perm_iff_count]
  intro a
  have ha := h fun b => if b = a then 1 else 0
  have hl := sum_indicator id a l
  have hl' := sum_indicator id a l'
  rw [List.map_id] at hl hl'
  exact hl.symm.trans (ha.trans hl')

end

end Vdma.Lib
