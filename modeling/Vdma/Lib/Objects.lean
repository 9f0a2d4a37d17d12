import Mathlib.Data.List.Perm.Basic
import Mathlib.Data.List.Nodup

/-!
# `Vdma.Lib.Objects`: objects that are opened on others

A foreign library hands out objects. One is opened on others, may be bound to more, and is to be
closed once, before any that it was opened on or bound to. `misused` is set for good by a call that
breaks this: the use of an object that is not open, a second close, or a close of an object that an
open one still uses. Objects are named in the order that they are opened in.

`Holding o groups` says who has what. Each group is what one owner has, latest first, and nothing
is used across groups. So an owner that opens and closes its own, latest first, breaks nothing,
whatever the others do. Each operation has one rule, about the first group.
-/

set_option autoImplicit false

namespace Vdma.Lib

/-- What a foreign library has open. -/
structure Objects where
  next : Nat
  live : List Nat
  /-- An object, and one that it was opened on or bound to. -/
  uses : List (Nat × Nat)
  misused : Bool

namespace Objects

/-- Nothing was opened yet. -/
def empty : Objects := ⟨0, [], [], false⟩

/-- Opens an object named `o.next` on others. -/
def acquire (o : Objects) (on : List Nat) : Objects where
  next := o.next + 1
  live := o.next :: o.live
  uses := on.map (fun i => (o.next, i)) ++ o.uses
  misused := o.misused || !on.all fun i => i ∈ o.live

/-- Uses objects. -/
def visit (o : Objects) (l : List Nat) : Objects :=
  { o with misused := o.misused || !l.all fun i => i ∈ o.live }

/-- Binds an object to another. -/
def bind (o : Objects) (user used : Nat) : Objects :=
  { o with
    uses := (user, used) :: o.uses
    misused := o.misused || !(decide (user ∈ o.live) && decide (used ∈ o.live)) }

/-- Closes an object. -/
def release (o : Objects) (i : Nat) : Objects where
  next := o.next
  live := o.live.erase i
  uses := o.uses.filter fun u => u.1 ≠ i
  misused := o.misused || !decide (i ∈ o.live) || o.uses.any fun u => u.2 = i

/-- Closes objects one after the other. -/
def releaseAll (o : Objects) (l : List Nat) : Objects := l.foldl release o

/-- What is open belongs to one of the groups, and is used in its group only. -/
structure Holding (o : Objects) (groups : List (List Nat)) : Prop where
  live : o.live.Perm groups.flatten
  nodup : o.live.Nodup
  below : ∀ i ∈ o.live, i < o.next
  sorted : ∀ l ∈ groups, l.Pairwise (· > ·)
  inside : ∀ u ∈ o.uses, u.2 < u.1 ∧ ∃ l ∈ groups, u.1 ∈ l ∧ u.2 ∈ l
  proper : o.misused = false

namespace Holding

variable {o : Objects} {groups groups' : List (List Nat)} {l : List Nat} {i : Nat}

/-- With nothing open, no group holds anything. -/
theorem empty : Holding Objects.empty [] where
  live := .nil
  nodup := .nil
  below i h := by cases h
  sorted l h := by cases h
  inside u h := by cases h
  proper := rfl

/-- The order of the owners does not matter. -/
theorem perm (h : Holding o groups) (hperm : groups.Perm groups') : Holding o groups' where
  live := h.live.trans hperm.flatten
  nodup := h.nodup
  below := h.below
  sorted l hl := h.sorted l (hperm.mem_iff.mpr hl)
  inside u hu := by
    obtain ⟨hlt, l, hl, hin⟩ := h.inside u hu
    exact ⟨hlt, l, hperm.mem_iff.mp hl, hin⟩
  proper := h.proper

/-- An owner that has nothing may as well not be there. -/
theorem cons_nil_iff : Holding o ([] :: groups) ↔ Holding o groups := by
  constructor
  · intro h
    refine ⟨h.live, h.nodup, h.below, fun l hl => h.sorted l (List.mem_cons_of_mem _ hl),
      fun u hu => ?_, h.proper⟩
    obtain ⟨hlt, l, hl, hin⟩ := h.inside u hu
    rcases List.mem_cons.mp hl with rfl | hl
    · cases hin.1
    · exact ⟨hlt, l, hl, hin⟩
  · intro h
    refine ⟨h.live, h.nodup, h.below, fun l hl => ?_, fun u hu => ?_, h.proper⟩
    · rcases List.mem_cons.mp hl with rfl | hl
      · exact .nil
      · exact h.sorted l hl
    · obtain ⟨hlt, l, hl, hin⟩ := h.inside u hu
      exact ⟨hlt, l, List.mem_cons_of_mem _ hl, hin⟩

/-- What a group holds is open. -/
theorem mem_live (h : Holding o (l :: groups)) (hi : i ∈ l) : i ∈ o.live :=
  h.live.mem_iff.mpr (List.mem_append_left _ hi)

/-- The owner of an object is one. -/
theorem group_eq (h : Holding o (l :: groups)) (hi : i ∈ l) {l' : List Nat} (hl' : l' ∈ l :: groups)
    (hi' : i ∈ l') : l' = l := by
  rcases List.mem_cons.mp hl' with rfl | hmem
  · rfl
  · have hnodup := h.live.nodup_iff.mp h.nodup
    rw [List.flatten_cons, List.nodup_append] at hnodup
    exact absurd rfl (hnodup.2.2 i hi i (List.mem_flatten_of_mem hmem hi'))

/-- A call on open objects changes nothing. -/
theorem visit (h : Holding o (l :: groups)) {used : List Nat} (hused : used ⊆ l) :
    o.visit used = o := by
  have hopen : (used.all fun i => decide (i ∈ o.live)) = true :=
    List.all_eq_true.mpr fun i hi => decide_eq_true (h.mem_live (hused hi))
  simp only [Objects.visit, hopen, Bool.not_true, Bool.or_false]

/-- What is opened is held by the group of what it is opened on. -/
theorem acquire (h : Holding o (l :: groups)) {on : List Nat} (hon : on ⊆ l) :
    Holding (o.acquire on) ((o.next :: l) :: groups) where
  live := h.live.cons o.next
  nodup := List.nodup_cons.mpr ⟨fun hmem => Nat.lt_irrefl _ (h.below _ hmem), h.nodup⟩
  below i hi := by
    rcases List.mem_cons.mp hi with rfl | hold
    · exact Nat.lt_succ_self _
    · exact Nat.lt_succ_of_lt (h.below i hold)
  sorted l' hl' := by
    rcases List.mem_cons.mp hl' with rfl | hold
    · exact List.pairwise_cons.mpr
        ⟨fun i hi => h.below i (h.mem_live hi), h.sorted l List.mem_cons_self⟩
    · exact h.sorted l' (List.mem_cons_of_mem _ hold)
  inside u hu := by
    rcases List.mem_append.mp hu with hnew | hold
    · obtain ⟨i, hi, rfl⟩ := List.mem_map.mp hnew
      exact ⟨h.below i (h.mem_live (hon hi)), _, List.mem_cons_self, List.mem_cons_self,
        List.mem_cons_of_mem _ (hon hi)⟩
    · obtain ⟨hlt, l', hl', hin⟩ := h.inside u hold
      rcases List.mem_cons.mp hl' with rfl | hl'
      · exact ⟨hlt, _, List.mem_cons_self, List.mem_cons_of_mem _ hin.1,
          List.mem_cons_of_mem _ hin.2⟩
      · exact ⟨hlt, l', List.mem_cons_of_mem _ hl', hin⟩
  proper := by
    have hopen : (on.all fun i => decide (i ∈ o.live)) = true :=
      List.all_eq_true.mpr fun i hi => decide_eq_true (h.mem_live (hon hi))
    simp only [Objects.acquire, h.proper, hopen, Bool.not_true, Bool.or_false]

/-- The latest object of an owner is bound to an earlier one. -/
theorem bind (h : Holding o ((i :: l) :: groups)) {used : Nat} (hused : used ∈ l) :
    Holding (o.bind i used) ((i :: l) :: groups) where
  live := h.live
  nodup := h.nodup
  below := h.below
  sorted := h.sorted
  inside u hu := by
    rcases List.mem_cons.mp hu with rfl | hold
    · exact ⟨(List.pairwise_cons.mp (h.sorted _ List.mem_cons_self)).1 used hused, _,
        List.mem_cons_self, List.mem_cons_self, List.mem_cons_of_mem _ hused⟩
    · exact h.inside u hold
  proper := by
    have huser := h.mem_live (List.mem_cons_self (a := i))
    have hopen := h.mem_live (List.mem_cons_of_mem i hused)
    simp only [Objects.bind, h.proper, huser, hopen, decide_true, Bool.and_self, Bool.not_true,
      Bool.or_false]

/-- Nothing uses the latest object of an owner. -/
theorem unused (h : Holding o ((i :: l) :: groups)) {u : Nat × Nat} (hu : u ∈ o.uses) :
    u.2 ≠ i := by
  rintro rfl
  obtain ⟨hlt, l', hl', huser, hused⟩ := h.inside u hu
  obtain rfl := h.group_eq List.mem_cons_self hl' hused
  rcases List.mem_cons.mp huser with heq | hlater
  · omega
  · have hgt := (List.pairwise_cons.mp (h.sorted _ List.mem_cons_self)).1 u.1 hlater
    omega

/-- The last object of a group can be closed: nothing open was opened on it. -/
theorem release (h : Holding o ((i :: l) :: groups)) : Holding (o.release i) (l :: groups) where
  live := by
    have hperm := h.live.erase i
    rwa [List.flatten_cons, List.cons_append, List.erase_cons_head] at hperm
  nodup := h.nodup.erase i
  below j hj := h.below j (List.mem_of_mem_erase hj)
  sorted l' hl' := by
    rcases List.mem_cons.mp hl' with rfl | hold
    · exact (List.pairwise_cons.mp (h.sorted _ List.mem_cons_self)).2
    · exact h.sorted l' (List.mem_cons_of_mem _ hold)
  inside u hu := by
    obtain ⟨hmem, hne⟩ := List.mem_filter.mp hu
    obtain ⟨hlt, l', hl', hin⟩ := h.inside u hmem
    rcases List.mem_cons.mp hl' with rfl | hl'
    · exact ⟨hlt, l, List.mem_cons_self, List.mem_of_ne_of_mem (of_decide_eq_true hne) hin.1,
        List.mem_of_ne_of_mem (h.unused hmem) hin.2⟩
    · exact ⟨hlt, l', List.mem_cons_of_mem _ hl', hin⟩
  proper := by
    have hopen := h.mem_live (List.mem_cons_self (a := i))
    have hunused : (o.uses.any fun u => decide (u.2 = i)) = false :=
      List.any_eq_false.mpr fun u hu => by simpa using h.unused hu
    simp only [Objects.release, h.proper, hopen, hunused, decide_true, Bool.not_true, Bool.or_self]

/-- An owner closes all that it has, latest first. -/
theorem releaseAll (h : Holding o (l :: groups)) : Holding (o.releaseAll l) groups := by
  induction l generalizing o with
  | nil => exact cons_nil_iff.mp h
  | cons i l ih => exact ih h.release

end Holding

end Objects

end Vdma.Lib
