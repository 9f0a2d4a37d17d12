import Mathlib.Data.List.Perm.Subperm
import Vdma.Fabric.Asynchronous

/-!
# `Vdma.Proofs.Asynchronous`: no wake-up and no context is lost

A context has one life: it is in flight, then it is in the cell, and from there it is
returned by a poll or dropped with the cell. `Stage` says which, and each stage fixes what
the polls have returned so far. `Counted` counts the references to the cell, so that the
last one to go finds the context if no poll has taken it. `Kept` follows the clones that
the cell was given.

`transfer_awaited` puts them together. What happens after a delivery is stated over the
runs that go on from it.
-/

set_option autoImplicit false

namespace Vdma.Fabric

open Vdma.Lib

variable {W T Task : Type}

/-- The references a `Transfer` holds. -/
def Holder.references : Holder → Nat
  | .gone => 0
  | _ => 1

namespace Delivery

/-- The references a completion holds. -/
def references : Delivery W T → Nat
  | .inFlight _ => 1
  | .stored _ => 1
  | _ => 0

/-- The context, while the completion has it. -/
def carried : Delivery W T → List T
  | .inFlight user => [user]
  | _ => []

/-- The waker that `deliver` is about to wake. -/
def taken : Delivery W T → List (Stored W)
  | .stored waker => waker.toList
  | .released waker => waker.toList
  | _ => []

end Delivery

/-- The context that ended. -/
def End.user : End T → T
  | .returned user => user
  | .dropped user => user

/-- Polls that came before the delivery. -/
def Before (polls : List (Polled W T)) : Prop :=
  ∀ p ∈ polls, p.delivered = false ∧ p.result = none

/-- A poll that finds nothing adds to the polls before the delivery. -/
theorem Before.concat {polls : List (Polled W T)} (h : Before polls) (waker : W) :
    Before (polls ++ [⟨waker, false, none⟩]) := by
  intro p hp
  rcases List.mem_append.mp hp with hold | hnew
  · exact h p hold
  · rw [List.mem_singleton.mp hnew]
    exact ⟨rfl, rfl⟩

namespace Awaiting

variable {wakers : Wakers W Task} {outcome : Outcome} {user : T} {s s' : Awaiting W T}
  {e : AwaitEvent W}

/-! ### The references -/

/-- Each reference to the cell is counted. -/
def Counted (s : Awaiting W T) : Prop :=
  s.strong = s.holder.references + s.delivery.references

/-- A reference less is counted. -/
theorem strong_dropReference (s : Awaiting W T) : s.dropReference.strong = s.strong - 1 := by
  unfold dropReference
  split
  · next hone => rw [hone]
  · rfl

/-- Dropping a reference leaves the holder's end. -/
@[simp] theorem holder_dropReference (s : Awaiting W T) : s.dropReference.holder = s.holder := by
  unfold dropReference
  split <;> rfl

/-- Dropping a reference leaves the delivery. -/
@[simp] theorem delivery_dropReference (s : Awaiting W T) :
    s.dropReference.delivery = s.delivery := by
  unfold dropReference
  split <;> rfl

/-- Dropping a reference leaves the polls. -/
@[simp] theorem polls_dropReference (s : Awaiting W T) : s.dropReference.polls = s.polls := by
  unfold dropReference
  split <;> rfl

/-- Every step keeps the count of references. -/
theorem Counted.step (h : s.Counted) (hstep : s.step wakers outcome e = some s') :
    s'.Counted := by
  unfold Counted at h ⊢
  cases e with
  | poll waker =>
    -- A poll moves no reference.
    simp only [Awaiting.step] at hstep
    split at hstep
    · cases hstep
      unfold poll keepWaker
      split
      · exact h
      · split
        · split <;> exact h
        · exact h
    · cases hstep
  | drop =>
    simp only [Awaiting.step] at hstep
    split at hstep
    · next hheld =>
      cases hstep
      rw [hheld] at h
      exact h
    · cases hstep
  | release =>
    simp only [Awaiting.step] at hstep
    split at hstep
    · next hcleared =>
      cases hstep
      show s.dropReference.strong = 0 + s.dropReference.delivery.references
      rw [hcleared] at h
      rw [strong_dropReference, delivery_dropReference, h]
      simp only [Holder.references]
      omega
    · cases hstep
  | deliver =>
    simp only [Awaiting.step] at hstep
    split at hstep
    · next user hdelivery =>
      cases hstep
      rw [hdelivery] at h
      exact h
    · cases hstep
  | dropCell =>
    simp only [Awaiting.step] at hstep
    split at hstep
    · next waker hdelivery =>
      cases hstep
      show s.dropReference.strong = s.dropReference.holder.references + 0
      rw [hdelivery] at h
      rw [strong_dropReference, holder_dropReference, h]
      rfl
    · cases hstep
  | wake =>
    simp only [Awaiting.step] at hstep
    split at hstep
    · next waker hdelivery =>
      cases hstep
      rw [hdelivery] at h
      exact h
    · cases hstep

/-! ### The life of the context -/

/-- Where the context is, and what the polls have returned by then. -/
inductive Stage (outcome : Outcome) (user : T) (s : Awaiting W T) : Prop
  | inFlight (hdelivery : s.delivery = .inFlight user) (hcell : s.cell.outcome = none)
      (hended : s.ended = []) (hpolls : Before s.polls)
  | stored (hdelivery : s.isDelivered = true) (hcell : s.cell.outcome = some (outcome, user))
      (hended : s.ended = []) (hpolls : Before s.polls) (hstrong : s.strong ≠ 0)
  | returned (hdelivery : s.isDelivered = true) (hcell : s.cell.outcome = none)
      (hended : s.ended = [.returned user]) (before : List (Polled W T)) (waker : W)
      (rest : List (Polled W T))
      (hpolls : s.polls = before ++ ⟨waker, true, some (outcome, user)⟩ :: rest)
      (hbefore : Before before) (hrest : ∀ p ∈ rest, p.delivered = true ∧ p.result = none)
  | dropped (hdelivery : s.isDelivered = true) (hcell : s.cell.outcome = none)
      (hended : s.ended = [.dropped user]) (hpolls : Before s.polls) (hgone : s.holder = .gone)

/-- The completion of a context in flight is not delivered. -/
theorem isDelivered_of_inFlight (h : s.delivery = .inFlight user) : s.isDelivered = false := by
  rw [isDelivered, h]

/-- A move that touches neither the context nor the polls. -/
theorem Stage.of_same (h : Stage outcome user s) (hcell : s'.cell.outcome = s.cell.outcome)
    (hdelivered : s'.isDelivered = s.isDelivered)
    (hdelivery : s.isDelivered = false → s'.delivery = s.delivery) (hended : s'.ended = s.ended)
    (hpolls : s'.polls = s.polls) (hstrong : s'.strong = s.strong)
    (hgone : s.holder = .gone → s'.holder = .gone) : Stage outcome user s' := by
  cases h with
  | inFlight hin hnone hnot hbefore =>
    exact .inFlight ((hdelivery (isDelivered_of_inFlight hin)).trans hin) (hcell.trans hnone)
      (hended.trans hnot) (by rwa [hpolls])
  | stored hold hsome hnot hbefore hpos =>
    exact .stored (hdelivered.trans hold) (hcell.trans hsome) (hended.trans hnot)
      (by rwa [hpolls]) (by rwa [hstrong])
  | returned hold hnone hend before waker rest hsplit hbefore hrest =>
    exact .returned (hdelivered.trans hold) (hcell.trans hnone) (hended.trans hend) before waker
      rest (hpolls.trans hsplit) hbefore hrest
  | dropped hold hnone hend hbefore hholder =>
    exact .dropped (hdelivered.trans hold) (hcell.trans hnone) (hended.trans hend)
      (by rwa [hpolls]) (hgone hholder)

/-- A reference that is not the last one goes. -/
theorem Stage.of_shared (h : Stage outcome user s) (hshared : 1 < s.strong)
    (hstrong : s'.strong = s.strong - 1) (hcell : s'.cell = s.cell)
    (hdelivered : s'.isDelivered = s.isDelivered)
    (hdelivery : s.isDelivered = false → s'.delivery = s.delivery) (hended : s'.ended = s.ended)
    (hpolls : s'.polls = s.polls) (hgone : s.holder = .gone → s'.holder = .gone) :
    Stage outcome user s' := by
  have hsame : Stage outcome user { s' with strong := s.strong } :=
    h.of_same (by rw [← hcell]) hdelivered hdelivery hended hpolls rfl hgone
  cases hsame with
  | inFlight hin hnone hnot hbefore => exact .inFlight hin hnone hnot hbefore
  | stored hold hsome hnot hbefore hpos =>
    refine .stored hold hsome hnot hbefore ?_
    rw [hstrong]
    omega
  | returned hold hnone hend before waker rest hsplit hbefore hrest =>
    exact .returned hold hnone hend before waker rest hsplit hbefore hrest
  | dropped hold hnone hend hbefore hholder => exact .dropped hold hnone hend hbefore hholder

/-- The last reference goes. The context goes with it if no poll has taken it. -/
theorem Stage.of_last (h : Stage outcome user s) (hdelivered : s.isDelivered = true)
    (hdelivered' : s'.isDelivered = true) (hcell : s'.cell = ⟨none, none⟩)
    (hended : s'.ended
      = s.ended ++ s.cell.outcome.toList.map fun finished => .dropped finished.2)
    (hpolls : s'.polls = s.polls) (hgone : s'.holder = .gone) : Stage outcome user s' := by
  have hnone : s'.cell.outcome = none := by rw [hcell]
  cases h with
  | inFlight hin =>
    rw [isDelivered_of_inFlight hin] at hdelivered
    cases hdelivered
  | stored _ hsome hnot hbefore hpos =>
    refine .dropped hdelivered' hnone ?_ (by rwa [hpolls]) hgone
    rw [hended, hnot, hsome]
    rfl
  | returned _ hempty hend before waker rest hsplit hbefore hrest =>
    refine .returned hdelivered' hnone ?_ before waker rest (hpolls.trans hsplit) hbefore hrest
    rw [hended, hend, hempty]
    rfl
  | dropped _ hempty hend hbefore =>
    refine .dropped hdelivered' hnone ?_ (by rwa [hpolls]) hgone
    rw [hended, hend, hempty]
    rfl

/-- A poll returns the outcome if it is the first one to find it, and is pending otherwise. -/
theorem Stage.poll (h : Stage outcome user s) (hheld : s.holder = .held) (waker : W) :
    Stage outcome user (s.poll wakers waker) := by
  have hkeep : (s.keepWaker wakers waker).cell.outcome = s.cell.outcome ∧
      (s.keepWaker wakers waker).delivery = s.delivery ∧
      (s.keepWaker wakers waker).ended = s.ended ∧
      (s.keepWaker wakers waker).strong = s.strong := by
    unfold keepWaker
    split
    · split <;> exact ⟨rfl, rfl, rfl, rfl⟩
    · exact ⟨rfl, rfl, rfl, rfl⟩
  obtain ⟨hcell, hdelivery, hend, hstrong⟩ := hkeep
  cases h with
  | inFlight hin hnone hnot hbefore =>
    rw [Awaiting.poll, hnone]
    refine .inFlight (hdelivery.trans hin) (hcell.trans hnone) (hend.trans hnot) ?_
    show Before (s.polls ++ [⟨waker, s.isDelivered, none⟩])
    rw [isDelivered_of_inFlight hin]
    exact hbefore.concat waker
  | stored hold hsome hnot hbefore hpos =>
    -- The first poll after the delivery.
    rw [Awaiting.poll, hsome]
    refine .returned hold rfl ?_ s.polls waker [] ?_ hbefore nofun
    · show s.ended ++ _ = _
      rw [hnot]
      rfl
    · show s.polls ++ [⟨waker, s.isDelivered, _⟩] = _
      rw [hold]
  | returned hold hnone hended before first rest hsplit hbefore hrest =>
    rw [Awaiting.poll, hnone]
    refine .returned ?_ (hcell.trans hnone) (hend.trans hended) before first
      (rest ++ [⟨waker, true, none⟩]) ?_ hbefore fun p hp => ?_
    · rw [isDelivered, show _ = s.delivery from hdelivery]
      exact hold
    · show s.polls ++ [⟨waker, s.isDelivered, none⟩] = _
      rw [hold, hsplit, List.append_assoc, List.cons_append]
    · rcases List.mem_append.mp hp with hp | hp
      · exact hrest p hp
      · rw [List.mem_singleton.mp hp]
        exact ⟨rfl, rfl⟩
  | dropped hold hnone hended hbefore hgone =>
    rw [hheld] at hgone
    cases hgone

/-- Every move keeps the context in its life. -/
theorem Stage.step (h : Stage outcome user s) (hcounted : s.Counted)
    (hstep : s.step wakers outcome e = some s') : Stage outcome user s' := by
  cases e with
  | poll waker =>
    simp only [Awaiting.step] at hstep
    split at hstep
    · next hheld =>
      cases hstep
      exact h.poll hheld waker
    · cases hstep
  | drop =>
    simp only [Awaiting.step] at hstep
    split at hstep
    · next hheld =>
      cases hstep
      -- The outcome and the polls stay: only the holder changes.
      refine h.of_same rfl rfl (fun _ => rfl) rfl rfl rfl fun hgone => ?_
      rw [hheld] at hgone
      cases hgone
    · cases hstep
  | release =>
    simp only [Awaiting.step] at hstep
    split at hstep
    · next hcleared =>
      cases hstep
      rw [Counted, hcleared] at hcounted
      simp only [Holder.references] at hcounted
      by_cases hone : s.strong = 1
      · -- The completion has let go of the cell.
        have hdelivered : s.isDelivered = true := by
          cases hdelivery : s.delivery with
          | inFlight user =>
            rw [hdelivery] at hcounted
            simp only [Delivery.references] at hcounted
            omega
          | _ => rw [isDelivered, hdelivery]
        rw [dropReference, if_pos hone]
        exact h.of_last hdelivered hdelivered rfl rfl rfl rfl
      · rw [dropReference, if_neg hone]
        exact h.of_shared (by omega) rfl rfl rfl (fun _ => rfl) rfl rfl fun _ => rfl
    · cases hstep
  | deliver =>
    simp only [Awaiting.step] at hstep
    split at hstep
    · next user' hdelivery =>
      cases hstep
      have hpos : s.strong ≠ 0 := by
        rw [Counted, hdelivery] at hcounted
        simp only [Delivery.references] at hcounted
        omega
      -- Only before the delivery is there something to deliver.
      cases h with
      | inFlight hin hnone hnot hbefore =>
        rw [hin] at hdelivery
        cases hdelivery
        exact .stored rfl rfl hnot hbefore hpos
      | stored hold =>
        rw [isDelivered_of_inFlight hdelivery] at hold
        cases hold
      | returned hold =>
        rw [isDelivered_of_inFlight hdelivery] at hold
        cases hold
      | dropped hold =>
        rw [isDelivered_of_inFlight hdelivery] at hold
        cases hold
    · cases hstep
  | dropCell =>
    simp only [Awaiting.step] at hstep
    split at hstep
    · next waker hdelivery =>
      cases hstep
      have hdelivered : s.isDelivered = true := by rw [isDelivered, hdelivery]
      rw [Counted, hdelivery] at hcounted
      simp only [Delivery.references] at hcounted
      by_cases hone : s.strong = 1
      · -- The `Transfer` has let go of the cell.
        have hgone : s.holder = .gone := by
          cases hholder : s.holder with
          | gone => rfl
          | _ =>
            rw [hholder] at hcounted
            simp only [Holder.references] at hcounted
            omega
        rw [dropReference, if_pos hone]
        exact h.of_last hdelivered rfl rfl rfl rfl hgone
      · rw [dropReference, if_neg hone]
        refine h.of_shared (by omega) rfl rfl hdelivered.symm (fun hnot => ?_) rfl rfl fun h => h
        rw [hdelivered] at hnot
        cases hnot
    · cases hstep
  | wake =>
    simp only [Awaiting.step] at hstep
    split at hstep
    · next waker hdelivery =>
      cases hstep
      have hdelivered : s.isDelivered = true := by rw [isDelivered, hdelivery]
      -- The waker that is woken was taken already, so no stage looks at it.
      refine h.of_same rfl hdelivered.symm (fun hnot => ?_) rfl rfl rfl fun h => h
      rw [hdelivered] at hnot
      cases hnot
    · cases hstep

/-! ### The wakers -/

/-- The clones that are somewhere. -/
def stored (s : Awaiting W T) : List (Stored W) :=
  s.cell.waker.toList ++ (s.delivery.taken ++ (s.woken ++ s.cleared))

/-- The cell keeps a clone for the latest poll, while there is a delivery to come and a
`Transfer` to poll. No clone is in two places. -/
structure Kept (wakers : Wakers W Task) (s : Awaiting W T) : Prop where
  latest : s.holder = .held → s.isDelivered = false → ∀ p, s.polls.getLast? = some p →
    ∃ w, s.cell.waker = some w ∧ wakers.Equivalent w.waker p.waker
  unpolled : s.polls = [] → s.cell.waker = none
  unheld : s.holder ≠ .held → s.cell.waker = none
  asleep : s.delivery ≠ .done → s.woken = []
  apart : (s.stored.map Stored.age).Nodup
  aged : ∀ w ∈ s.stored, w.age < s.clones

/-- A move that brings no clone, and takes none from the cell before the delivery. -/
theorem Kept.of_subperm (h : s.Kept wakers) (hclones : s'.clones = s.clones)
    (hstored : s'.stored.Subperm s.stored)
    (hlatest : s'.holder = .held → s'.isDelivered = false → s'.polls = s.polls ∧
      s'.cell.waker = s.cell.waker ∧ s.holder = .held ∧ s.isDelivered = false)
    (hunpolled : s'.polls = [] → s'.cell.waker = none)
    (hunheld : s'.holder ≠ .held → s'.cell.waker = none)
    (hasleep : s'.delivery ≠ .done → s'.woken = []) : s'.Kept wakers where
  latest hheld hundelivered p hp := by
    obtain ⟨hpolls, hwaker, hheld', hundelivered'⟩ := hlatest hheld hundelivered
    rw [hpolls] at hp
    rw [hwaker]
    exact h.latest hheld' hundelivered' p hp
  unpolled := hunpolled
  unheld := hunheld
  asleep := hasleep
  apart := by
    obtain ⟨l, hperm, hsub⟩ := hstored
    exact (hperm.map Stored.age).nodup_iff.mp ((hsub.map Stored.age).nodup h.apart)
  aged w hw := by
    rw [hclones]
    exact h.aged w (hstored.subset hw)

/-- A reference to the cell goes. -/
theorem stored_dropReference (s : Awaiting W T) {holder : Holder} {delivery : Delivery W T}
    (htaken : delivery.taken = s.delivery.taken) :
    ({ s.dropReference with holder := holder, delivery := delivery } : Awaiting W T).stored.Subperm
      s.stored := by
  unfold dropReference stored
  split
  · -- The cell goes, with the clone it kept.
    show ([] ++ (delivery.taken ++ (s.woken ++ s.cleared))).Subperm _
    rw [htaken]
    exact (List.sublist_append_right _ _).subperm
  · show (s.cell.waker.toList ++ (delivery.taken ++ (s.woken ++ s.cleared))).Subperm _
    rw [htaken]

/-- A cell without a waker has none after a reference is dropped. -/
theorem waker_dropReference (h : s.cell.waker = none) : s.dropReference.cell.waker = none := by
  unfold dropReference
  split
  · rfl
  · exact h

/-- Dropping a reference wakes nobody. -/
theorem woken_dropReference (s : Awaiting W T) : s.dropReference.woken = s.woken := by
  unfold dropReference
  split <;> rfl

/-- Dropping a reference clones no waker. -/
theorem clones_dropReference (s : Awaiting W T) : s.dropReference.clones = s.clones := by
  unfold dropReference
  split <;> rfl

/-- A new clone is apart from the others. -/
theorem apart_cons {rest : List (Stored W)} {clones : Nat} (waker : W)
    (hapart : (rest.map Stored.age).Nodup) (haged : ∀ w ∈ rest, w.age < clones) :
    ((⟨clones, waker⟩ :: rest).map Stored.age).Nodup ∧
      ∀ w ∈ (⟨clones, waker⟩ :: rest : List (Stored W)), w.age < clones + 1 := by
  refine ⟨List.nodup_cons.mpr ⟨fun hmem => ?_, hapart⟩, fun w hw => ?_⟩
  · obtain ⟨w, hw, hage⟩ := List.mem_map.mp hmem
    have hlt := haged w hw
    rw [hage] at hlt
    exact Nat.lt_irrefl _ hlt
  · rcases List.mem_cons.mp hw with rfl | hrest
    · exact Nat.lt_succ_self _
    · exact Nat.lt_succ_of_lt (haged w hrest)

/-- After a pending poll the cell keeps a clone of its waker, unless one that wakes it is there. -/
theorem Kept.keepWaker (h : s.Kept wakers) (waker : W) :
    (∃ w, (s.keepWaker wakers waker).cell.waker = some w ∧ wakers.Equivalent w.waker waker) ∧
      ((s.keepWaker wakers waker).stored.map Stored.age).Nodup ∧
      ∀ w ∈ (s.keepWaker wakers waker).stored, w.age < (s.keepWaker wakers waker).clones := by
  have hapart := h.apart
  have haged := h.aged
  unfold Awaiting.keepWaker
  cases hkept : s.cell.waker with
  | some kept =>
    dsimp only
    split
    · -- The clone that is there wakes this waker too.
      next hwakes => exact ⟨⟨kept, hkept, .inl hwakes⟩, hapart, haged⟩
    · simp only [stored, hkept, Option.toList_some, List.singleton_append, List.map_cons]
        at hapart haged
      exact ⟨⟨_, rfl, .inr rfl⟩, apart_cons _ (List.nodup_cons.mp hapart).2
        fun w hw => haged w (List.mem_cons_of_mem _ hw)⟩
  | none =>
    simp only [stored, hkept, Option.toList_none, List.nil_append] at hapart haged
    exact ⟨⟨_, rfl, .inr rfl⟩, apart_cons _ hapart haged⟩

/-- Keeping a waker changes only the cell and the clones. -/
theorem keepWaker_same (wakers : Wakers W Task) (s : Awaiting W T) (waker : W) :
    (s.keepWaker wakers waker).delivery = s.delivery ∧
      (s.keepWaker wakers waker).woken = s.woken ∧
      (s.keepWaker wakers waker).holder = s.holder := by
  unfold Awaiting.keepWaker
  split
  · split <;> exact ⟨rfl, rfl, rfl⟩
  · exact ⟨rfl, rfl, rfl⟩

/-- A poll keeps the wakers in order: it keeps the one it was given, or returns. -/
theorem Kept.poll (h : s.Kept wakers) (hstage : Stage outcome user s) (hheld : s.holder = .held)
    (waker : W) : (s.poll wakers waker).Kept wakers := by
  have hnonempty : ∀ p : Polled W T, s.polls ++ [p] ≠ [] := fun p =>
    List.append_ne_nil_of_right_ne_nil _ (List.cons_ne_nil _ _)
  unfold Awaiting.poll
  cases hcell : s.cell.outcome with
  | some finished =>
    have hdelivered : s.isDelivered = true := by
      cases hstage with
      | inFlight _ hnone =>
        rw [hnone] at hcell
        cases hcell
      | stored hold => exact hold
      | returned hold => exact hold
      | dropped hold => exact hold
    -- A poll that returns takes the outcome and keeps no waker.
    refine h.of_subperm rfl (List.Subperm.refl _) (fun _ hundelivered => ?_)
      (fun hnil => absurd hnil (hnonempty _)) (fun hnot => absurd hheld hnot) h.asleep
    have hfalse : s.isDelivered = false := hundelivered
    rw [hdelivered] at hfalse
    cases hfalse
  | none =>
    obtain ⟨⟨w, hw, hequivalent⟩, hapart, haged⟩ := h.keepWaker waker
    obtain ⟨hdelivery, hwoken, hholder⟩ := keepWaker_same wakers s waker
    refine ⟨fun _ _ p hp => ⟨w, hw, ?_⟩, fun hnil => absurd hnil (hnonempty _),
      fun hnot => absurd (hholder.trans hheld) hnot, fun hdone => ?_, hapart, haged⟩
    · -- This poll is the latest.
      have hlast : (s.polls ++ [(⟨waker, s.isDelivered, none⟩ : Polled W T)]).getLast? = some p :=
        hp
      rw [List.getLast?_concat] at hlast
      cases hlast
      exact hequivalent
    · exact hwoken.trans (h.asleep fun h => hdone (hdelivery.trans h))

/-- Every move keeps the clones apart and the latest one in the cell. -/
theorem Kept.step (h : s.Kept wakers) (hstage : Stage outcome user s)
    (hstep : s.step wakers outcome e = some s') : s'.Kept wakers := by
  cases e with
  | poll waker =>
    simp only [Awaiting.step] at hstep
    split at hstep
    · next hheld =>
      cases hstep
      exact h.poll hstage hheld waker
    · cases hstep
  | drop =>
    simp only [Awaiting.step] at hstep
    split at hstep
    · next hheld =>
      cases hstep
      refine h.of_subperm rfl ?_ nofun (fun _ => rfl) (fun _ => rfl) h.asleep
      -- The clone goes from the cell to those that were cleared.
      show ([] ++ (s.delivery.taken ++ (s.woken ++ (s.cleared ++ s.cell.waker.toList)))).Subperm _
      rw [List.nil_append, ← List.append_assoc s.woken, ← List.append_assoc s.delivery.taken]
      exact List.perm_append_comm.subperm
    · cases hstep
  | release =>
    simp only [Awaiting.step] at hstep
    split at hstep
    · next hcleared =>
      cases hstep
      have hnone := h.unheld (by rw [hcleared]; nofun)
      refine h.of_subperm s.clones_dropReference (s.stored_dropReference (by simp)) nofun
        (fun _ => waker_dropReference hnone) (fun _ => waker_dropReference hnone) fun hdone => ?_
      show s.dropReference.woken = []
      rw [woken_dropReference]
      refine h.asleep fun hold => hdone ?_
      show s.dropReference.delivery = .done
      rw [delivery_dropReference, hold]
    · cases hstep
  | deliver =>
    simp only [Awaiting.step] at hstep
    split at hstep
    · next user' hdelivery =>
      cases hstep
      refine h.of_subperm rfl ?_ nofun (fun _ => rfl) (fun _ => rfl) fun _ =>
        h.asleep (by rw [hdelivery]; nofun)
      -- The clone goes from the cell to the thread that delivers.
      show (s.cell.waker.toList ++ (s.woken ++ s.cleared)).Subperm
        (s.cell.waker.toList ++ (s.delivery.taken ++ (s.woken ++ s.cleared)))
      rw [hdelivery]
      exact List.Subperm.refl _
    · cases hstep
  | dropCell =>
    simp only [Awaiting.step] at hstep
    split at hstep
    · next waker hdelivery =>
      cases hstep
      have hwaker : s.cell.waker = none → s.dropReference.cell.waker = none := waker_dropReference
      refine h.of_subperm s.clones_dropReference (s.stored_dropReference (by rw [hdelivery]; rfl))
        nofun (fun hnil => hwaker (h.unpolled ?_)) (fun hnot => hwaker (h.unheld ?_)) fun _ => ?_
      · rwa [← s.polls_dropReference]
      · rwa [← s.holder_dropReference]
      · show s.dropReference.woken = []
        rw [woken_dropReference]
        exact h.asleep (by rw [hdelivery]; nofun)
    · cases hstep
  | wake =>
    simp only [Awaiting.step] at hstep
    split at hstep
    · next waker hdelivery =>
      cases hstep
      refine h.of_subperm rfl ?_ nofun h.unpolled h.unheld fun hdone => absurd rfl hdone
      -- The clone goes from the thread that delivers to those that were woken.
      show (s.cell.waker.toList ++ ([] ++ ((s.woken ++ waker.toList) ++ s.cleared))).Subperm
        (s.cell.waker.toList ++ (s.delivery.taken ++ (s.woken ++ s.cleared)))
      rw [hdelivery, List.nil_append, List.append_assoc]
      show (s.cell.waker.toList ++ (s.woken ++ (waker.toList ++ s.cleared))).Subperm
        (s.cell.waker.toList ++ (waker.toList ++ (s.woken ++ s.cleared)))
      rw [← List.append_assoc s.woken, ← List.append_assoc waker.toList]
      exact ((List.perm_append_comm.append_right _).append_left _).subperm
    · cases hstep

/-! ### Runs -/

/-- What holds of a transfer in every state. -/
structure Sound (wakers : Wakers W Task) (outcome : Outcome) (user : T) (s : Awaiting W T) :
    Prop where
  counted : s.Counted
  stage : Stage outcome user s
  kept : s.Kept wakers

/-- In every run all of this holds. -/
theorem sound_reach {request : TransferRequest T} {ok : Awaiting W T → AwaitEvent W → Prop}
    (h : (awaiting wakers outcome request).Reach ok s) :
    Sound wakers outcome request.callerContext s := by
  refine h.invariant (I := Sound wakers outcome request.callerContext) ?_ ?_
  · intro s hinit
    have hstart : Awaiting.transfer request (fun _ => true) = .ok s := hinit
    cases hstart
    refine ⟨rfl, .inFlight rfl rfl rfl nofun, ?_⟩
    exact ⟨fun _ _ _ => nofun, fun _ => rfl, fun _ => rfl, fun _ => rfl, List.nodup_nil, nofun⟩
  · intro s e s' _ hstep hs
    exact ⟨hs.counted.step hstep, hs.stage.step hs.counted hstep, hs.kept.step hs.stage hstep⟩

/-- After the delivery the waker that was taken stays with the thread that delivers, until it is
woken. -/
theorem Sound.taken_step (h : Sound wakers outcome user s) (hdelivered : s.isDelivered = true)
    (hstep : s.step wakers outcome e = some s') :
    s'.isDelivered = true ∧ s'.delivery.taken ++ s'.woken = s.delivery.taken ++ s.woken := by
  cases e with
  | poll waker =>
    simp only [Awaiting.step] at hstep
    split at hstep
    · cases hstep
      obtain ⟨hdelivery, hwoken, -⟩ := keepWaker_same wakers s waker
      -- A poll leaves what the delivery took, and wakes nobody.
      unfold Awaiting.poll
      split
      · exact ⟨hdelivered, rfl⟩
      · rw [isDelivered]
        show (match (s.keepWaker wakers waker).delivery with
            | .inFlight _ => false
            | _ => true) = true ∧
          (s.keepWaker wakers waker).delivery.taken ++ (s.keepWaker wakers waker).woken = _
        rw [hdelivery, hwoken]
        exact ⟨hdelivered, rfl⟩
    · cases hstep
  | drop =>
    simp only [Awaiting.step] at hstep
    split at hstep
    · cases hstep
      exact ⟨hdelivered, rfl⟩
    · cases hstep
  | release =>
    simp only [Awaiting.step] at hstep
    split at hstep
    · cases hstep
      rw [isDelivered]
      show (match s.dropReference.delivery with
          | .inFlight _ => false
          | _ => true) = true ∧ s.dropReference.delivery.taken ++ s.dropReference.woken = _
      rw [delivery_dropReference, woken_dropReference]
      exact ⟨hdelivered, rfl⟩
    · cases hstep
  | deliver =>
    simp only [Awaiting.step] at hstep
    split at hstep
    · next user' hdelivery =>
      -- What was delivered is not delivered again.
      rw [isDelivered_of_inFlight hdelivery] at hdelivered
      cases hdelivered
    · cases hstep
  | dropCell =>
    simp only [Awaiting.step] at hstep
    split at hstep
    · next waker hdelivery =>
      cases hstep
      refine ⟨rfl, ?_⟩
      -- The waker that the delivery took stays with it until it is woken.
      show waker.toList ++ s.dropReference.woken = _
      rw [woken_dropReference, hdelivery]
      rfl
    · cases hstep
  | wake =>
    simp only [Awaiting.step] at hstep
    split at hstep
    · next waker hdelivery =>
      cases hstep
      refine ⟨rfl, ?_⟩
      -- Nobody was woken before, so this is the only wake-up.
      have hasleep := h.kept.asleep (by simp [hdelivery])
      show [] ++ (s.woken ++ waker.toList) = _
      rw [hdelivery, hasleep]
      show waker.toList = waker.toList ++ []
      rw [List.append_nil]
    · cases hstep

/-- The waker taken at a delivery is woken once, at the end of it. -/
theorem taken_reach {request : TransferRequest T} {s₁ : Awaiting W T}
    {ok : Awaiting W T → AwaitEvent W → Prop}
    (h₁ : (awaiting wakers outcome request).Reachable s₁) (hdelivered : s₁.isDelivered = true)
    (h : ((awaiting wakers outcome request).startingAt s₁).Reach ok s) :
    s.isDelivered = true ∧ s.delivery.taken ++ s.woken = s₁.delivery.taken ++ s₁.woken := by
  refine h.invariant_given (J := Sound wakers outcome request.callerContext)
    (I := fun s => s.isDelivered = true ∧
      s.delivery.taken ++ s.woken = s₁.delivery.taken ++ s₁.woken)
    (fun s hs => sound_reach (Machine.Reach.of_startingAt h₁ hs)) ?_ ?_
  · intro s hinit
    rw [show s = s₁ from hinit]
    exact ⟨hdelivered, rfl⟩
  · intro s e s' hs _ _ hstep hI
    obtain ⟨hdelivered', htaken⟩ := hs.taken_step hI.1 hstep
    exact ⟨hdelivered', htaken.trans hI.2⟩

/-! ### The parts of the contract -/

/-- A refused request comes back as it was. -/
theorem transfer_refused {request refused : TransferRequest T}
    {submit : TransferRequest (Awaited W T) → Bool}
    (h : Awaiting.transfer request submit = .error refused) : refused = request := by
  unfold Awaiting.transfer at h
  dsimp only at h
  split at h
  · cases h
  · cases h
    rfl

/-- The polls before the delivery are pending, and one behind it returns the context. -/
theorem Stage.polls_split (h : Stage outcome user s) :
    ∃ before after : List (Polled W T), s.polls = before ++ after ∧
      (∀ p ∈ before, p.delivered = false ∧ p.result = none) ∧
      (∀ p ∈ after, p.delivered = true) ∧
      (after = [] ∨ ∃ waker rest, after = ⟨waker, true, some (outcome, user)⟩ :: rest ∧
        ∀ p ∈ rest, p.result = none) := by
  have hpending : Before s.polls → ∃ before after : List (Polled W T), s.polls = before ++ after ∧
      (∀ p ∈ before, p.delivered = false ∧ p.result = none) ∧
      (∀ p ∈ after, p.delivered = true) ∧
      (after = [] ∨ ∃ waker rest, after = ⟨waker, true, some (outcome, user)⟩ :: rest ∧
        ∀ p ∈ rest, p.result = none) :=
    fun hbefore => ⟨s.polls, [], by simp, hbefore, by simp, .inl rfl⟩
  cases h with
  | inFlight _ _ _ hbefore => exact hpending hbefore
  | stored _ _ _ hbefore => exact hpending hbefore
  | dropped _ _ _ hbefore => exact hpending hbefore
  | returned _ _ _ before waker rest hsplit hbefore hrest =>
    refine ⟨before, _, hsplit, hbefore, ?_, .inr ⟨waker, rest, rfl, fun p hp => (hrest p hp).2⟩⟩
    intro p hp
    rcases List.mem_cons.mp hp with rfl | hp
    · rfl
    · exact (hrest p hp).1

/-- A completion that has delivered carries no context. -/
theorem carried_of_isDelivered (h : s.isDelivered = true) : s.delivery.carried = [] := by
  cases hdelivery : s.delivery with
  | inFlight user =>
    rw [isDelivered_of_inFlight hdelivery] at h
    cases h
  | _ => rfl

/-- The context is in one place. -/
theorem Stage.contexts (h : Stage outcome user s) :
    s.delivery.carried ++ s.cell.outcome.toList.map Prod.snd ++ s.ended.map End.user = [user] := by
  cases h with
  | inFlight hin hnone hended =>
    rw [hin, hnone, hended]
    rfl
  | stored hdelivered hsome hended =>
    rw [carried_of_isDelivered hdelivered, hsome, hended]
    rfl
  | returned hdelivered hnone hended =>
    rw [carried_of_isDelivered hdelivered, hnone, hended]
    rfl
  | dropped hdelivered hnone hended =>
    rw [carried_of_isDelivered hdelivered, hnone, hended]
    rfl

/-- The context has ended once nobody refers to the cell. -/
theorem Sound.ended (h : Sound wakers outcome user s) (hgone : s.holder = .gone)
    (hdone : s.delivery = .done) : s.ended.map End.user = [user] := by
  have hcounted : s.Counted := h.counted
  rw [Counted, hgone, hdone] at hcounted
  cases h.stage with
  | inFlight hin =>
    rw [hin] at hdone
    cases hdone
  | stored _ _ _ _ hpos => exact absurd hcounted hpos
  | returned _ _ hended =>
    rw [hended]
    rfl
  | dropped _ _ hended =>
    rw [hended]
    rfl

/-- A clone is in one place, so one that was cleared is not woken. -/
theorem Kept.cleared_apart (h : s.Kept wakers) {w : Stored W} (hw : w ∈ s.cleared) :
    w ∉ s.woken ∧ w ∉ s.delivery.taken := by
  have hapart : (((s.delivery.taken ++ s.woken) ++ s.cleared).map Stored.age).Nodup := by
    rw [List.append_assoc]
    exact ((List.sublist_append_right _ _).map Stored.age).nodup h.apart
  rw [List.map_append, List.nodup_append] at hapart
  have hne : ∀ w' ∈ s.delivery.taken ++ s.woken, w'.age ≠ w.age := by
    intro w' hw'
    exact hapart.2.2 _ (List.mem_map_of_mem hw') _ (List.mem_map_of_mem hw)
  constructor
  · intro hwoken
    exact hne w (List.mem_append_right _ hwoken) rfl
  · intro htaken
    exact hne w (List.mem_append_left _ htaken) rfl

/-- The delivery takes the waker out of the cell. -/
theorem deliver_cases (h : s.step wakers outcome .deliver = some s') :
    s.isDelivered = false ∧ s.delivery ≠ .done ∧ s'.isDelivered = true ∧
      s'.delivery.taken ++ s'.woken = s.cell.waker.toList ++ s.woken := by
  simp only [Awaiting.step] at h
  split at h
  · next user hdelivery =>
    cases h
    exact ⟨isDelivered_of_inFlight hdelivery, by simp [hdelivery], rfl, rfl⟩
  · cases h

/-- The last act of a delivery wakes the waker it took. By then its own reference is
gone. -/
theorem Sound.wake (h : Sound wakers outcome user s)
    (hstep : s.step wakers outcome .wake = some s') :
    s.strong = s.holder.references ∧ s'.woken = s.delivery.taken ++ s.woken := by
  simp only [Awaiting.step] at hstep
  split at hstep
  · next waker hreleased =>
    cases hstep
    have hcounted : s.Counted := h.counted
    rw [Counted, hreleased] at hcounted
    have hasleep : s.woken = [] := h.kept.asleep (by simp [hreleased])
    refine ⟨hcounted, ?_⟩
    show s.woken ++ waker.toList = _
    rw [hreleased, hasleep]
    show waker.toList = waker.toList ++ []
    rw [List.append_nil]
  · cases hstep

end Awaiting

/-- An equivalent waker wakes the same task. -/
theorem Wakers.Equivalent.task {wakers : Wakers W Task} {w' w : W}
    (h : wakers.Equivalent w' w) : wakers.task w' = wakers.task w := by
  rcases h with hwakes | rfl
  · exact wakers.task_of_willWake w' w hwakes
  · exact wakers.task_clone w

/-- Awaiting a transfer loses no wake-up and no context. A refused request comes back as it was.
In every state the polls before the delivery are pending, the first one after it returns the
outcome with the context, and the ones behind that are pending. The context is in one place: with
the completion, in the cell, or returned or dropped, and one of the last two once nobody refers to
the cell. A waker that the drop of the `Transfer` cleared is not woken. A delivery with the
`Transfer` still there takes a waker of the task that polled last, drops its own reference, wakes
that waker, and wakes nothing else. -/
theorem transfer_awaited (wakers : Wakers W Task) (outcome : Outcome)
    (request : TransferRequest T) :
    (∀ (submit : TransferRequest (Awaited W T) → Bool) (refused : TransferRequest T),
      Awaiting.transfer request submit = .error refused → refused = request) ∧
    (∀ s, (awaiting wakers outcome request).Reachable s →
      (∃ before after : List (Polled W T), s.polls = before ++ after ∧
        (∀ p ∈ before, p.delivered = false ∧ p.result = none) ∧
        (∀ p ∈ after, p.delivered = true) ∧
        (after = [] ∨ ∃ waker rest,
          after = ⟨waker, true, some (outcome, request.callerContext)⟩ :: rest ∧
            ∀ p ∈ rest, p.result = none)) ∧
      s.delivery.carried ++ s.cell.outcome.toList.map Prod.snd ++ s.ended.map End.user
        = [request.callerContext] ∧
      (s.holder = .gone → s.delivery = .done → s.ended.map End.user = [request.callerContext]) ∧
      ∀ w ∈ s.cleared, w ∉ s.woken ∧ w ∉ s.delivery.taken) ∧
    ∀ s s₁, (awaiting wakers outcome request).Reachable s →
      (awaiting wakers outcome request).step s .deliver = some s₁ →
      ∃ taken : Option (Stored W),
        (s.holder = .held → ∀ p, s.polls.getLast? = some p → ∃ w, taken = some w ∧
          wakers.Equivalent w.waker p.waker ∧ wakers.task w.waker = wakers.task p.waker) ∧
        (s.holder ≠ .held ∨ s.polls = [] → taken = none) ∧
        ∀ t, ((awaiting wakers outcome request).startingAt s₁).Reachable t →
          (t.delivery ≠ .done → t.woken = []) ∧ (t.delivery = .done → t.woken = taken.toList) ∧
          ∀ t', (awaiting wakers outcome request).step t .wake = some t' →
            t.strong = t.holder.references ∧ t'.woken = taken.toList := by
  refine ⟨fun submit refused hrefused => Awaiting.transfer_refused hrefused, ?_, ?_⟩
  · intro s h
    have hs := Awaiting.sound_reach h
    exact ⟨hs.stage.polls_split, hs.stage.contexts, hs.ended, fun w hw => hs.kept.cleared_apart hw⟩
  · intro s s₁ h hstep
    have hs := Awaiting.sound_reach h
    have h₁ := h.step trivial hstep
    -- The waker that the cell kept is the one that the delivery takes.
    change s.step wakers outcome .deliver = some s₁ at hstep
    obtain ⟨hnot, hdone, hdelivered, htaken₁⟩ := Awaiting.deliver_cases hstep
    refine ⟨s.cell.waker, ?_, ?_, ?_⟩
    · intro hheld p hp
      obtain ⟨w, hw, hequivalent⟩ := hs.kept.latest hheld hnot p hp
      exact ⟨w, hw, hequivalent, hequivalent.task⟩
    · intro hnone
      rcases hnone with hdropped | hunpolled
      · exact hs.kept.unheld hdropped
      · exact hs.kept.unpolled hunpolled
    · intro t ht
      have ht' := Awaiting.sound_reach (Machine.Reach.of_startingAt h₁ ht)
      obtain ⟨-, htaken⟩ := Awaiting.taken_reach h₁ hdelivered ht
      have hasleep : s.woken = [] := hs.kept.asleep hdone
      -- From the delivery on, what was taken and what was woken is that waker.
      rw [htaken₁, hasleep, List.append_nil] at htaken
      refine ⟨ht'.kept.asleep, ?_, ?_⟩
      · intro hdone
        rw [hdone] at htaken
        exact htaken
      · intro t' hwake
        obtain ⟨hstrong, hwoken⟩ := ht'.wake hwake
        exact ⟨hstrong, hwoken.trans htaken⟩

/-- An executor whose wakers are tasks. -/
def taskWakers : Wakers Nat Nat where
  task := id
  clone := id
  willWake w w' := w == w'
  task_clone _ := rfl
  task_of_willWake _ _ h := beq_iff_eq.mp h

/-- A request with a context that is a number. -/
def numbered : TransferRequest Nat := ⟨1, [], 9, 8192, .toPeer, false, 42⟩

/-- Polled by task 5 and then by task 6, the transfer is delivered. -/
def polledTwice : List (AwaitEvent Nat) := [.poll 5, .poll 6]

/-- The delivery wakes task 6, and its next poll gets the context back. -/
theorem transfer_awaited_woken :
    ∃ s s₁ t, (awaiting taskWakers (.ok ⟨64, none⟩) numbered).Reachable s ∧
      (awaiting taskWakers (.ok ⟨64, none⟩) numbered).step s .deliver = some s₁ ∧
      ((awaiting taskWakers (.ok ⟨64, none⟩) numbered).startingAt s₁).run s₁
        [.dropCell, .wake, .poll 6, .drop, .release] = some t ∧
      (∃ w, t.woken = [w] ∧ taskWakers.task w.waker = 6) ∧ t.ended.map End.user = [42] := by
  obtain ⟨start, s, s₁, t, hinit, hrun, hstep, hrun', hlast, hheld, hgone, hdone⟩ :
      ∃ start s s₁ t, (awaiting taskWakers (.ok ⟨64, none⟩) numbered).init start ∧
        (awaiting taskWakers (.ok ⟨64, none⟩) numbered).run start polledTwice = some s ∧
        (awaiting taskWakers (.ok ⟨64, none⟩) numbered).step s .deliver = some s₁ ∧
        ((awaiting taskWakers (.ok ⟨64, none⟩) numbered).startingAt s₁).run s₁
          [.dropCell, .wake, .poll 6, .drop, .release] = some t ∧
        s.polls.getLast? = some ⟨6, false, none⟩ ∧ s.holder = .held ∧ t.holder = .gone ∧
        t.delivery = .done :=
    ⟨_, _, _, _, rfl, rfl, rfl, rfl, rfl, rfl, rfl, rfl⟩
  have hreach := Machine.reach_run hinit _ hrun
  have hafter := Machine.reach_run (M := (awaiting taskWakers (.ok ⟨64, none⟩) numbered).startingAt
    s₁) rfl _ hrun'
  obtain ⟨-, hstates, hdeliveries⟩ := transfer_awaited taskWakers (.ok ⟨64, none⟩) numbered
  obtain ⟨taken, hlatest, -, hwakes⟩ := hdeliveries s s₁ hreach hstep
  obtain ⟨w, hw, -, htask⟩ := hlatest hheld _ hlast
  have hreach' := Machine.Reach.of_startingAt (hreach.step trivial hstep) hafter
  refine ⟨s, s₁, t, hreach, hstep, hrun', ⟨w, ?_, htask⟩, (hstates t hreach').2.2.1 hgone hdone⟩
  rw [(hwakes t hafter).2.1 hdone, hw]
  rfl

end Vdma.Fabric
