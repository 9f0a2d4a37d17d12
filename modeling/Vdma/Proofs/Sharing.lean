import Vdma.Fabric.Sharing

/-!
# `Vdma.Proofs.Sharing`: what one section does to the registry

`Call.step_cases` says what a section of a call does: it leaves the registry and
the registrations alone, it registers an extent, or it tracks the extent that was
registered before. `dropRegion_cases` and `ret_cases` do the same for the two
other events with branches. The invariants of the machine rest on these three and
never look into a call.

`Named` is the first of them: a tracked extent is the extent its registration was
made with, so the entry of a registration says which bytes it pins.
-/

set_option autoImplicit false

namespace Vdma.Fabric

open Vdma.Lib

namespace Cache

variable (c : Cache)

/-- A dropped lease leaves the registry. -/
@[simp] theorem registry_dropLease (lease : Option Nat) :
    (c.dropLease lease).registry = c.registry := rfl

/-- It leaves the arena's cells. -/
@[simp] theorem cells_dropLease (lease : Option Nat) :
    (c.dropLease lease).handles.cells = c.handles.cells :=
  Handles.cells_dropOption c.handles lease

/-- A lookup leaves the registry. -/
@[simp] theorem registry_covering (start stop : Nat) (domain : Domain) :
    (c.covering start stop domain).1.registry = c.registry := by
  unfold covering
  split <;> rfl

/-- It makes no registration. -/
@[simp] theorem cells_covering (start stop : Nat) (domain : Domain) :
    (c.covering start stop domain).1.handles.cells = c.handles.cells := by
  unfold covering
  split <;> rfl

/-- It answers what the registry has. -/
theorem covering_snd (start stop : Nat) (domain : Domain) :
    (c.covering start stop domain).2 = c.registry.covering start stop domain := by
  unfold covering
  split <;> simp [*]

end Cache

/-- The registry and the registrations are as before. The counts may differ. -/
def SameExtents (c c' : Cache) : Prop :=
  c'.registry = c.registry ∧ c'.handles.cells = c.handles.cells

/-- A cache has the same extents as itself. -/
theorem SameExtents.refl (c : Cache) : SameExtents c c := ⟨rfl, rfl⟩

/-- What a section of a call does to the cache, and what the call then has left to
track. -/
theorem Call.step_cases {lib : Libfabric} {c c' : Cache} {call call' : Call}
    {answer : RegionAnswer} (h : call.step lib c answer = some (c', call')) :
    (SameExtents c c' ∧ call'.untracked = none
      ∧ (call.pinned = call'.pinned ∨ call'.pinned = none)) ∨
    (∃ reg, c' = c.register reg.domain reg.base reg.limit ∧ call'.pinned = none ∧
      (call'.untracked = none ∨ call'.untracked = some (reg, c.handles.next))) ∨
    (∃ reg r, call.untracked = some (reg, r) ∧ call'.untracked = none ∧
      c' = (c.track reg.base reg.limit reg.domain r).1 ∧
      ∀ region, call'.pinned = some region →
        region = ⟨reg.domain, reg.base, reg.limit⟩) := by
  cases call with
  | idle => cases h
  | operand domain call =>
    simp only [step, Option.map_eq_some_iff, Prod.mk.injEq, Prod.exists] at h
    obtain ⟨c₁, next, hstep, rfl, rfl⟩ := h
    cases call with
    | lookup start stop =>
      -- A hit clones a lease. Nothing else in the cache changes.
      left
      cases answer <;> simp only [OperandCall.step, reduceCtorEq] at hstep
      have hextents := Cache.registry_covering c start stop domain
      have hcells := Cache.cells_covering c start stop domain
      split at hstep
      all_goals
        next hcov =>
          rw [hcov] at hextents hcells
          cases hstep
          exact ⟨⟨hextents, hcells⟩, rfl, .inr rfl⟩
    | ask start stop =>
      left
      cases answer <;> simp only [OperandCall.step, reduceCtorEq] at hstep
      split at hstep <;> cases hstep <;> exact ⟨.refl _, rfl, .inr rfl⟩
    | register start stop base limit cacheable =>
      cases answer <;> simp only [OperandCall.step, reduceCtorEq] at hstep
      split at hstep <;> cases hstep
      · right; left
        refine ⟨⟨domain, base, limit⟩, rfl, rfl, ?_⟩
        cases cacheable
        · exact .inl rfl
        · exact .inr rfl
      · left
        split <;> exact ⟨.refl _, rfl, .inr rfl⟩
    | track base limit lease =>
      right; right
      cases answer <;> simp only [OperandCall.step, reduceCtorEq] at hstep
      cases hstep
      exact ⟨⟨domain, base, limit⟩, lease, rfl, rfl, rfl, by intro _ h; cases h⟩
    | superseded replaced lease =>
      left
      cases answer <;> simp only [OperandCall.step, reduceCtorEq] at hstep
      cases hstep
      exact ⟨⟨by simp, by simp⟩, rfl, .inr rfl⟩
    | done operand => cases answer <;> cases hstep
    | failed error => cases answer <;> cases hstep
  | pin region call =>
    simp only [step, Option.map_eq_some_iff, Prod.mk.injEq, Prod.exists] at h
    obtain ⟨c₁, next, hstep, rfl, rfl⟩ := h
    cases call with
    | register =>
      cases answer <;> simp only [PinCall.step, reduceCtorEq] at hstep
      split at hstep <;> cases hstep
      · right; left
        exact ⟨⟨region.domain, region.base, region.limit⟩, rfl, rfl, .inr rfl⟩
      · exact .inl ⟨.refl _, rfl, .inr rfl⟩
    | track lease =>
      right; right
      cases answer <;> simp only [PinCall.step, reduceCtorEq] at hstep
      cases hstep
      refine ⟨⟨region.domain, region.base, region.limit⟩, lease, rfl, rfl, rfl, ?_⟩
      intro region' h
      exact (Option.some.inj h).symm
    | superseded replaced lease =>
      left
      cases answer <;> simp only [PinCall.step, reduceCtorEq] at hstep
      cases hstep
      exact ⟨⟨by simp, by simp⟩, rfl, .inl rfl⟩
    | release lease =>
      left
      cases answer <;> simp only [PinCall.step, reduceCtorEq] at hstep
      cases hstep
      exact ⟨⟨by simp, by simp⟩, rfl, .inl rfl⟩
    | done result => cases answer <;> cases hstep

namespace Shared

variable {s s' : Shared}

/-- The drop of a clone. The last one retires the range of its region. -/
theorem dropRegion_cases {i : Nat} (h : s.dropRegion i = some s') :
    ∃ region, s.regions.cells[i]? = some region ∧
      ((s.regions.strong i = 1 ∧
          s' = { s with regions := s.regions.drop i }.invalidate region.base region.limit) ∨
        (1 < s.regions.strong i ∧ s' = { s with regions := s.regions.drop i })) := by
  unfold dropRegion at h
  split at h
  · cases h
  · next region hregion =>
    refine ⟨region, hregion, ?_⟩
    split at h
    · cases h
    · next hzero =>
      dsimp only at h
      by_cases hone : s.regions.strong i = 1
      · rw [if_pos hone] at h
        exact .inl ⟨hone, (Option.some.inj h).symm⟩
      · rw [if_neg hone] at h
        exact .inr ⟨by omega, (Option.some.inj h).symm⟩

/-- A return leaves the thread idle. Only a region that was pinned comes out. -/
theorem ret_cases {thread : Nat} (h : s.ret thread = some s') :
    s'.cache = s.cache ∧ s'.closed = s.closed ∧ s'.invalidations = s.invalidations ∧
      s'.calls = Function.update s.calls thread .idle ∧
      (s'.regions = s.regions ∨
        ∃ region, (s.calls thread).pinned = some region ∧
          s'.regions = s.regions.new region) := by
  unfold ret at h
  split at h
  · cases h
    exact ⟨rfl, rfl, rfl, rfl, .inl rfl⟩
  · cases h
    exact ⟨rfl, rfl, rfl, rfl, .inl rfl⟩
  · next region hcall =>
    cases h
    exact ⟨rfl, rfl, rfl, rfl, .inr ⟨region, by rw [hcall]; rfl, rfl⟩⟩
  · cases h
    exact ⟨rfl, rfl, rfl, rfl, .inl rfl⟩
  · cases h

/-- The range an event takes out of the registry. -/
def retires (s : Shared) : Event → Option (Nat × Nat)
  | .invalidate start stop => some (start, stop)
  | .dropRegion i =>
    if s.regions.strong i = 1 then
      (s.regions.cells[i]?).map fun region => (region.base, region.limit)
    else none
  | _ => none

/-- What no thread has tracked yet stays so when one thread moves to a call with
nothing to track. -/
theorem untracked_update {call : Call} (hcall : call.untracked = none) {thread t : Nat}
    {found : Registration × Nat}
    (h : (Function.update s.calls thread call t).untracked = some found) :
    (s.calls t).untracked = some found := by
  by_cases ht : t = thread
  · subst ht
    rw [Function.update_self, hcall] at h
    cases h
  · rwa [Function.update_of_ne ht] at h

/-- A call that has just begun has nothing to track. -/
theorem untracked_operand (domain : Domain) (requires : Bool) (pointer length : Nat) :
    (Call.operand domain (if requires then .begin pointer length else .done .null)).untracked
      = none := by
  unfold OperandCall.begin
  split
  · split <;> rfl
  · rfl

/-- A pin that begins has nothing registered yet. -/
theorem untracked_pin (region : Region) (requires : Bool) (base length : Nat) :
    (Call.pin region (if requires then .begin base length else .done (.ok ()))).untracked
      = none := by
  unfold PinCall.begin
  split
  · split <;> rfl
  · rfl

end Shared

/-- Invalidating only takes extents away. -/
theorem entry_of_invalidate {c : Cache} {start stop : Nat} {domain : Domain} {base : Nat}
    {e : RegionEntry}
    (h : (c.invalidate start stop).1.registry.entry domain base = some e) :
    c.registry.entry domain base = some e ∧ overlaps start stop base e = false := by
  have hfilter : (c.registry.entry domain base).filter (fun e => !overlaps start stop base e)
      = some e := by
    rw [← Registry.entry_invalidate]
    exact h
  rw [Option.filter_eq_some_iff] at hfilter
  exact ⟨hfilter.1, by simpa using hfilter.2⟩

/-- The extents and the untracked calls after an event are among those of before.
A new invalidation leaves no extent it overlaps. -/
structure Shrinks (s : Shared) (e : Event) (s' : Shared) : Prop where
  cells : s'.cache.handles.cells = s.cache.handles.cells
  entry : ∀ domain base x, s'.cache.registry.entry domain base = some x →
    s.cache.registry.entry domain base = some x
  untracked : ∀ t found, (s'.calls t).untracked = some found → (s.calls t).untracked = some found
  invalidations : s'.invalidations = s.invalidations ∨
    ∃ start stop, s.retires e = some (start, stop) ∧
      s'.invalidations = ⟨start, stop, s.cache.handles.next⟩ :: s.invalidations ∧
      ∀ domain base x, s'.cache.registry.entry domain base = some x →
        overlaps start stop base x = false

/-- An event that keeps the registry shrinks nothing. -/
private theorem Shrinks.of_same {s s' : Shared} {e : Event} (hsame : SameExtents s.cache s'.cache)
    (hcalls : ∀ t found, (s'.calls t).untracked = some found →
      (s.calls t).untracked = some found)
    (hinvalidations : s'.invalidations = s.invalidations) : Shrinks s e s' where
  cells := hsame.2
  entry domain base x h := by rwa [hsame.1] at h
  untracked := hcalls
  invalidations := .inl hinvalidations

/-- Every event shrinks the extents, registers one, or tracks one. -/
theorem Shared.step_cases {lib : Libfabric} {requiresLocalMr : Domain → Bool} {s s' : Shared}
    {e : Event} (h : s.step lib requiresLocalMr e = some s') :
    Shrinks s e s' ∨
    (∃ thread call reg,
      s' = { s.setCall thread call with
        cache := s.cache.register reg.domain reg.base reg.limit } ∧
      (call.untracked = none ∨ call.untracked = some (reg, s.cache.handles.next))) ∨
    (∃ thread answer call reg r, e = .step thread answer ∧
      (s.calls thread).untracked = some (reg, r) ∧ call.untracked = none ∧
      s' = { s.setCall thread call with
        cache := (s.cache.track reg.base reg.limit reg.domain r).1 }) := by
  -- Only a thread's own section registers or tracks; every other event shrinks or keeps.
  cases e with
  | operand thread domain pointer length =>
    left
    simp only [step] at h
    split at h <;> cases h
    exact .of_same (.refl _) (fun t found => untracked_update (untracked_operand ..)) rfl
  | register thread domain base length =>
    left
    simp only [step] at h
    split at h <;> cases h
    · exact .of_same (.refl _) (fun t found => untracked_update (untracked_pin ..)) rfl
    · exact .of_same (.refl _) (fun t found h => h) rfl
  | step thread answer =>
    simp only [step, Option.map_eq_some_iff, Prod.exists] at h
    obtain ⟨c, call, hcall, rfl⟩ := h
    -- The thread's section did nothing of the kind, registered, or tracked.
    rcases Call.step_cases hcall with ⟨hsame, hnone, -⟩ | ⟨reg, rfl, -, hcall⟩ |
      ⟨reg, r, htrack, hnone, rfl, -⟩
    · exact .inl (.of_same hsame (fun t found => untracked_update hnone) rfl)
    · exact .inr (.inl ⟨thread, call, reg, rfl, hcall⟩)
    · exact .inr (.inr ⟨thread, answer, call, reg, r, rfl, htrack, hnone, rfl⟩)
  | ret thread =>
    left
    obtain ⟨hcache, -, hinvalidations, hcalls, -⟩ := ret_cases h
    refine .of_same (hcache ▸ .refl _) (fun t found hfound => ?_) hinvalidations
    rw [hcalls] at hfound
    exact untracked_update rfl hfound
  | cloneRegion i =>
    left
    simp only [step] at h
    split at h <;> cases h
    exact .of_same (.refl _) (fun t found h => h) rfl
  | dropRegion i =>
    left
    obtain ⟨region, hregion, ⟨hone, rfl⟩ | ⟨-, rfl⟩⟩ := dropRegion_cases h
    · -- The last clone: the region's range is retired.
      refine ⟨rfl, fun domain base x hx => (entry_of_invalidate hx).1, fun t found h => h,
        .inr ⟨region.base, region.limit, ?_, rfl, fun domain base x hx =>
          (entry_of_invalidate hx).2⟩⟩
      simp [retires, hone, hregion]
    · -- What overlaps the range is gone from the index.
      exact .of_same (.refl _) (fun t found h => h) rfl
  | invalidate start stop =>
    left
    cases h
    exact ⟨rfl, fun domain base x hx => (entry_of_invalidate hx).1, fun t found h => h,
      .inr ⟨start, stop, rfl, rfl, fun domain base x hx => (entry_of_invalidate hx).2⟩⟩
  | dropRetired lease =>
    left
    simp only [step] at h
    split at h <;> cases h
    exact .of_same ⟨by simp, by simp⟩ (fun t found h => h) rfl
  | dropLease lease =>
    left
    simp only [step] at h
    split at h <;> cases h
    exact .of_same ⟨by simp, by simp⟩ (fun t found h => h) rfl
  | closeDomain domain =>
    left
    cases h
    refine ⟨rfl, fun domain' base x hx => ?_, fun t found h => h, .inl rfl⟩
    -- Clearing a domain takes entries away, and adds none.
    have hclear := Registry.entry_clearDomain s.cache.registry domain domain' base
    change (s.cache.registry.clearDomain domain).1.entry domain' base = some x at hx
    rw [hclear] at hx
    split at hx
    · cases hx
    · exact hx

/-! ### Entries carry the range of their registration -/

namespace Cache

/-- Every tracked extent is the one its registration was made with. -/
def Named (c : Cache) : Prop :=
  ∀ domain base e, c.registry.entry domain base = some e →
    c.handles.cells[e.registration]? = some ⟨domain, base, e.limit⟩

/-- A registration keeps the range it was made with. -/
theorem cells_register {c : Cache} (domain : Domain) (base limit : Nat) {i : Nat}
    {reg : Registration} (h : c.handles.cells[i]? = some reg) :
    (c.register domain base limit).handles.cells[i]? = some reg := by
  have hlt : i < c.handles.next := by
    by_contra hge
    rw [List.getElem?_eq_none (by simpa [Handles.next] using hge)] at h
    cases h
  rw [← h]
  exact Handles.getElem?_cells_new_of_lt c.handles _ hlt

namespace Named

variable {c c' : Cache}

/-- Taking extents away renames none. -/
theorem of_subset (h : c.Named) (hcells : c'.handles.cells = c.handles.cells)
    (hentry : ∀ domain base e, c'.registry.entry domain base = some e →
      c.registry.entry domain base = some e) : c'.Named := by
  intro domain base e he
  rw [hcells]
  exact h domain base e (hentry domain base e he)

/-- The same extents are named as before. -/
theorem of_same (h : c.Named) (hsame : SameExtents c c') : c'.Named :=
  h.of_subset hsame.2 fun domain base e he => by rwa [hsame.1] at he

/-- Opening a registration leaves the extents named. -/
theorem register (h : c.Named) (domain : Domain) (base limit : Nat) :
    (c.register domain base limit).Named := by
  intro domain' base' e he
  exact cells_register domain base limit (h domain' base' e he)

/-- A tracked extent gets the range of its registration. -/
theorem track (h : c.Named) {base limit : Nat} {domain : Domain} {r : Nat}
    (hr : c.handles.cells[r]? = some ⟨domain, base, limit⟩) :
    (c.track base limit domain r).1.Named := by
  intro domain' base' e he
  change (c.registry.track base limit domain r).1.entry domain' base' = some e at he
  show c.handles.cells[e.registration]? = some ⟨domain', base', e.limit⟩
  rw [Registry.entry_track] at he
  split at he
  · next hat =>
    obtain ⟨rfl, rfl⟩ := hat
    cases he
    exact hr
  · exact h domain' base' e he

end Named

end Cache

namespace Shared

/-- Every tracked extent, and every extent about to be tracked, is the one its
registration was made with. -/
structure Named (s : Shared) : Prop where
  entry : s.cache.Named
  untracked : ∀ t reg r, (s.calls t).untracked = some (reg, r) →
    s.cache.handles.cells[r]? = some reg

/-- At the start there is no extent. -/
theorem named_start : Shared.start.Named where
  entry domain base e h := by cases h
  untracked t reg r h := by cases h

/-- Every step keeps the extents named by their registrations. -/
theorem named_step {lib : Libfabric} {requiresLocalMr : Domain → Bool} {s s' : Shared} {e : Event}
    (h : s.step lib requiresLocalMr e = some s') (hs : s.Named) : s'.Named := by
  rcases step_cases h with hshrink | ⟨thread, call, reg, rfl, hcall⟩ |
    ⟨thread, answer, call, reg, r, -, htrack, hnone, rfl⟩
  · refine ⟨hs.entry.of_subset hshrink.cells hshrink.entry, fun t reg r hr => ?_⟩
    rw [hshrink.cells]
    exact hs.untracked t reg r (hshrink.untracked t _ hr)
  · refine ⟨hs.entry.register reg.domain reg.base reg.limit, fun t reg' r hr => ?_⟩
    change (Function.update s.calls thread call t).untracked = some (reg', r) at hr
    by_cases ht : t = thread
    · -- The thread that registered names the new registration.
      subst ht
      rw [Function.update_self] at hr
      rcases hcall with hcall | hcall
      · rw [hcall] at hr
        cases hr
      · rw [hcall] at hr
        cases hr
        exact Handles.getElem?_cells_new ..
    · rw [Function.update_of_ne ht] at hr
      exact Cache.cells_register _ _ _ (hs.untracked t reg' r hr)
  · refine ⟨hs.entry.track (hs.untracked thread reg r htrack), fun t reg' r' hr => ?_⟩
    exact hs.untracked t reg' r' (untracked_update hnone hr)

/-- In every run the entry of a registration says which bytes it pins. -/
theorem named_reach {lib : Libfabric} {requiresLocalMr : Domain → Bool}
    {ok : Shared → Event → Prop} {s : Shared} (h : (sharing lib requiresLocalMr).Reach ok s) :
    s.Named := by
  refine h.invariant (I := Named) ?_ ?_
  · rintro s rfl
    exact named_start
  · intro s e s' _ hstep hs
    exact named_step hstep hs

end Shared

end Vdma.Fabric
