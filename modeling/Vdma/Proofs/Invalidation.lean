import Vdma.Proofs.Sharing

/-!
# `Vdma.Proofs.Invalidation`: no lookup finds a stale registration

A registration is stale when it was made before some `invalidate` and pins a byte
of that range. `invalidate` retires by overlap, so right after it no tracked extent
is stale. But a miss of `operand` holds no lock from `fi_mr_reg` to `track`. An
`invalidate` that runs in between does not find the extent, and the extent is
tracked afterwards.

The law holds in the runs where no range is retired between the two sections of an
extent it shares a byte with, `SparesUntracked`. The invariant is `Unstale`: it
speaks of the tracked extents and of those about to be tracked, so that `track`
keeps it.
-/

set_option autoImplicit false

namespace Vdma.Fabric

open Vdma.Lib

namespace Shared

/-- Made before a past `invalidate`, over a byte of its range. -/
def Stale (s : Shared) (r : Nat) : Prop :=
  ∃ v ∈ s.invalidations, r < v.before ∧
    ∃ reg, s.cache.handles.cells[r]? = some reg ∧ SharesByte v.start v.stop reg.base reg.limit

/-- The range an event retires shares no byte with an extent that is registered and
has yet to be tracked. -/
def SparesUntracked (s : Shared) (e : Event) : Prop :=
  ∀ start stop, s.retires e = some (start, stop) →
    ∀ t reg r, (s.calls t).untracked = some (reg, r) →
      ¬SharesByte start stop reg.base reg.limit

/-- No extent that is tracked, or about to be, is stale. -/
structure Unstale (s : Shared) : Prop where
  before_le : ∀ v ∈ s.invalidations, v.before ≤ s.cache.handles.next
  entry : ∀ v ∈ s.invalidations, ∀ domain base x,
    s.cache.registry.entry domain base = some x → x.registration < v.before →
      ¬SharesByte v.start v.stop base x.limit
  untracked : ∀ v ∈ s.invalidations, ∀ t reg r,
    (s.calls t).untracked = some (reg, r) → r < v.before →
      ¬SharesByte v.start v.stop reg.base reg.limit

/-- At the start nothing was invalidated. -/
theorem unstale_start : Shared.start.Unstale where
  before_le v h := by cases h
  entry v h := by cases h
  untracked v h := by cases h

/-- A step that spares what is yet to be tracked keeps stale extents out. -/
theorem unstale_step {lib : Libfabric} {requiresLocalMr : Domain → Bool} {s s' : Shared}
    {e : Event} (hok : s.SparesUntracked e) (h : s.step lib requiresLocalMr e = some s')
    (hs : s.Unstale) : s'.Unstale := by
  rcases step_cases h with hshrink | ⟨thread, call, reg, rfl, hcall⟩ |
    ⟨thread, answer, call, reg, r, -, htrack, hnone, rfl⟩
  · -- What shrinks the cache tracks nothing and registers nothing.
    have hnext : s'.cache.handles.next = s.cache.handles.next := by
      simp only [Handles.next, hshrink.cells]
    rcases hshrink.invalidations with hsame | ⟨start, stop, hretires, hnew, hclear⟩
    · refine ⟨fun v hv => ?_, fun v hv domain base x hx => ?_, fun v hv t reg r hr => ?_⟩
      all_goals rw [hsame] at hv
      · rw [hnext]
        exact hs.before_le v hv
      · exact hs.entry v hv domain base x (hshrink.entry domain base x hx)
      · exact hs.untracked v hv t reg r (hshrink.untracked t _ hr)
    · refine ⟨fun v hv => ?_, fun v hv domain base x hx hlt => ?_,
        fun v hv t reg r hr hlt => ?_⟩
      all_goals
        rw [hnew] at hv
        rcases List.mem_cons.mp hv with rfl | hv
      · exact Nat.le_of_eq hnext.symm
      · rw [hnext]
        exact hs.before_le v hv
      · -- What the new invalidation overlaps is no longer tracked.
        intro hshare
        have hover := overlaps_of_sharesByte hshare
        rw [hclear domain base x hx] at hover
        cases hover
      · exact hs.entry v hv domain base x (hshrink.entry domain base x hx) hlt
      · -- What is on its way to be tracked is spared by assumption.
        exact hok start stop hretires t reg r (hshrink.untracked t _ hr)
      · exact hs.untracked v hv t reg r (hshrink.untracked t _ hr) hlt
  · -- A registration is made, and is not tracked yet.
    refine ⟨fun v hv => ?_, fun v hv domain base x hx => hs.entry v hv domain base x hx,
      fun v hv t reg' r hr hlt => ?_⟩
    · exact Nat.le_trans (hs.before_le v hv) (by simp [Cache.register])
    · change (Function.update s.calls thread call t).untracked = some (reg', r) at hr
      by_cases ht : t = thread
      · -- The new registration is younger than every past invalidation.
        subst ht
        rw [Function.update_self] at hr
        rcases hcall with hcall | hcall
        · rw [hcall] at hr
          cases hr
        · rw [hcall] at hr
          cases hr
          have hle := hs.before_le v hv
          omega
      · rw [Function.update_of_ne ht] at hr
        exact hs.untracked v hv t reg' r hr hlt
  · -- The registration on its way is tracked, at its own base.
    refine ⟨hs.before_le, fun v hv domain base x hx hlt => ?_, fun v hv t reg' r' hr =>
      hs.untracked v hv t reg' r' (untracked_update hnone hr)⟩
    change (s.cache.registry.track reg.base reg.limit reg.domain r).1.entry domain base
      = some x at hx
    rw [Registry.entry_track] at hx
    split at hx
    · next hat =>
      obtain ⟨rfl, rfl⟩ := hat
      cases hx
      exact hs.untracked v hv thread reg r htrack hlt
    · exact hs.entry v hv domain base x hx hlt

end Shared

/-- In a run that retires no range between the registration and the tracking of an
extent sharing a byte with it, no lookup on any domain answers a stale
registration. -/
theorem covering_not_stale {lib : Libfabric} {requiresLocalMr : Domain → Bool} {s : Shared}
    (h : (sharing lib requiresLocalMr).Reach Shared.SparesUntracked s)
    {start stop : Nat} {domain : Domain} {r : Nat}
    (hr : (s.cache.covering start stop domain).2 = some r) : ¬s.Stale r := by
  have hnamed : s.Named := Shared.named_reach h
  have hunstale : s.Unstale := by
    refine h.invariant (I := Shared.Unstale) ?_ ?_
    · rintro s rfl
      exact Shared.unstale_start
    · intro s e s' hok hstep hs
      exact Shared.unstale_step hok hstep hs
  rw [Cache.covering_snd, Registry.covering_eq_some_iff] at hr
  obtain ⟨base, x, hlast, -, -, rfl⟩ := hr
  have hentry : s.cache.registry.entry domain base = some x := (lastAtOrBelow_eq_some hlast).1
  rintro ⟨v, hv, hlt, reg, hreg, hshare⟩
  -- The entry has the range of its registration, so it is the entry that is stale.
  rw [hnamed.entry domain base x hentry] at hreg
  cases hreg
  exact hunstale.entry v hv domain base x hentry hlt hshare

/-- A miss widened to `[4096, 8192)` in peace, then a reclaim below it. -/
def reclaimAfterMiss : List Event :=
  [.operand 0 7 4096 4, .step 0 .none, .step 0 (.span (some ⟨4096, 8192⟩)),
    .step 0 (.mrReg 0), .step 0 .none, .step 0 .none, .ret 0, .invalidate 0 4096]

/-- The second operand in the span is a hit, and the registration it gets is not
stale. -/
theorem covering_not_stale_hit :
    ∃ s, (sharing default fun _ => true).run Shared.start reclaimAfterMiss = some s ∧
      (s.cache.covering 4100 4104 7).2 = some 0 ∧ ¬s.Stale 0 := by
  have hobeys : (sharing default fun _ => true).Obeys Shared.SparesUntracked Shared.start
      reclaimAfterMiss := by
    refine .cons nofun rfl (.cons nofun rfl (.cons nofun rfl (.cons nofun rfl (.cons nofun rfl
      (.cons nofun rfl (.cons nofun rfl (.cons ?_ rfl trivial)))))))
    -- All threads are idle at the reclaim.
    intro start stop _ t reg r hr
    cases t with
    | zero => cases hr
    | succ t => cases hr
  obtain ⟨s, hrun, hcovering⟩ :
      ∃ s, (sharing default fun _ => true).run Shared.start reclaimAfterMiss = some s ∧
        (s.cache.covering 4100 4104 7).2 = some 0 := ⟨_, rfl, by decide +kernel⟩
  exact ⟨s, hrun, hcovering,
    covering_not_stale ((Machine.Reach.init rfl).run hobeys hrun) hcovering⟩

/-- A miss widened to `[4096, 8192)`, and its tail reclaimed between `fi_mr_reg` and
`track`. The reclaimed range does not meet the operand `[4096, 4100)`. -/
def reclaimDuringMiss : List Event :=
  [.operand 0 7 4096 4, .step 0 .none, .step 0 (.span (some ⟨4096, 8192⟩)),
    .step 0 (.mrReg 0), .invalidate 6000 8192, .step 0 .none, .step 0 .none, .ret 0]

/-- After that run the `invalidate` has returned, and an operand in the reclaimed
tail still finds the registration made before it. -/
theorem stale_covering :
    ∃ s, (sharing default fun _ => true).run Shared.start reclaimDuringMiss = some s ∧
      (sharing default fun _ => true).Reachable s ∧ s.retired = [] ∧
      (s.cache.covering 6000 6004 7).2 = some 0 ∧ s.Stale 0 := by
  refine ⟨_, rfl, Machine.reach_run rfl reclaimDuringMiss rfl, rfl, by decide +kernel, ?_⟩
  exact ⟨⟨6000, 8192, 1⟩, List.mem_singleton_self _, by decide, ⟨7, 4096, 8192⟩, rfl, 6000,
    by decide, by decide, by decide, by decide⟩

end Vdma.Fabric
