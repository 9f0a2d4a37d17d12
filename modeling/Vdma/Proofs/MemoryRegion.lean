import Vdma.Proofs.Covering

/-!
# `Vdma.Proofs.MemoryRegion`: a registered region stays registered

`FabricService::register` promises that operands inside a `MemoryRegion` are hits
while it lives. The registry keeps one extent for each base of a domain and retires
by overlap on every domain, so two things take the extent of a live region away:

* the last clone of another region goes, and its range overlaps this one. The
  storage may be the same, registered on another server.
* another extent is tracked at the same base, and ends earlier.

The promise holds in the runs that spare the region, `Spares`. The invariant
`Pinned` says that the extent at the region's own base reaches the region's end. A
region counts from the moment its pin is tracked, since other threads run before
`register` returns.
-/

set_option autoImplicit false

namespace Vdma.Fabric

open Vdma.Lib

/-- The region an event drops a clone of. -/
def Event.dropped : Event → Option Nat
  | .dropRegion i => some i
  | _ => none

namespace Shared

variable {s s' : Shared} {ρ : Region}

/-- A clone of region `i` lives, and it is a region over `ρ`. -/
def Alive (s : Shared) (i : Nat) (ρ : Region) : Prop :=
  s.regions.cells[i]? = some ρ ∧ 0 < s.regions.strong i

/-- A region over `ρ` other than `dropped` lives, or has been pinned and is about to
be handed out. -/
def RegisteredBeside (s : Shared) (dropped : Option Nat) (ρ : Region) : Prop :=
  (∃ i, some i ≠ dropped ∧ s.Alive i ρ) ∨ ∃ t, (s.calls t).pinned = some ρ

/-- The event spares `ρ`: it retires no range that overlaps the extent at the base of
`ρ`, and tracks none there that ends before `ρ` does. -/
structure Spares (ρ : Region) (s : Shared) (e : Event) : Prop where
  retired : ∀ start stop, s.retires e = some (start, stop) → s.RegisteredBeside e.dropped ρ →
    ∀ x, s.cache.registry.entry ρ.domain ρ.base = some x → overlaps start stop ρ.base x = false
  tracked : ∀ thread answer reg r, e = .step thread answer →
    (s.calls thread).untracked = some (reg, r) → s.RegisteredBeside none ρ →
      reg.domain = ρ.domain → reg.base = ρ.base → ρ.limit ≤ reg.limit

/-- While `ρ` is registered and its domain is open, the extent at its base reaches its
end. -/
def Pinned (ρ : Region) (s : Shared) : Prop :=
  s.RegisteredBeside none ρ → ρ.domain ∉ s.closed →
    ∃ x, s.cache.registry.entry ρ.domain ρ.base = some x ∧ ρ.limit ≤ x.limit

/-- At the start no region is registered. -/
theorem pinned_start : Pinned ρ Shared.start := by
  rintro (⟨i, -, hcell, -⟩ | ⟨t, ht⟩)
  · cases hcell
  · cases ht

/-- Nothing changes for `ρ` when the registry stays and no region over `ρ` appears. -/
theorem Pinned.of_same (h : Pinned ρ s) (hregistry : s'.cache.registry = s.cache.registry)
    (hclosed : s'.closed = s.closed)
    (hback : s'.RegisteredBeside none ρ → s.RegisteredBeside none ρ) : Pinned ρ s' := by
  intro hreg hopen
  rw [hregistry]
  rw [hclosed] at hopen
  exact h (hback hreg) hopen

/-- A thread that moves to a call without a pinned region adds none. -/
theorem pinned_update {call : Call} (hcall : call.pinned = none) {thread t : Nat}
    (h : (Function.update s.calls thread call t).pinned = some ρ) :
    (s.calls t).pinned = some ρ := by
  by_cases ht : t = thread
  · subst ht
    rw [Function.update_self, hcall] at h
    cases h
  · rwa [Function.update_of_ne ht] at h

/-- A call that has just begun has pinned nothing, unless its endpoint has nothing to
pin. -/
theorem pinned_begin {requires : Bool} (hrequires : requires = true) (region : Region)
    (base length : Nat) :
    (Call.pin region (if requires then .begin base length else .done (.ok ()))).pinned = none := by
  subst hrequires
  simp only [if_true, PinCall.begin]
  split <;> rfl

/-- A clone of a region that is alive makes no other one alive. -/
theorem alive_clone {i j : Nat} (hi : s.regions.strong i ≠ 0)
    (h : ({ s with regions := s.regions.clone i } : Shared).Alive j ρ) : s.Alive j ρ := by
  refine ⟨h.1, ?_⟩
  by_cases hj : j = i
  · subst hj
    omega
  · have hpos := h.2
    simp only [Handles.clone, Function.update_of_ne hj] at hpos
    exact hpos

/-- Dropping a clone revives nothing, and the last clone ends its region. -/
theorem alive_drop {i j : Nat} (h : ({ s with regions := s.regions.drop i } : Shared).Alive j ρ) :
    s.Alive j ρ ∧ (s.regions.strong i = 1 → j ≠ i) := by
  obtain ⟨hcell, hpos⟩ := h
  simp only [Handles.cells_drop] at hcell
  simp only [Handles.drop] at hpos
  by_cases hj : j = i
  · subst hj
    split at hpos
    · simp at hpos
    · next hone =>
      simp only [Function.update_self] at hpos
      exact ⟨⟨hcell, by omega⟩, fun h => absurd h hone⟩
  · refine ⟨⟨hcell, ?_⟩, fun _ => hj⟩
    split at hpos <;> simpa [Function.update_of_ne hj] using hpos

/-- A new region is alive, and all the others that are were so before. -/
theorem alive_new {region : Region} {i : Nat}
    (h : ({ s with regions := s.regions.new region } : Shared).Alive i ρ) :
    s.Alive i ρ ∨ region = ρ := by
  obtain ⟨hcell, hpos⟩ := h
  by_cases hi : i = s.regions.next
  · subst hi
    simp only [Handles.getElem?_cells_new, Option.some.injEq] at hcell
    exact .inr hcell
  · left
    simp only [Handles.new, Function.update_of_ne hi] at hpos
    refine ⟨?_, hpos⟩
    by_cases hlt : i < s.regions.next
    · rwa [Handles.getElem?_cells_new_of_lt _ _ hlt] at hcell
    · rw [List.getElem?_eq_none] at hcell
      · cases hcell
      · simp only [Handles.new, List.length_append, List.length_singleton]
        simp only [Handles.next] at hi hlt
        omega

/-- Retiring a range that does not overlap the extent at the base of `ρ` keeps it. -/
private theorem entry_after_invalidate {c : Cache} {start stop : Nat} {x : RegionEntry}
    (hx : c.registry.entry ρ.domain ρ.base = some x)
    (hdisjoint : overlaps start stop ρ.base x = false) :
    (c.invalidate start stop).1.registry.entry ρ.domain ρ.base = some x := by
  show ((c.registry.invalidate start stop).1).entry ρ.domain ρ.base = some x
  rw [Registry.entry_invalidate, hx, Option.filter_some, hdisjoint]
  rfl

/-- A thread that begins to register has pinned nothing, unless its endpoint has nothing to pin, and
then its regions are of that endpoint's domain. -/
theorem pinned_register {lib : Libfabric} {requiresLocalMr : Domain → Bool} {thread : Nat}
    {domain : Domain} {base length : Nat} (hlocal : requiresLocalMr ρ.domain = true)
    (h : s.step lib requiresLocalMr (.register thread domain base length) = some s')
    (hs : Pinned ρ s) : Pinned ρ s' := by
  simp only [step] at h
  split at h <;> cases h
  · refine hs.of_same rfl rfl ?_
    rintro (halive | ⟨t, ht⟩)
    · exact .inl halive
    · by_cases hdomain : requiresLocalMr domain = true
      · exact .inr ⟨t, pinned_update (s := s) (pinned_begin hdomain ..) ht⟩
      · -- An endpoint with nothing to pin hands out regions of its own domain only.
        change (Function.update s.calls thread _ t).pinned = some ρ at ht
        by_cases hthread : t = thread
        · subst hthread
          rw [Function.update_self, if_neg hdomain] at ht
          cases ht
          exact absurd hlocal hdomain
        · rw [Function.update_of_ne hthread] at ht
          exact .inr ⟨t, ht⟩
  · exact hs

/-- A thread's section tracks a region before the thread has it, and at another region's base it
tracks enough. -/
theorem pinned_section {lib : Libfabric} {requiresLocalMr : Domain → Bool} {thread : Nat}
    {answer : RegionAnswer} (hok : s.Spares ρ (.step thread answer))
    (h : s.step lib requiresLocalMr (.step thread answer) = some s') (hs : Pinned ρ s) :
    Pinned ρ s' := by
  simp only [step, Option.map_eq_some_iff, Prod.exists] at h
  obtain ⟨c, call, hcall, rfl⟩ := h
  rcases Call.step_cases hcall with ⟨hsame, -, hpinned⟩ | ⟨reg, rfl, hnone, -⟩ |
    ⟨reg, r, htrack, -, rfl, hregion⟩
  · refine hs.of_same hsame.1 rfl ?_
    rintro (halive | ⟨t, ht⟩)
    · exact .inl halive
    · rcases hpinned with hpinned | hpinned
      · right
        change (Function.update s.calls thread call t).pinned = some ρ at ht
        by_cases hthread : t = thread
        · subst hthread
          rw [Function.update_self, ← hpinned] at ht
          exact ⟨t, ht⟩
        · rw [Function.update_of_ne hthread] at ht
          exact ⟨t, ht⟩
      · exact .inr ⟨t, pinned_update (s := s) hpinned ht⟩
  · refine hs.of_same rfl rfl ?_
    rintro (halive | ⟨t, ht⟩)
    · exact .inl halive
    · exact .inr ⟨t, pinned_update (s := s) hnone ht⟩
  · intro hreg hopen
    show ∃ x, (s.cache.registry.track reg.base reg.limit reg.domain r).1.entry ρ.domain ρ.base
      = some x ∧ ρ.limit ≤ x.limit
    rw [Registry.entry_track]
    -- Either this thread has pinned `ρ` just now, or `ρ` was registered before.
    have hbefore : s.RegisteredBeside none ρ ∨ ρ = ⟨reg.domain, reg.base, reg.limit⟩ := by
      rcases hreg with halive | ⟨t, ht⟩
      · exact .inl (.inl halive)
      · change (Function.update s.calls thread call t).pinned = some ρ at ht
        by_cases hthread : t = thread
        · subst hthread
          rw [Function.update_self] at ht
          exact .inr (hregion ρ ht)
        · rw [Function.update_of_ne hthread] at ht
          exact .inl (.inr ⟨t, ht⟩)
    rcases hbefore with hbefore | rfl
    · split
      · next hat =>
        exact ⟨_, rfl, hok.tracked thread answer reg r rfl htrack hbefore hat.1.symm hat.2.symm⟩
      · exact hs hbefore hopen
    · rw [if_pos ⟨rfl, rfl⟩]
      exact ⟨_, rfl, Nat.le_refl _⟩

/-- A region that is handed out was pinned by the thread that hands it out. -/
theorem pinned_ret {lib : Libfabric} {requiresLocalMr : Domain → Bool} {thread : Nat}
    (h : s.step lib requiresLocalMr (.ret thread) = some s') (hs : Pinned ρ s) : Pinned ρ s' := by
  obtain ⟨hcache, hclosed, -, hcalls, hregions⟩ := ret_cases h
  refine hs.of_same (by rw [hcache]) hclosed ?_
  rintro (⟨i, hi, halive⟩ | ⟨t, ht⟩)
  · rcases hregions with hregions | ⟨region, hpinned, hregions⟩
    · refine .inl ⟨i, hi, ?_⟩
      unfold Alive at halive ⊢
      rwa [hregions] at halive
    · unfold Alive at halive
      rw [hregions] at halive
      rcases alive_new (s := s) halive with halive | rfl
      · exact .inl ⟨i, hi, halive⟩
      · exact .inr ⟨thread, hpinned⟩
  · rw [hcalls] at ht
    exact .inr ⟨t, pinned_update (s := s) rfl ht⟩

/-- The last clone of a region retires its range. That spares whoever else is over `ρ`. -/
theorem pinned_dropRegion {lib : Libfabric} {requiresLocalMr : Domain → Bool} {i : Nat}
    (hok : s.Spares ρ (.dropRegion i)) (h : s.step lib requiresLocalMr (.dropRegion i) = some s')
    (hs : Pinned ρ s) : Pinned ρ s' := by
  obtain ⟨region, hregion, ⟨hone, rfl⟩ | ⟨-, rfl⟩⟩ := dropRegion_cases h
  · -- The last clone: whoever is left over `ρ` is another region.
    intro hreg hopen
    have hbeside : s.RegisteredBeside (some i) ρ := by
      rcases hreg with ⟨j, -, halive⟩ | hcall
      · obtain ⟨halive, hne⟩ := alive_drop (s := s) halive
        exact .inl ⟨j, fun heq => hne hone (Option.some.inj heq), halive⟩
      · exact .inr hcall
    have hbefore : s.RegisteredBeside none ρ := by
      rcases hbeside with ⟨j, -, halive⟩ | hcall
      · exact .inl ⟨j, by simp, halive⟩
      · exact .inr hcall
    obtain ⟨x, hx, hlimit⟩ := hs hbefore hopen
    have hretires : s.retires (.dropRegion i) = some (region.base, region.limit) := by
      simp [retires, hone, hregion]
    exact ⟨x, entry_after_invalidate hx (hok.retired _ _ hretires hbeside x hx), hlimit⟩
  · refine hs.of_same rfl rfl ?_
    rintro (⟨j, hj, halive⟩ | hcall)
    · exact .inl ⟨j, hj, (alive_drop (s := s) halive).1⟩
    · exact .inr hcall

/-- Every step that spares the region keeps it pinned for as long as it is alive. -/
theorem pinned_step {lib : Libfabric} {requiresLocalMr : Domain → Bool} {e : Event}
    (hlocal : requiresLocalMr ρ.domain = true) (hok : s.Spares ρ e)
    (h : s.step lib requiresLocalMr e = some s') (hs : Pinned ρ s) : Pinned ρ s' := by
  cases e with
  | operand thread domain pointer length =>
    simp only [step] at h
    split at h <;> cases h
    refine hs.of_same rfl rfl ?_
    rintro (halive | ⟨t, ht⟩)
    · exact .inl halive
    · exact .inr ⟨t, pinned_update (s := s) rfl ht⟩
  | register thread domain base length => exact pinned_register hlocal h hs
  | step thread answer => exact pinned_section hok h hs
  | ret thread => exact pinned_ret h hs
  | cloneRegion i =>
    simp only [step] at h
    split at h
    · cases h
    · next hstrong =>
      cases h
      refine hs.of_same rfl rfl ?_
      rintro (⟨j, hj, halive⟩ | hcall)
      · exact .inl ⟨j, hj, alive_clone (s := s) hstrong halive⟩
      · exact .inr hcall
  | dropRegion i => exact pinned_dropRegion hok h hs
  | invalidate start stop =>
    cases h
    intro hreg hopen
    obtain ⟨x, hx, hlimit⟩ := hs hreg hopen
    exact ⟨x, entry_after_invalidate hx (hok.retired start stop rfl hreg x hx), hlimit⟩
  | dropRetired lease =>
    simp only [step] at h
    split at h <;> cases h
    exact hs.of_same (by simp) rfl id
  | dropLease lease =>
    simp only [step] at h
    split at h <;> cases h
    exact hs.of_same (by simp) rfl id
  | closeDomain domain =>
    cases h
    intro hreg hopen
    obtain ⟨hne, hopen⟩ : ρ.domain ≠ domain ∧ ρ.domain ∉ s.closed := by simpa using hopen
    obtain ⟨x, hx, hlimit⟩ := hs hreg hopen
    refine ⟨x, ?_, hlimit⟩
    show (s.cache.registry.clearDomain domain).1.entry ρ.domain ρ.base = some x
    rw [Registry.entry_clearDomain, if_neg hne, hx]

end Shared

/-- On an endpoint that registers its operands, in a run that spares `ρ`: while a
region over `ρ` lives and its endpoint is open, a tracked extent covers it. -/
theorem region_covered {lib : Libfabric} {requiresLocalMr : Domain → Bool} {ρ : Region}
    (hlocal : requiresLocalMr ρ.domain = true) {s : Shared}
    (h : (sharing lib requiresLocalMr).Reach (Shared.Spares ρ) s) {i : Nat}
    (halive : s.Alive i ρ) (hopen : ρ.domain ∉ s.closed) :
    ∃ base x, s.cache.registry.Covers ρ.domain ρ.base ρ.limit base x := by
  have hpinned : Shared.Pinned ρ s := by
    refine h.invariant (I := Shared.Pinned ρ) ?_ ?_
    · rintro s rfl
      exact Shared.pinned_start
    · intro s e s' hok hstep hs
      exact Shared.pinned_step hlocal hok hstep hs
  obtain ⟨x, hx, hlimit⟩ := hpinned (.inl ⟨i, nofun, halive⟩) hopen
  exact ⟨ρ.base, x, hx, Nat.le_refl _, hlimit⟩

/-- A region registered, and the memory below it reclaimed. -/
def registerThenReclaim : List Event :=
  [.register 0 7 4096 4096, .step 0 (.mrReg 0), .step 0 .none, .step 0 .none, .step 0 .none,
    .ret 0, .invalidate 0 4096]

/-- The reclaim below the region leaves it covered. -/
theorem region_covered_after_reclaim :
    ∃ s, (sharing default fun _ => true).run Shared.start registerThenReclaim = some s ∧
      ∃ base x, s.cache.registry.Covers 7 4096 8192 base x := by
  have hobeys : (sharing default fun _ => true).Obeys (Shared.Spares ⟨7, 4096, 8192⟩)
      Shared.start registerThenReclaim := by
    refine .cons ⟨nofun, nofun⟩ rfl (.cons ⟨nofun, ?_⟩ rfl (.cons ⟨nofun, ?_⟩ rfl
      (.cons ⟨nofun, ?_⟩ rfl (.cons ⟨nofun, ?_⟩ rfl (.cons ⟨nofun, nofun⟩ rfl
      (.cons ⟨?_, nofun⟩ rfl trivial))))))
    -- The one extent tracked on the way is the region itself.
    case refine_2 =>
      rintro thread answer reg r ⟨⟩ ⟨⟩ - - -
      exact Nat.le_refl _
    case refine_5 =>
      rintro start stop ⟨⟩ - x -
      simp [overlaps]
    all_goals rintro thread answer reg r ⟨⟩ ⟨⟩
  obtain ⟨s, hrun, hcell, hstrong, hclosed⟩ :
      ∃ s, (sharing default fun _ => true).run Shared.start registerThenReclaim = some s ∧
        s.regions.cells[0]? = some ⟨7, 4096, 8192⟩ ∧ 0 < s.regions.strong 0 ∧ s.closed = [] :=
    ⟨_, rfl, rfl, by decide +kernel, rfl⟩
  exact ⟨s, hrun, region_covered (ρ := ⟨7, 4096, 8192⟩) rfl
    ((Machine.Reach.init rfl).run hobeys hrun) ⟨hcell, hstrong⟩ (by simp [hclosed])⟩

/-- The same storage registered on two servers, and the second region dropped. -/
def droppedTwin : List Event :=
  [.register 0 7 4096 4096, .step 0 (.mrReg 0), .step 0 .none, .step 0 .none, .step 0 .none,
    .ret 0, .register 0 8 4096 4096, .step 0 (.mrReg 0), .step 0 .none, .step 0 .none,
    .step 0 .none, .ret 0, .dropRegion 1]

/-- Dropping the second region has taken the extent of the first one, on the first
server's domain. -/
theorem region_uncovered :
    ∃ s, (sharing default fun _ => true).run Shared.start droppedTwin = some s ∧
      (sharing default fun _ => true).Reachable s ∧
      s.Alive 0 ⟨7, 4096, 8192⟩ ∧ 7 ∉ s.closed ∧
      ∀ base x, ¬s.cache.registry.Covers 7 4096 8192 base x := by
  refine ⟨_, rfl, Machine.reach_run rfl droppedTwin rfl, ⟨rfl, by decide +kernel⟩,
    by decide +kernel, ?_⟩
  rintro base x ⟨hx, -, -⟩
  cases hx

end Vdma.Fabric
