import Vdma.Proofs.Worker.Leases

/-!
# `Vdma.Proofs.Worker.Teardown`: registrations and the end of their domain

`LibfabricEndpoint::drop` clears the registry of its domain and then closes it. A
registration of the domain is closed by then unless somebody else leases it. Two parties
can: a pool job with ops left to hash, and a thread that took an extent out of the registry
and has yet to drop its lease. `LetGo` says that neither does, and
`registrations_close_first` that this is exactly when every registration is closed in time.

`Homed` places the leases. Those of the worker and the pool are on the endpoint's own
domain, and the registry has no extent of it once the teardown has cleared it. `Hashed`
says that an op on its way to the hash has a lease, so a job with ops left does hold a
registration open.
-/

set_option autoImplicit false

namespace Vdma.Fabric

open Vdma.Lib

variable {T : Type}

/-! ### Caches on which a domain lies still -/

/-- A leased registration is tracked somewhere. -/
theorem Registry.exists_entry {registry : Registry} {r : Nat} (h : 0 < registry.leases r) :
    ∃ domain base e, registry.entry domain base = some e ∧ e.registration = r := by
  obtain ⟨regions, hregions, hpos⟩ := Assoc.weight_pos_iff.mp h
  obtain ⟨domain, hdomain⟩ := Assoc.mem_values_iff.mp hregions
  obtain ⟨e, he, hlease⟩ := Assoc.weight_pos_iff.mp hpos
  obtain ⟨base, hbase⟩ := Assoc.mem_values_iff.mp he
  refine ⟨domain, base, e, ?_, ?_⟩
  · rw [Registry.entry, Registry.domainRegions, hdomain]
    exact hbase
  · by_contra hne
    rw [Registry.leaseOn, if_neg hne] at hlease
    omega

/-- What `clearDomain` takes out was tracked on the domain. -/
theorem Registry.entry_of_cleared {registry : Registry} {domain : Domain} {r : Nat}
    (h : r ∈ (registry.clearDomain domain).2) :
    ∃ base e, registry.entry domain base = some e ∧ e.registration = r := by
  unfold Registry.clearDomain at h
  cases hlookup : registry.lookup domain with
  | none =>
    rw [hlookup] at h
    cases h
  | some regions =>
    rw [hlookup] at h
    obtain ⟨e, he, rfl⟩ := List.mem_map.mp h
    obtain ⟨base, hbase⟩ := Assoc.mem_values_iff.mp he
    refine ⟨base, e, ?_, rfl⟩
    rw [Registry.entry, Registry.domainRegions, hlookup]
    exact hbase

/-- From `c` to `c'` nothing was registered or tracked on a domain. -/
structure Cache.Still (domain : Domain) (c c' : Cache) : Prop where
  named : c.Named → c'.Named
  absent : ∀ base, c.registry.entry domain base = none → c'.registry.entry domain base = none
  cells : ∀ (r : Nat) (reg : Registration), c.handles.cells[r]? = some reg →
    c'.handles.cells[r]? = some reg
  foreign : ∀ (r : Nat) (reg : Registration), c'.handles.cells[r]? = some reg →
    reg.domain = domain → c.handles.cells[r]? = some reg
  dropped : c.handles.dropped ⊆ c'.handles.dropped

namespace Cache.Still

variable {domain : Domain} {c c' : Cache}

/-- A cache stands still beside itself. -/
theorem refl (domain : Domain) (c : Cache) : Still domain c c where
  named h := h
  absent _ h := h
  cells _ _ h := h
  foreign _ _ h _ := h
  dropped _ h := h

/-- Extents go and registrations close, and nothing else happens. -/
theorem of_subset (hcells : c'.handles.cells = c.handles.cells)
    (hentry : ∀ d base e, c'.registry.entry d base = some e → c.registry.entry d base = some e)
    (hdropped : c.handles.dropped ⊆ c'.handles.dropped) : Still domain c c' where
  named h := h.of_subset hcells hentry
  absent base h := by
    cases hfound : c'.registry.entry domain base with
    | none => rfl
    | some e =>
      rw [hentry domain base e hfound] at h
      cases h
  cells r reg h := by rwa [hcells]
  foreign r reg h _ := by rwa [hcells] at h
  dropped := hdropped

/-- A dropped lease leaves the extents still. -/
theorem dropLease (domain : Domain) (c : Cache) (lease : Option Nat) :
    Still domain c (c.dropLease lease) :=
  of_subset (Cache.cells_dropLease c lease) (fun _ _ _ h => h)
    (Handles.subset_dropped_dropOption c.handles lease)

/-- So do dropped leases. -/
theorem dropLeases (domain : Domain) (c : Cache) (l : List Nat) :
    Still domain c (c.dropLeases l) :=
  of_subset (Handles.cells_dropAll c.handles l) (fun _ _ _ h => h)
    (Handles.subset_dropped_dropAll c.handles l)

/-- Clearing a domain adds no extent to any. -/
theorem clearDomain (domain : Domain) (c : Cache) (domain' : Domain) :
    Still domain c (c.clearDomain domain').1 := by
  refine of_subset rfl ?_ fun _ h => h
  intro d base e he
  change (c.registry.clearDomain domain').1.entry d base = some e at he
  rw [Registry.entry_clearDomain] at he
  split at he
  · cases he
  · exact he

/-- Another thread leaves the domain alone. -/
theorem of_thread {threads threads' : List Nat} {step : ThreadStep}
    (h : step.run domain c threads = some (c', threads')) : Still domain c c' := by
  cases step with
  | register domain' base limit =>
    simp only [ThreadStep.run] at h
    split at h <;> cases h
    next hne =>
    refine ⟨fun hnamed => hnamed.register domain' base limit, fun _ h => h,
      fun r reg h => Cache.cells_register domain' base limit h, ?_, fun _ h => h⟩
    intro r reg hr hreg
    -- The new registration is on another domain.
    change (c.handles.new ⟨domain', base, limit⟩).cells[r]? = some reg at hr
    by_cases hlt : r < c.handles.next
    · rwa [Handles.getElem?_cells_new_of_lt _ _ hlt] at hr
    · simp only [Handles.new] at hr
      rw [List.getElem?_append_right (by simpa [Handles.next] using hlt),
        List.getElem?_singleton] at hr
      split at hr
      · cases hr
        exact absurd hreg hne
      · cases hr
  | track base limit domain' lease =>
    simp only [ThreadStep.run] at h
    split at h <;> cases h
    next hguard =>
    have hne : domain' ≠ domain := by tauto
    have hcell : c.handles.cells[lease]? = some ⟨domain', base, limit⟩ := by tauto
    refine ⟨fun hnamed => hnamed.track hcell, ?_, fun _ _ h => h, fun _ _ h _ => h, fun _ h => h⟩
    intro base' hnone
    show (c.registry.track base limit domain' lease).1.entry domain base' = none
    rw [Registry.entry_track, if_neg fun hat => hne hat.1.symm]
    exact hnone
  | covering start stop domain' =>
    simp only [ThreadStep.run] at h
    split at h <;> cases h
    refine of_subset (Cache.cells_covering c start stop domain') ?_ ?_
    · intro d base e he
      rwa [Cache.registry_covering] at he
    · unfold Cache.covering
      split
      · exact fun _ h => h
      · exact fun _ h => h
  | invalidate start stop =>
    cases h
    exact of_subset rfl (fun d base e he => (entry_of_invalidate he).1) fun _ h => h
  | clearDomain domain' =>
    simp only [ThreadStep.run] at h
    split at h <;> cases h
    exact clearDomain domain c domain'
  | drop lease =>
    simp only [ThreadStep.run] at h
    split at h <;> cases h
    exact dropLease domain c (some lease)

end Cache.Still

/-! ### Every lease is on the right domain -/

/-- The lease that `track` hands back is on the domain of the new extent. -/
theorem Cache.track_domain {c : Cache} (hnamed : c.Named) {base limit : Nat} {domain : Domain}
    {lease r : Nat}
    (hr : 0 < leaseCount (c.track base limit domain lease).2 r + leaseCount (some lease) r) :
    0 < leaseCount (some lease) r ∨
      ∃ reg, (c.track base limit domain lease).1.handles.cells[r]? = some reg ∧
        reg.domain = domain := by
  by_cases hlease : 0 < leaseCount (some lease) r
  · exact .inl hlease
  · right
    have hreplaced : (c.track base limit domain lease).2 = some r := by
      by_contra hne
      rw [leaseCount, if_neg hne] at hr
      omega
    change (c.registry.entry domain base).map RegionEntry.registration = some r at hreplaced
    obtain ⟨e, he, rfl⟩ := Option.map_eq_some_iff.mp hreplaced
    exact ⟨_, hnamed domain base e he, rfl⟩

/-- A lease that a section of `operand` adds is on the domain of the call. -/
theorem OperandCall.domain_step {lib : Libfabric} {domain : Domain} {c c' : Cache}
    {call call' : OperandCall} {answer : RegionAnswer} (hnamed : c.Named)
    (hstep : call.step lib domain c answer = some (c', call')) {r : Nat} (hr : 0 < call'.held r) :
    0 < call.held r ∨ ∃ reg, c'.handles.cells[r]? = some reg ∧ reg.domain = domain := by
  cases call with
  | lookup start stop =>
    right
    cases answer <;> simp only [OperandCall.step, reduceCtorEq] at hstep
    have hcells := Cache.cells_covering c start stop domain
    have hfound := Cache.covering_snd c start stop domain
    split at hstep
    · next c₁ lease hcov =>
      cases hstep
      rw [hcov] at hcells hfound
      -- The hit is an extent of the domain.
      obtain ⟨base, e, hlast, -, -, rfl⟩ := (Registry.covering_eq_some_iff ..).mp hfound.symm
      have hentry : c.registry.entry domain base = some e := (lastAtOrBelow_eq_some hlast).1
      have heq : r = e.registration := by
        by_contra hne
        simp only [OperandCall.held, LocalOperand.ofLease, leaseCount_some, if_neg hne] at hr
        omega
      subst heq
      refine ⟨⟨domain, base, e.limit⟩, ?_, rfl⟩
      rw [hcells]
      exact hnamed domain base e hentry
    · cases hstep
      cases hr
  | ask start stop =>
    cases answer <;> simp only [OperandCall.step, reduceCtorEq] at hstep
    split at hstep <;> cases hstep <;> cases hr
  | register start stop base limit cacheable =>
    cases answer <;> simp only [OperandCall.step, reduceCtorEq] at hstep
    split at hstep
    · cases hstep
      have heq : r = c.handles.next := by
        by_contra hne
        have hlease : leaseCount (some c.handles.next) r = 0 := by rw [leaseCount_some, if_neg hne]
        cases cacheable
        · have hzero : (OperandCall.done (.ofLease c.handles.next)).held r = 0 := hlease
          change 0 < (OperandCall.done (.ofLease c.handles.next)).held r at hr
          omega
        · have hzero : (OperandCall.track base limit c.handles.next).held r = 0 := hlease
          change 0 < (OperandCall.track base limit c.handles.next).held r at hr
          omega
      subst heq
      exact .inr ⟨⟨domain, base, limit⟩, Handles.getElem?_cells_new .., rfl⟩
    · cases hstep
      split at hr <;> cases hr
  | track base limit lease =>
    cases answer <;> simp only [OperandCall.step, reduceCtorEq] at hstep
    cases hstep
    exact Cache.track_domain hnamed hr
  | superseded replaced lease =>
    cases answer <;> simp only [OperandCall.step, reduceCtorEq] at hstep
    cases hstep
    left
    have hheld : leaseCount (some lease) r ≤ (OperandCall.superseded replaced lease).held r :=
      Nat.le_add_left _ _
    exact Nat.lt_of_lt_of_le hr hheld
  | done operand => cases answer <;> cases hstep
  | failed error => cases answer <;> cases hstep

/-- The same for `pin`. -/
theorem PinCall.domain_step {lib : Libfabric} {domain : Domain} {base limit : Nat} {c c' : Cache}
    {call call' : PinCall} {answer : RegionAnswer} (hnamed : c.Named)
    (hstep : call.step lib domain base limit c answer = some (c', call')) {r : Nat}
    (hr : 0 < call'.held r) :
    0 < call.held r ∨ ∃ reg, c'.handles.cells[r]? = some reg ∧ reg.domain = domain := by
  cases call with
  | register =>
    cases answer <;> simp only [PinCall.step, reduceCtorEq] at hstep
    split at hstep
    · cases hstep
      -- The lease is the one just made, with this domain's registration.
      have heq : r = c.handles.next := by
        by_contra hne
        simp only [PinCall.held, leaseCount_some, if_neg hne] at hr
        omega
      subst heq
      exact .inr ⟨⟨domain, base, limit⟩, Handles.getElem?_cells_new .., rfl⟩
    · cases hstep
      cases hr
  | track lease =>
    cases answer <;> simp only [PinCall.step, reduceCtorEq] at hstep
    cases hstep
    exact Cache.track_domain hnamed hr
  | superseded replaced lease =>
    cases answer <;> simp only [PinCall.step, reduceCtorEq] at hstep
    cases hstep
    -- The replaced lease is dropped, and the other was in hand before.
    left
    have hheld : leaseCount (some lease) r ≤ (PinCall.superseded replaced lease).held r :=
      Nat.le_add_left _ _
    exact Nat.lt_of_lt_of_le hr hheld
  | release lease =>
    cases answer <;> simp only [PinCall.step, reduceCtorEq] at hstep
    cases hstep
    cases hr
  | done result => cases answer <;> cases hstep

/-- The same for the call that a phase is in. -/
theorem Phase.domain_step {lib : Libfabric} {domain : Domain} {c c' : Cache} {phase : Phase T}
    {call' : Call} {answer : RegionAnswer} (hnamed : c.Named)
    (hstep : (phase.registration domain).step lib c answer = some (c', call')) {r : Nat}
    (hr : 0 < call'.held r) :
    0 < (phase.registration domain).held r ∨
      ∃ reg, c'.handles.cells[r]? = some reg ∧ reg.domain = domain := by
  cases phase with
  -- Each of the three phases runs a section of the same domain.
  | pinning purpose base limit call =>
    simp only [Phase.registration, Call.step, Option.map_eq_some_iff, Prod.mk.injEq,
      Prod.exists] at hstep
    obtain ⟨c₁, next, hnext, rfl, rfl⟩ := hstep
    exact PinCall.domain_step hnamed hnext hr
  | operand prepared entry call =>
    simp only [Phase.registration, Call.step, Option.map_eq_some_iff, Prod.mk.injEq,
      Prod.exists] at hstep
    obtain ⟨c₁, next, hnext, rfl, rfl⟩ := hstep
    exact OperandCall.domain_step hnamed hnext hr
  | quiesceOperand waiting entry call =>
    simp only [Phase.registration, Call.step, Option.map_eq_some_iff, Prod.mk.injEq,
      Prod.exists] at hstep
    obtain ⟨c₁, next, hnext, rfl, rfl⟩ := hstep
    exact OperandCall.domain_step hnamed hnext hr
  | _ => cases hstep

/-- The leases of the worker and the pool, and the extents of the endpoint's domain. -/
structure Homed (setup : Setup) (s : State T) : Prop where
  named : s.cache.Named
  untracked : ∀ (reg : Registration) (r : Nat),
    (s.phase.registration setup.device.domain).untracked = some (reg, r) →
      s.cache.handles.cells[r]? = some reg
  home : ∀ r, 0 < s.ownLeases r →
    ∃ reg, s.cache.handles.cells[r]? = some reg ∧ reg.domain = setup.device.domain
  absent : s.phase.tearsDown = true ∨ setup.device.requiresLocalMr = false →
    ∀ base, s.cache.registry.entry setup.device.domain base = none
  needless : setup.device.requiresLocalMr = false →
    (s.phase.registration setup.device.domain).Inert ∧ ∀ r, s.ownLeases r = 0

namespace Homed

variable {setup : Setup} {s s' : State T}

/-- At the start the service has no lease and no extent. -/
theorem start (setup : Setup) : Homed setup (State.start setup : State T) where
  named domain base e h := by cases h
  untracked reg r h := by cases h
  home r h := by cases h
  absent _ _ := rfl
  needless _ := ⟨fun _ _ _ => rfl, fun _ => rfl⟩

/-- No lease is new, and no call got further. -/
theorem of_still (h : Homed setup s) (hstill : Cache.Still setup.device.domain s.cache s'.cache)
    (hphase : s'.phase = s.phase ∨ Begins setup s s'.phase)
    (hown : ∀ r, s'.ownLeases r ≤ s.ownLeases r) : Homed setup s' where
  named := hstill.named h.named
  untracked reg r hr := by
    rcases hphase with hphase | hbegins
    · rw [hphase] at hr
      exact hstill.cells r reg (h.untracked reg r hr)
    · rw [hbegins.untracked] at hr
      cases hr
  home r hr := by
    have hle := hown r
    obtain ⟨reg, hreg, hdomain⟩ := h.home r (by omega)
    exact ⟨reg, hstill.cells r reg hreg, hdomain⟩
  absent hend base := by
    -- Nothing new is tracked in the domain once it is torn down.
    refine hstill.absent base (h.absent ?_ base)
    rcases hend with hend | hneedless
    · left
      rcases hphase with hphase | hbegins
      · rwa [hphase] at hend
      · exact hbegins.tearsDown hend
    · exact .inr hneedless
  needless hneedless := by
    obtain ⟨hinert, hnone⟩ := h.needless hneedless
    refine ⟨?_, ?_⟩
    · rcases hphase with hphase | hbegins
      · rw [hphase]
        exact hinert
      · exact hbegins.needless hneedless
    · intro r
      have hle := hown r
      have hzero := hnone r
      omega

/-- A section of the worker's call registers and tracks on the endpoint's domain. -/
theorem of_call (h : Homed setup s) {answer : RegionAnswer} {rest : Nat → Nat}
    (hstep :
      (s.phase.registration setup.device.domain).step setup.lib s.cache answer
        = some (s'.cache, s'.phase.registration setup.device.domain))
    (hend : s'.phase.tearsDown = false)
    (hown : ∀ r, s.ownLeases r = rest r + (s.phase.registration setup.device.domain).held r)
    (hown' : ∀ r, s'.ownLeases r = rest r + (s'.phase.registration setup.device.domain).held r) :
    Homed setup s' := by
  -- A section closes no registration, so each is still read where it was.
  have hcells : ∀ (r : Nat) (reg : Registration), s.cache.handles.cells[r]? = some reg →
      s'.cache.handles.cells[r]? = some reg := by
    intro r reg hr
    rcases Call.step_cases hstep with ⟨hsame, -, -⟩ | ⟨reg', hcache, -, -⟩ |
      ⟨reg', r', -, -, hcache, -⟩
    · rwa [hsame.2]
    · rw [hcache]
      exact Cache.cells_register _ _ _ hr
    · rw [hcache]
      exact hr
  -- A domain that needs no registrations runs no section.
  have hneeds : setup.device.requiresLocalMr = false → False := by
    intro hneedless
    have hnone := (h.needless hneedless).1 setup.lib s.cache answer
    rw [hnone] at hstep
    cases hstep
  refine ⟨?_, ?_, ?_, ?_, fun hneedless => (hneeds hneedless).elim⟩
  · rcases Call.step_cases hstep with ⟨hsame, -, -⟩ | ⟨reg, hcache, -, -⟩ |
      ⟨reg, r, htrack, -, hcache, -⟩
    · exact h.named.of_same hsame
    · rw [hcache]
      exact h.named.register reg.domain reg.base reg.limit
    · rw [hcache]
      exact h.named.track (h.untracked reg r htrack)
  · -- A registration that is not tracked yet is the one just made.
    intro reg r hr
    rcases Call.step_cases hstep with ⟨-, hnone, -⟩ | ⟨reg', hcache, -, hnone | hnew⟩ |
      ⟨reg', r', -, hnone, -, -⟩
    · rw [hnone] at hr
      cases hr
    · rw [hnone] at hr
      cases hr
    · rw [hnew] at hr
      cases hr
      rw [hcache]
      exact Handles.getElem?_cells_new ..
    · rw [hnone] at hr
      cases hr
  · intro r hr
    rw [hown'] at hr
    -- The lease was held elsewhere, or the section has it.
    by_cases hrest : 0 < rest r
    · obtain ⟨reg, hreg, hdomain⟩ := h.home r (by rw [hown]; omega)
      exact ⟨reg, hcells r reg hreg, hdomain⟩
    · rcases Phase.domain_step h.named hstep (r := r) (by omega) with hheld | hnew
      · obtain ⟨reg, hreg, hdomain⟩ := h.home r (by rw [hown]; omega)
        exact ⟨reg, hcells r reg hreg, hdomain⟩
      · exact hnew
  · -- The domain is not torn down while a section runs.
    rintro (htrue | hneedless)
    · rw [hend] at htrue
      cases htrue
    · exact (hneeds hneedless).elim

/-- Every move keeps the leases at home. -/
theorem step (h : Homed setup s) (hmove : LeaseMove setup s s') : Homed setup s' := by
  cases hmove with
  | keep hcache hthreads hphase hown =>
    exact h.of_still (hcache ▸ .refl _ _) hphase fun r => (hown r).le
  | drop lease hcache hthreads hphase hown =>
    refine h.of_still (hcache ▸ .dropLease _ _ _) hphase ?_
    intro r
    rw [hown r]
    omega
  | call answer rest hstep hthreads hend hown hown' => exact h.of_call hstep hend hown hown'
  | thread step hstep hphase hown =>
    exact h.of_still (.of_thread hstep) (.inl hphase) fun r => (hown r).le
  | clear hcache hthreads hcall hown =>
    have hstill := Cache.Still.clearDomain setup.device.domain s.cache setup.device.domain
    have hgone : ∀ base, s'.cache.registry.entry setup.device.domain base = none := by
      intro base
      rw [hcache]
      show (s.cache.registry.clearDomain setup.device.domain).1.entry _ base = none
      rw [Registry.entry_clearDomain, if_pos rfl]
    refine ⟨?_, ?_, ?_, fun _ => hgone, ?_⟩
    · rw [hcache]
      exact hstill.named h.named
    · intro reg r hr
      rw [hcall] at hr
      cases hr
    · intro r hr
      rw [hown] at hr
      rw [hcache]
      by_cases hold : 0 < s.ownLeases r
      · obtain ⟨reg, hreg, hdomain⟩ := h.home r hold
        exact ⟨reg, hstill.cells r reg hreg, hdomain⟩
      · have hcount : 0 < (s.cache.clearDomain setup.device.domain).2.count r := by omega
        obtain ⟨base, e, he, rfl⟩ := Registry.entry_of_cleared (List.count_pos_iff.mp hcount)
        exact ⟨_, hstill.cells _ _ (h.named _ base e he), rfl⟩
    · intro hneedless
      refine ⟨?_, ?_⟩
      · rw [hcall]
        intro lib c answer
        rfl
      · intro r
        -- Nothing was tracked, so nothing is cleared.
        have hzero := (h.needless hneedless).2 r
        have hcount : (s.cache.clearDomain setup.device.domain).2.count r = 0 := by
          by_contra hne
          have hmem := List.count_pos_iff.mp (Nat.pos_of_ne_zero hne)
          obtain ⟨base, e, he, -⟩ := Registry.entry_of_cleared hmem
          rw [h.absent (.inr hneedless) base] at he
          cases he
        rw [hown]
        omega
  | dropAll cleared hphase hcache hthreads hcall hown =>
    have hend : s.phase.tearsDown = true := by rw [hphase]; rfl
    refine h.of_still (hcache ▸ .dropLeases _ _ _)
      (.inr (LeaseMove.begins_of_idle hcall fun _ => hend)) ?_
    intro r
    rw [hown r]
    omega

end Homed

/-- In every run the leases of the worker and the pool are on the endpoint's domain. -/
theorem homed_reach [Operands T] {setup : Setup} {ok : State T → Move T → Prop} {s : State T}
    (h : (service T setup).Reach ok s) : Homed setup s := by
  refine service_invariant (J := fun s => Settled s ∧ Owned s) (I := Homed setup)
    (fun s hs => owned_reach hs) (.start setup) ?_ h
  intro s m s' hs hs' hok hmove hhomed
  exact hhomed.step (hmove.leaseMove hs.1 hs.2)

/-! ### An op on its way to the hash has a lease -/

/-- A reaped op has a lease, and keeps it until it is hashed. -/
structure Hashed (s : State T) : Prop where
  reaped : ∀ r ∈ s.queues.reaped, HasBox s.queues.raw r.1 fun op => op.localLease ≠ none
  hashes : ∀ op ∈ s.hashes, op.1.localLease ≠ none

namespace Hashed

variable {setup : Setup} {s s' : State T}

/-- At the start nothing waits for its hash. -/
theorem start (setup : Setup) : Hashed (State.start setup : State T) where
  reaped r h := by cases h
  hashes op h := by cases h

/-- A move that reaps and hashes nothing. -/
theorem of_same (h : Hashed s) (hreaped : s'.queues.reaped = s.queues.reaped)
    (hraw : s'.queues.raw = s.queues.raw) (hhashes : ∀ op ∈ s'.hashes, op ∈ s.hashes) :
    Hashed s' where
  reaped := by rw [hreaped, hraw]; exact h.reaped
  hashes op hop := h.hashes op (hhashes op hop)

/-- A move to a phase with nothing reaped in hand. -/
theorem of_settled (h : Hashed s) (hs' : Settled s') (hphase : s'.phase ≠ .dispatching)
    (hhashes : ∀ op ∈ s'.hashes, op ∈ s.hashes) : Hashed s' where
  reaped r hr := by
    rw [hs'.reaped hphase] at hr
    cases hr
  hashes op hop := h.hashes op (hhashes op hop)

/-- The head of the reaped ops is dispatched. -/
theorem of_dispatch [Operands T] (h : Hashed s) (ho : Owned s) {context : Nat}
    {result : Except DmaError Unit} {reaped : List Reaped}
    (hreaped : s.queues.reaped = (context, result) :: reaped) (hreaped' : s'.queues.reaped = reaped)
    (hraw' : s'.queues.raw = s.queues.raw.erase context)
    (hhashes : ∀ op ∈ s'.hashes, op.1.localLease ≠ none) : Hashed s' where
  reaped r hr := by
    obtain ⟨-, -, hne⟩ := ho.ne_of_reaped hreaped
    rw [hreaped'] at hr
    rw [hraw']
    refine (h.reaped r ?_).erase (hne r hr)
    rw [hreaped]
    exact .tail _ hr
  hashes := hhashes

/-- Every move leaves the ops to hash their leases. -/
theorem step [Operands T] {m : Move T} (h : Hashed s)
    (hlocal : setup.device.requiresLocalMr = true) (hs' : Settled s') (hs : Settled s)
    (ho : Owned s) (hb : Boxed setup s) (hmove : Moves setup s m s') : Hashed s' := by
  obtain ⟨part, hmove⟩ := hmove
  cases hmove with
  | submit | send | sendFails | message | dropService | thread | write | releasePool
  | turn hturn | pinnedQuiesce base limit result phase hphase hnext =>
    exact h.of_same rfl rfl fun _ hop => hop
  | refused => exact h
  | hash before after op result batch done hpool =>
    refine h.of_same rfl rfl ?_
    intro reaped hreaped
    simp only [State.hashes, hpool, List.flatMap_append, List.flatMap_cons, List.mem_append,
      List.mem_cons] at hreaped ⊢
    tauto
  | finish before after done hpool =>
    refine h.of_same rfl rfl ?_
    intro reaped hreaped
    simp only [State.hashes, hpool, List.flatMap_append, List.flatMap_cons,
      List.mem_append] at hreaped ⊢
    tauto
  | reap reaped wire hphase htake =>
    -- A reaped op was posted with the descriptor of its lease.
    refine ⟨?_, h.hashes⟩
    intro r hr
    obtain ⟨post, hpost, hcontext, -⟩ := Wire.reported_of_take htake hr
    obtain ⟨op, hlookup, hmatches⟩ := hb.posts post hpost
    rw [hcontext] at hlookup
    refine ⟨op, hlookup, ?_⟩
    show op.localLease ≠ none
    rw [hmatches.descriptor]
    exact hb.descriptor hlocal post hpost
  | toQuiescing context reaped op read hphase hreaped hraw hquiesce
  | toCompletion context result reaped op hphase hreaped hraw hquiesce =>
    exact h.of_dispatch ho hreaped rfl rfl h.hashes
  | toCrc context result reaped op hphase hreaped hraw hquiesce =>
    refine h.of_dispatch ho hreaped rfl rfl ?_
    intro reaped' hop
    simp only [State.hashes, List.append_assoc, List.mem_append, List.mem_singleton] at hop
    rcases hop with hold | rfl | hpool
    · exact h.hashes reaped' (List.mem_append_left _ hold)
    · have hbox := h.reaped (context, result) (by rw [hreaped]; exact .head _)
      exact hbox.of_lookup hraw
    · exact h.hashes reaped' (List.mem_append_right _ hpool)
  | flush hphase =>
    refine h.of_settled hs' (by simp) ?_
    intro op hop
    simp only [State.hashes, List.flatMap_append, List.flatMap_cons, List.flatMap_nil,
      List.mem_append] at hop ⊢
    tauto
  | leftover ops raw hphase hreclaim =>
    refine h.of_settled hs' (by simp) ?_
    intro op hop
    exact List.mem_append_right _ hop
  | dangling context hraw howned => exact (ho.backed.not_dangling hraw howned).elim
  | danglingPending hphase hreclaim => exact (hs.not_danglingPending hphase hreclaim).elim
  | _ => exact h.of_settled hs' (by simp) fun _ hop => hop

end Hashed

/-- In every run the ops to hash have leases, where the provider needs them. -/
theorem hashed_reach [Operands T] {setup : Setup} {ok : State T → Move T → Prop}
    (hlocal : setup.device.requiresLocalMr = true) {s : State T}
    (h : (service T setup).Reach ok s) : Hashed s := by
  refine service_invariant (J := fun s => (Settled s ∧ Owned s) ∧ Boxed setup s) (I := Hashed)
    (fun s hs => ⟨owned_reach hs, boxed_reach hs⟩) (.start setup) ?_ h
  intro s m s' hs hs' hok hmove hhashed
  exact hhashed.step hlocal hs'.1.1 hs.1.1 hs.1.2 hs.2 hmove

/-! ### The end of the domain -/

namespace State

/-- Every registration taken on the endpoint's domain has been closed. -/
def AllClosed (setup : Setup) (s : State T) : Prop :=
  ∀ (r : Nat) (reg : Registration), s.cache.handles.cells[r]? = some reg →
    reg.domain = setup.device.domain → r ∈ s.cache.handles.dropped

/-- The pool has hashed every batch, where hashing needs a registration, and no other thread is
about to drop a lease on one of the endpoint's registrations. -/
structure LetGo (setup : Setup) (s : State T) : Prop where
  pool : setup.device.requiresLocalMr = true → ∀ job ∈ s.pool, job.batch = []
  threads : ∀ r ∈ s.threads, ∀ reg : Registration, s.cache.handles.cells[r]? = some reg →
    reg.domain ≠ setup.device.domain

instance (setup : Setup) (s : State T) : Decidable (s.LetGo setup) :=
  decidable_of_iff
    ((setup.device.requiresLocalMr = true → ∀ job ∈ s.pool, job.batch.isEmpty = true) ∧
      ∀ r ∈ s.threads, ∀ reg ∈ s.cache.handles.cells[r]?, reg.domain ≠ setup.device.domain)
    ⟨fun h => ⟨fun hlocal job hjob => List.isEmpty_iff.mp (h.1 hlocal job hjob), h.2⟩,
      fun h => ⟨fun hlocal job hjob => List.isEmpty_iff.mpr (h.pool hlocal job hjob), h.threads⟩⟩

/-- About to close the domain. -/
def closes (s : State T) : Move T → Bool
  | .worker _ =>
    match s.phase with
    | .closing => true
    | _ => false
  | _ => false

/-- A move that closes the domain only when the others have let go. -/
def ClosesLate (setup : Setup) (s : State T) (m : Move T) : Prop :=
  s.closes m = true → s.LetGo setup

instance (setup : Setup) (s : State T) (m : Move T) : Decidable (s.ClosesLate setup m) :=
  inferInstanceAs (Decidable (_ → _))

end State

/-- About to close its domain, the endpoint has closed every registration of it just when the
others have let go. -/
theorem allClosed_iff [Operands T] {setup : Setup} {s : State T}
    (h : (service T setup).Reachable s) (hphase : s.phase = .closing) :
    s.AllClosed setup ↔ s.LetGo setup := by
  obtain ⟨hs, ho⟩ := owned_reach h
  have hhomed := homed_reach h
  have hleased := leased_reach h
  have hquiet := hs.quiet (by rw [hphase]; rfl)
  constructor
  · intro hclosed
    -- What is closed nobody leases.
    have hnone : ∀ r, (∃ reg, s.cache.handles.cells[r]? = some reg ∧
        reg.domain = setup.device.domain) → s.leases r = 0 := by
      rintro r ⟨reg, hreg, hdomain⟩
      have hzero := (hleased.mem_dropped r).mp (hclosed r reg hreg hdomain)
      omega
    refine ⟨?_, ?_⟩
    · intro hlocal job hjob
      by_contra hne
      obtain ⟨op, hop⟩ := List.exists_mem_of_ne_nil _ hne
      have hhash : op ∈ s.hashes := List.mem_append_right _ (List.mem_flatMap.mpr ⟨job, hjob, hop⟩)
      obtain ⟨r, hr⟩ := Option.ne_none_iff_exists'.mp ((hashed_reach hlocal h).hashes op hhash)
      have hle := le_of_mem_boxes (List.mem_append_right _ (List.mem_map_of_mem hhash))
        (InFlight.leaseOn r)
      have hone : InFlight.leaseOn r op.1 = 1 := by
        rw [InFlight.leaseOn, hr]
        exact if_pos rfl
      have hpos : 0 < s.ownLeases r := by
        unfold State.ownLeases
        omega
      have hzero := hnone r (hhomed.home r hpos)
      rw [s.leases_eq] at hzero
      omega
    · intro r hr reg hreg hdomain
      have hpos := List.count_pos_iff.mpr hr
      have hzero := hnone r ⟨reg, hreg, hdomain⟩
      rw [s.leases_eq] at hzero
      omega
  · intro hletGo r reg hreg hdomain
    have hlt : r < s.cache.handles.next := (List.getElem?_eq_some_iff.mp hreg).1
    have hregistry : s.cache.registry.leases r = 0 := by
      by_contra hne
      obtain ⟨domain, base, e, he, rfl⟩ := Registry.exists_entry (Nat.pos_of_ne_zero hne)
      -- The extent would be on the domain that was cleared.
      have hcell := hhomed.named domain base e he
      rw [hreg] at hcell
      cases hcell
      have hnone := hhomed.absent (.inl (by rw [hphase]; rfl)) base
      rw [show domain = setup.device.domain from hdomain, hnone] at he
      cases he
    have hthreads : s.threads.count r = 0 := by
      rw [List.count_eq_zero]
      intro hr
      exact hletGo.threads r hr reg hreg hdomain
    have hown : s.ownLeases r = 0 := by
      cases hlocal : setup.device.requiresLocalMr with
      | false => exact (hhomed.needless hlocal).2 r
      | true =>
        have hraw := raw_of_quiet ho hs (by rw [hphase]; rfl) (by rw [hphase]; rfl)
        have hpool : (s.pool.map fun job =>
            (job.batch.map fun op => InFlight.leaseOn r op.1).sum).sum = 0 := by
          rw [List.sum_eq_zero_iff]
          intro n hn
          obtain ⟨job, hjob, rfl⟩ := List.mem_map.mp hn
          rw [hletGo.pool hlocal job hjob]
          rfl
        simp only [State.ownLeases, State.live, State.hashing, hphase, Phase.held, Phase.inHand,
          hraw, hquiet.quiescing, hquiet.crcPending, hpool, Assoc.weight_empty, List.map_nil,
          List.sum_nil, Nat.add_zero]
    refine (hleased.mem_dropped r).mpr ⟨hlt, ?_⟩
    rw [s.leases_eq]
    omega

/-- The phases past the drop of the endpoint. -/
def Phase.closed : Phase T → Bool
  | .leaving => true
  | .exited => true
  | _ => false

/-- Only the drop of the endpoint closes the domain. -/
theorem Moves.ended [Operands T] {setup : Setup} {s s' : State T} {m : Move T} (hs : Settled s)
    (ho : Owned s) (hmove : Moves setup s m s')
    (h : s.domainClosed = true → s.phase.closed = true) :
    s'.domainClosed = true → s'.phase.closed = true := by
  -- Messages are taken before the domain is closed.
  have htaken : Takes s → s.domainClosed = true → False := by
    intro htakes hclosed
    have hend := h hclosed
    cases htakes with
    | intake hphase => rw [hphase] at hend; cases hend
    | parking hphase hidle => rw [hphase] at hend; cases hend
  obtain ⟨part, hmove⟩ := hmove
  cases hmove with
  | submit | send | sendFails | message | refused | dropService | thread | write | hash | finish
  | releasePool =>
    exact h
  | close | leave => exact fun _ => rfl
  | turn hturn =>
    intro hclosed
    have hend := h hclosed
    -- No turn of a pass is taken once it is closed.
    cases hturn
    all_goals
      rw [‹s.phase = _›] at hend
      cases hend
  | accept number request channel op prepared htakes
  | refuse number request channel completion htakes
  | addPeer number client address inserted entry channel books htakes
  | addPeerFails number client address inserted error channel books htakes
  | removePeer number client channel htakes | pinMessage number base length channel htakes
  | nothingToPin number base length channel htakes =>
    exact fun hclosed => (htaken htakes hclosed).elim
  | pinnedQuiesce base limit result phase hphase hnext =>
    intro hclosed
    have hend := h hclosed
    rw [hphase] at hend
    cases hend
  | dangling context hraw howned => exact (ho.backed.not_dangling hraw howned).elim
  | danglingPending hphase hreclaim => exact (hs.not_danglingPending hphase hreclaim).elim
  | _ =>
    intro hclosed
    have hend := h hclosed
    rw [‹s.phase = _›] at hend
    cases hend

/-- The move that closes the domain. -/
theorem Moves.closes [Operands T] {setup : Setup} {s s' : State T} {m : Move T} (hs : Settled s)
    (ho : Owned s) (hmove : Moves setup s m s') (hbefore : s.domainClosed ≠ true)
    (hclosed : s'.domainClosed = true) :
    s.phase = .closing ∧ (∃ answer, m = .worker answer) ∧ s'.cache = s.cache := by
  obtain ⟨part, hmove⟩ := hmove
  cases hmove with
  | close hphase => exact ⟨hphase, ⟨_, rfl⟩, rfl⟩
  | dangling context hraw howned => exact (ho.backed.not_dangling hraw howned).elim
  | danglingPending hphase hreclaim => exact (hs.not_danglingPending hphase hreclaim).elim
  | _ => exact absurd hclosed hbefore

/-- Once they are all closed, no registration is taken on the domain any more. -/
theorem allClosed_step {setup : Setup} {s s' : State T} (h : s.AllClosed setup)
    (hphase : s.phase.closed = true) (hmove : LeaseMove setup s s') : s'.AllClosed setup := by
  have hstill : Cache.Still setup.device.domain s.cache s'.cache := by
    cases hmove with
    | keep hcache => exact hcache ▸ .refl _ _
    | drop lease hcache => exact hcache ▸ .dropLease _ _ _
    | call answer rest hstep =>
      -- The worker is in no call then.
      cases hp : s.phase with
      | leaving | exited =>
        rw [hp] at hstep
        cases hstep
      | _ =>
        rw [hp] at hphase
        cases hphase
    | thread step hstep => exact .of_thread hstep
    | clear hcache => exact hcache ▸ .clearDomain _ _ _
    | dropAll cleared hcleared hcache => exact hcache ▸ .dropLeases _ _ _
  intro r reg hreg hdomain
  exact hstill.dropped (h r reg (hstill.foreign r reg hreg hdomain) hdomain)

/-- In every run that closes the domain only when the others have let go, every registration of
the domain is closed by then. At the moment of closing nothing less will do. -/
theorem registrations_close_first [Operands T] (setup : Setup) :
    (∀ s : State T, (service T setup).Reach (State.ClosesLate setup) s →
      s.domainClosed = true → s.AllClosed setup) ∧
    (∀ s : State T, (service T setup).Reachable s → s.phase = .closing →
      (s.AllClosed setup ↔ s.LetGo setup)) := by
  refine ⟨fun s h => ?_, fun s h hphase => allClosed_iff h hphase⟩
  -- Once closed, the domain stays closed, and so do its registrations.
  have hended : s.domainClosed = true → s.phase.closed = true ∧ s.AllClosed setup := by
    refine service_invariant (J := (service T setup).Reachable)
      (I := fun s => s.domainClosed = true → s.phase.closed = true ∧ s.AllClosed setup)
      (fun s hs => hs.reachable) ?_ ?_ h
    · intro hclosed
      cases hclosed
    · intro s m s' hs hs' hok hmove hended hclosed
      obtain ⟨hsettled, howned⟩ := owned_reach hs
      refine ⟨hmove.ended hsettled howned (fun hbefore => (hended hbefore).1) hclosed, ?_⟩
      by_cases hbefore : s.domainClosed = true
      · obtain ⟨hphase, hall⟩ := hended hbefore
        -- They were closed already, and a closed one stays so.
        exact allClosed_step hall hphase (hmove.leaseMove hsettled howned)
      · -- This move closes it, and the condition is asked of the state before.
        obtain ⟨hphase, ⟨answer, rfl⟩, hcache⟩ := hmove.closes hsettled howned hbefore hclosed
        have hall := (allClosed_iff hs hphase).mpr (hok (by rw [State.closes, hphase]))
        rw [State.AllClosed, hcache]
        exact hall
  exact fun hclosed => (hended hclosed).2

/-- A checksummed write is hashed before the service is dropped, and the domain closes last. -/
theorem registrations_close_first_hashed :
    ∃ s, (service Buffer bufferSetup).run (State.start bufferSetup)
        (startUp ++ postWrite (writeTo 1 (List.replicate 32 254) true 4096) ++ quiesceAndHash
          ++ [.hash 0, .finish 0] ++ shutDown) = some s ∧
      s.domainClosed = true ∧ s.cache.handles.cells.length = 2 ∧ s.AllClosed bufferSetup := by
  have hobeys : (service Buffer bufferSetup).Obeys (State.ClosesLate bufferSetup)
      (State.start bufferSetup)
      (startUp ++ postWrite (writeTo 1 (List.replicate 32 254) true 4096) ++ quiesceAndHash
        ++ [.hash 0, .finish 0] ++ shutDown) := by
    decide +kernel
  obtain ⟨s, hrun, hclosed, hcells⟩ :
      ∃ s, (service Buffer bufferSetup).run (State.start bufferSetup)
          (startUp ++ postWrite (writeTo 1 (List.replicate 32 254) true 4096) ++ quiesceAndHash
            ++ [.hash 0, .finish 0] ++ shutDown) = some s ∧
        s.domainClosed = true ∧ s.cache.handles.cells.length = 2 :=
    ⟨_, rfl, rfl, rfl⟩
  have hreach := (Machine.Reach.init (M := service Buffer bufferSetup) rfl).run hobeys hrun
  exact ⟨s, hrun, hclosed, hcells, (registrations_close_first bufferSetup).1 s hreach hclosed⟩

/-- The service is dropped while the pool has yet to hash a write. The domain closes before the
registration of the quiesce buffer, which the write's box leases. -/
theorem registration_outlives_domain :
    ∃ s, (service Buffer bufferSetup).run (State.start bufferSetup)
        (startUp ++ postWrite (writeTo 1 (List.replicate 32 254) true 4096) ++ quiesceAndHash
          ++ shutDown) = some s ∧
      s.domainClosed = true ∧ s.cache.handles.cells[0]? = some ⟨7, 65536, 65544⟩ ∧
      s.cache.Open 0 ∧ ¬s.AllClosed bufferSetup := by
  obtain ⟨s, hrun, hclosed, hcell, hopen⟩ :
      ∃ s, (service Buffer bufferSetup).run (State.start bufferSetup)
          (startUp ++ postWrite (writeTo 1 (List.replicate 32 254) true 4096) ++ quiesceAndHash
            ++ shutDown) = some s ∧
        s.domainClosed = true ∧ s.cache.handles.cells[0]? = some ⟨7, 65536, 65544⟩ ∧
        s.cache.Open 0 :=
    ⟨_, rfl, rfl, rfl, by decide +kernel⟩
  refine ⟨s, hrun, hclosed, hcell, hopen, ?_⟩
  intro hall
  exact hopen.2 (hall 0 _ hcell rfl)

end Vdma.Fabric
