import Mathlib.Algebra.BigOperators.Group.Finset.Basic
import Vdma.Proofs.Sharing

/-!
# `Vdma.Proofs.SharedLeases`: every lease of the process is somebody's

A lease is held by the registry, by a call under way, by a transfer that got it with its operand,
or by a thread that took it out of the registry and has yet to drop it. `Call.held_step` is the
population law of the cache for a section of a call, and `Leased` for the whole process. So a
registration is open while anybody has a lease on it.

Only the threads below some number have ever called, so the sum over the threads is finite.
-/

set_option autoImplicit false

namespace Vdma.Fabric

open Vdma.Lib

/-! ### The leases of a call -/

/-- No lease is on nothing. -/
theorem leaseCount_none (r : Nat) : leaseCount none r = 0 := rfl

/-- A lease is on its own registration. -/
theorem leaseCount_some (lease r : Nat) :
    leaseCount (some lease) r = if r = lease then 1 else 0 := by
  unfold leaseCount
  exact if_congr (by rw [Option.some.injEq, eq_comm]) rfl rfl

/-- Dropping one of the leases that others hold. -/
theorem Cache.Held.drop_one {c : Cache} {rest rest' : Nat → Nat} (h : c.Held rest)
    {lease : Option Nat} (heq : ∀ r, rest r = rest' r + leaseCount lease r) :
    (c.dropLease lease).Held rest' := by
  refine (h.dropLease ?_).congr ?_
  · intro r hr
    have hrest := heq r
    rw [leaseCount, if_pos hr] at hrest
    omega
  · intro r
    have hrest := heq r
    simp only [leaseCount] at hrest
    omega

/-- Tracking a leased registration, with the lease of the replaced extent for the caller. -/
theorem Cache.Held.track_one {c : Cache} {rest : Nat → Nat} {lease : Nat}
    (h : c.Held fun r => rest r + leaseCount (some lease) r) (base limit : Nat) (domain : Domain) :
    (c.track base limit domain lease).1.Held fun r =>
      rest r + (leaseCount (c.track base limit domain lease).2 r + leaseCount (some lease) r) := by
  have hpos : 0 < rest lease + leaseCount (some lease) lease := by
    rw [leaseCount_some, if_pos rfl]
    omega
  refine (h.track hpos base limit domain).congr fun r => ?_
  simp only [leaseCount]
  omega

/-- A section of `operand` moves leases between the cache and the call. -/
theorem OperandCall.held_step {lib : Libfabric} {domain : Domain} {c c' : Cache}
    {call call' : OperandCall} {answer : RegionAnswer} {rest : Nat → Nat}
    (h : c.Held fun r => rest r + call.held r)
    (hstep : call.step lib domain c answer = some (c', call')) :
    c'.Held fun r => rest r + call'.held r := by
  cases call with
  -- A hit clones the lease of the entry; a miss holds nothing.
  | lookup start stop =>
    cases answer <;> simp only [OperandCall.step, reduceCtorEq] at hstep
    have hcovering := h.covering start stop domain
    split at hstep
    · next c₁ lease hcov =>
      cases hstep
      rw [hcov] at hcovering
      exact hcovering
    · next c₁ hcov =>
      cases hstep
      rw [hcov] at hcovering
      exact hcovering
  | ask start stop =>
    cases answer <;> simp only [OperandCall.step, reduceCtorEq] at hstep
    split at hstep <;> cases hstep <;> exact h
  | register start stop base limit cacheable =>
    cases answer <;> simp only [OperandCall.step, reduceCtorEq] at hstep
    split at hstep
    · -- The new lease is the call's, to track or to return.
      have hregister := h.register domain base limit
      cases hstep
      refine hregister.congr fun r => ?_
      cases cacheable <;> exact congrArg (rest r + ·) (leaseCount_some c.handles.next r).symm
    · -- A failed registration holds nothing, whatever the call does next.
      cases hstep
      split <;> exact h
  | track base limit lease =>
    cases answer <;> simp only [OperandCall.step, reduceCtorEq] at hstep
    cases hstep
    exact h.track_one base limit domain
  -- The replaced lease goes, the call's own stays.
  | superseded replaced lease =>
    cases answer <;> simp only [OperandCall.step, reduceCtorEq] at hstep
    cases hstep
    refine h.drop_one fun r => ?_
    show rest r + (leaseCount replaced r + leaseCount (some lease) r)
      = rest r + leaseCount (some lease) r + leaseCount replaced r
    omega
  | done operand => cases answer <;> cases hstep
  | failed error => cases answer <;> cases hstep

/-- A section of `pin` does the same. -/
theorem PinCall.held_step {lib : Libfabric} {domain : Domain} {base limit : Nat} {c c' : Cache}
    {call call' : PinCall} {answer : RegionAnswer} {rest : Nat → Nat}
    (h : c.Held fun r => rest r + call.held r)
    (hstep : call.step lib domain base limit c answer = some (c', call')) :
    c'.Held fun r => rest r + call'.held r := by
  cases call with
  | register =>
    cases answer <;> simp only [PinCall.step, reduceCtorEq] at hstep
    split at hstep
    · -- The new lease is the call's.
      have hregister := h.register domain base limit
      cases hstep
      refine hregister.congr fun r => ?_
      exact congrArg (rest r + ·) (leaseCount_some c.handles.next r).symm
    · cases hstep
      exact h
  | track lease =>
    cases answer <;> simp only [PinCall.step, reduceCtorEq] at hstep
    cases hstep
    exact h.track_one base limit domain
  -- The lease that was replaced goes first, then the call's own: the registry has the other.
  | superseded replaced lease =>
    cases answer <;> simp only [PinCall.step, reduceCtorEq] at hstep
    cases hstep
    refine h.drop_one fun r => ?_
    show rest r + (leaseCount replaced r + leaseCount (some lease) r)
      = rest r + leaseCount (some lease) r + leaseCount replaced r
    omega
  | release lease =>
    cases answer <;> simp only [PinCall.step, reduceCtorEq] at hstep
    cases hstep
    exact h.drop_one fun r => rfl
  | done result => cases answer <;> cases hstep

/-- The leases a call holds on `r`. -/
def Call.held (r : Nat) : Call → Nat
  | .idle => 0
  | .operand _ call => call.held r
  | .pin _ call => call.held r

/-- A section of any call moves leases between the cache and the call. -/
theorem Call.held_step {lib : Libfabric} {c c' : Cache} {call call' : Call} {answer : RegionAnswer}
    {rest : Nat → Nat} (h : c.Held fun r => rest r + call.held r)
    (hstep : call.step lib c answer = some (c', call')) :
    c'.Held fun r => rest r + call'.held r := by
  cases call with
  | idle => cases hstep
  | operand domain call =>
    simp only [Call.step, Option.map_eq_some_iff, Prod.mk.injEq, Prod.exists] at hstep
    obtain ⟨c₁, next, hnext, rfl, rfl⟩ := hstep
    exact OperandCall.held_step h hnext
  | pin region call =>
    simp only [Call.step, Option.map_eq_some_iff, Prod.mk.injEq, Prod.exists] at hstep
    obtain ⟨c₁, next, hnext, rfl, rfl⟩ := hstep
    exact PinCall.held_step h hnext

/-! ### The leases of a process -/

namespace Shared

variable {s s' : Shared} {n : Nat}

/-- The leases on `r`, but for those of the registry, when the threads from `n` on are idle. -/
def others (s : Shared) (n r : Nat) : Nat :=
  (∑ t ∈ Finset.range n, (s.calls t).held r) + s.retired.count r + s.leases.count r

/-- The population law of the cache. -/
structure Leased (n : Nat) (s : Shared) : Prop where
  idle : ∀ t, n ≤ t → s.calls t = .idle
  held : s.cache.Held (s.others n)

/-- At the start there is no lease. -/
theorem leased_start : Leased 0 Shared.start where
  idle _ _ := rfl
  held := Cache.Held.empty

/-- Idle threads hold nothing. -/
theorem Leased.widen (h : Leased n s) {m : Nat} (hle : n ≤ m) : Leased m s where
  idle t ht := h.idle t (Nat.le_trans hle ht)
  held := by
    refine h.held.congr fun r => ?_
    have hsum : ∑ t ∈ Finset.range n, (s.calls t).held r
        = ∑ t ∈ Finset.range m, (s.calls t).held r := by
      refine Finset.sum_subset (Finset.range_mono hle) ?_
      intro t _ ht
      rw [h.idle t (Nat.le_of_not_lt fun hlt => ht (Finset.mem_range.mpr hlt))]
      rfl
    simp only [others, hsum]

/-- The leases of one thread and those of the others. -/
theorem sum_held {thread : Nat} (hthread : thread < n) (r : Nat) :
    ∑ t ∈ Finset.range n, (s.calls t).held r
      = (s.calls thread).held r + ∑ t ∈ (Finset.range n).erase thread, (s.calls t).held r :=
  (Finset.add_sum_erase _ (fun t => (s.calls t).held r) (Finset.mem_range.mpr hthread)).symm

/-- One thread goes on. -/
theorem sum_held_update {thread : Nat} (hthread : thread < n) (call : Call) (r : Nat) :
    ∑ t ∈ Finset.range n, (Function.update s.calls thread call t).held r
      = call.held r + ∑ t ∈ (Finset.range n).erase thread, (s.calls t).held r := by
  rw [← Finset.add_sum_erase _ _ (Finset.mem_range.mpr hthread), Function.update_self]
  refine congrArg (call.held r + ·) (Finset.sum_congr rfl ?_)
  intro t ht
  rw [Function.update_of_ne (Finset.ne_of_mem_erase ht)]

/-- One thread goes on, and the leases that its call lets go of go elsewhere, or come from
elsewhere. -/
theorem Leased.update (h : Leased n s) (thread : Nat) (hthread : thread < n) {call : Call}
    (hcalls : s'.calls = Function.update s.calls thread call)
    (hheld : ∀ rest : Nat → Nat,
      s.cache.Held (fun r => rest r + (s.calls thread).held r + s.retired.count r
        + s.leases.count r) →
      s'.cache.Held (fun r => rest r + call.held r + s'.retired.count r + s'.leases.count r)) :
    Leased n s' where
  idle t ht := by
    rw [hcalls, Function.update_of_ne (by omega)]
    exact h.idle t ht
  held := by
    refine Cache.Held.congr (hheld
      (fun r => ∑ t ∈ (Finset.range n).erase thread, (s.calls t).held r)
      (h.held.congr fun r => ?_)) fun r => ?_
    · rw [others, sum_held hthread, Nat.add_comm (Call.held r _)]
    · rw [others, hcalls, sum_held_update hthread, Nat.add_comm (Call.held r _)]

/-- No call moves. -/
theorem Leased.same_calls (h : Leased n s) (hcalls : s'.calls = s.calls)
    (hheld : ∀ rest : Nat → Nat,
      s.cache.Held (fun r => rest r + s.retired.count r + s.leases.count r) →
      s'.cache.Held (fun r => rest r + s'.retired.count r + s'.leases.count r)) :
    Leased n s' where
  idle t ht := by
    rw [hcalls]
    exact h.idle t ht
  held := by
    refine Cache.Held.congr (hheld _ h.held) fun r => ?_
    rw [others, hcalls]

/-- A call that has just begun holds nothing. -/
theorem held_operand (domain : Domain) (requires : Bool) (pointer length r : Nat) :
    (Call.operand domain (if requires then .begin pointer length else .done .null)).held r = 0 := by
  unfold OperandCall.begin
  split
  · split <;> rfl
  · rfl

/-- A pin that begins holds nothing. -/
theorem held_pin (region : Region) (requires : Bool) (base length r : Nat) :
    (Call.pin region (if requires then .begin base length else .done (.ok ()))).held r = 0 := by
  unfold PinCall.begin
  split
  · split <;> rfl
  · rfl

/-- A thread begins a call. -/
theorem Leased.begin (h : Leased n s) {thread : Nat} {call : Call}
    (hidle : s.calls thread = .idle) (hcall : ∀ r, call.held r = 0) :
    Leased (max n (thread + 1)) (s.setCall thread call) := by
  refine (h.widen (Nat.le_max_left n (thread + 1))).update thread (by omega) rfl ?_
  intro rest hheld
  refine hheld.congr fun r => ?_
  rw [hidle, hcall]
  rfl

/-- A lease on its own, or in a list. -/
theorem leaseCount_eq_count (lease : Option Nat) (r : Nat) :
    leaseCount lease r = lease.toList.count r := by
  cases lease with
  | none => rfl
  | some lease =>
    rw [leaseCount_some, Option.toList_some, List.count_singleton]
    exact if_congr (by rw [beq_iff_eq, eq_comm]) rfl rfl

/-- One lease of a list is dropped. -/
theorem count_of_erase {l : List Nat} {lease : Nat} (hmem : lease ∈ l) (r : Nat) :
    l.count r = (l.erase lease).count r + leaseCount (some lease) r := by
  rw [(List.perm_cons_erase hmem).count_eq r, List.count_cons, leaseCount_some]
  exact congrArg _ (if_congr (by rw [beq_iff_eq, eq_comm]) rfl rfl)

/-- The leases that `invalidate` takes out wait to be dropped. -/
theorem Leased.invalidate (h : Leased n s) (start stop : Nat) :
    Leased n (s.invalidate start stop) := by
  refine h.same_calls rfl fun rest hheld => ?_
  refine (Cache.Held.invalidate hheld start stop).congr fun r => ?_
  show _ = rest r + (s.retired ++ (s.cache.invalidate start stop).2).count r + s.leases.count r
  rw [List.count_append]
  omega

/-- A call that returns hands its operand's lease to the transfer. -/
theorem Leased.ret {lib : Libfabric} {requiresLocalMr : Domain → Bool} {thread : Nat}
    (h : Leased n s) (hstep : s.step lib requiresLocalMr (.ret thread) = some s') :
    ∃ m, Leased m s' := by
  have hthread : thread < n := by
    by_contra hge
    simp only [Shared.step, Shared.ret, h.idle thread (by omega)] at hstep
    cases hstep
  simp only [Shared.step, Shared.ret] at hstep
  split at hstep
  · next domain operand hcall =>
    -- The operand's lease goes with the transfer.
    cases hstep
    refine ⟨n, h.update thread hthread rfl fun rest hheld => ?_⟩
    refine hheld.congr fun r => ?_
    rw [hcall]
    show rest r + leaseCount operand.lease r + s.retired.count r + s.leases.count r
      = rest r + 0 + s.retired.count r + (operand.lease.toList ++ s.leases).count r
    rw [List.count_append, leaseCount_eq_count]
    omega
  · next domain error hcall =>
    cases hstep
    refine ⟨n, h.update thread hthread rfl fun rest hheld => ?_⟩
    rw [hcall] at hheld
    exact hheld
  · next region hcall =>
    cases hstep
    refine ⟨n, h.update thread hthread rfl fun rest hheld => ?_⟩
    rw [hcall] at hheld
    exact hheld
  · next region error hcall =>
    cases hstep
    refine ⟨n, h.update thread hthread rfl fun rest hheld => ?_⟩
    rw [hcall] at hheld
    exact hheld
  · cases hstep

/-- Every step keeps the law. -/
theorem Leased.step {lib : Libfabric} {requiresLocalMr : Domain → Bool} {e : Event}
    (h : Leased n s) (hstep : s.step lib requiresLocalMr e = some s') : ∃ m, Leased m s' := by
  cases e with
  | operand thread domain pointer length =>
    simp only [Shared.step] at hstep
    split at hstep
    · next hidle =>
      cases hstep
      exact ⟨_, h.begin hidle (held_operand _ _ _ _)⟩
    · cases hstep
  | register thread domain base length =>
    simp only [Shared.step] at hstep
    split at hstep
    · next hidle hspan =>
      cases hstep
      exact ⟨_, h.begin hidle (held_pin _ _ _ _)⟩
    · cases hstep
      exact ⟨n, h⟩
    · cases hstep
  | step thread answer =>
    obtain ⟨⟨c, call⟩, hcall, rfl⟩ := Option.map_eq_some_iff.mp hstep
    have hthread : thread < n := by
      by_contra hge
      rw [h.idle thread (by omega)] at hcall
      cases hcall
    refine ⟨n, h.update thread hthread rfl fun rest hheld => ?_⟩
    have hmoved : c.Held fun r => rest r + s.retired.count r + s.leases.count r + call.held r :=
      Call.held_step (hheld.congr fun r => by omega) hcall
    refine hmoved.congr fun r => ?_
    show _ = rest r + call.held r + s.retired.count r + s.leases.count r
    omega
  | ret thread => exact h.ret hstep
  | cloneRegion i =>
    simp only [Shared.step] at hstep
    split at hstep
    · cases hstep
    · cases hstep
      exact ⟨n, h.same_calls rfl fun rest hheld => hheld⟩
  | dropRegion i =>
    obtain ⟨region, -, ⟨-, rfl⟩ | ⟨-, rfl⟩⟩ := dropRegion_cases hstep
    · have hdropped : Leased n { s with regions := s.regions.drop i } :=
        h.same_calls rfl fun rest hheld => hheld
      exact ⟨n, hdropped.invalidate region.base region.limit⟩
    · exact ⟨n, h.same_calls rfl fun rest hheld => hheld⟩
  | invalidate start stop =>
    cases hstep
    exact ⟨n, h.invalidate start stop⟩
  | dropRetired lease =>
    simp only [Shared.step] at hstep
    split at hstep
    · next hmem =>
      cases hstep
      refine ⟨n, h.same_calls rfl fun rest hheld => ?_⟩
      refine hheld.drop_one fun r => ?_
      have hcount := count_of_erase hmem r
      show _ = rest r + (s.retired.erase lease).count r + s.leases.count r
        + leaseCount (some lease) r
      omega
    · cases hstep
  | dropLease lease =>
    simp only [Shared.step] at hstep
    split at hstep
    · next hmem =>
      cases hstep
      refine ⟨n, h.same_calls rfl fun rest hheld => ?_⟩
      refine hheld.drop_one fun r => ?_
      have hcount := count_of_erase hmem r
      show _ = rest r + s.retired.count r + (s.leases.erase lease).count r
        + leaseCount (some lease) r
      omega
    · cases hstep
  | closeDomain domain =>
    cases hstep
    refine ⟨n, h.same_calls rfl fun rest hheld => ?_⟩
    refine (Cache.Held.clearDomain hheld domain).congr fun r => ?_
    show _ = rest r + (s.retired ++ (s.cache.clearDomain domain).2).count r + s.leases.count r
    rw [List.count_append]
    omega

/-- In every run, each lease is accounted for. -/
theorem leased_reach {lib : Libfabric} {requiresLocalMr : Domain → Bool} {s : Shared}
    (h : (sharing lib requiresLocalMr).Reachable s) : ∃ n, Leased n s := by
  refine h.invariant (I := fun s => ∃ n, Leased n s) ?_ ?_
  · rintro s rfl
    exact ⟨0, leased_start⟩
  · rintro s e s' - hstep ⟨n, hs⟩
    exact hs.step hstep

/-- What a thread's call holds is open. -/
theorem Leased.open_of_held (h : Leased n s) (thread : Nat) {r : Nat}
    (hheld : 0 < (s.calls thread).held r) : s.cache.Open r := by
  have hthread : thread < n := by
    by_contra hge
    rw [h.idle thread (by omega)] at hheld
    exact absurd hheld (Nat.lt_irrefl 0)
  rw [h.held.open_iff, others, sum_held hthread]
  omega

end Shared

end Vdma.Fabric
