import Vdma.Fabric.LocalRegions
import Vdma.Fabric.Server
import Vdma.Lib.Machine

/-!
# `Vdma.Fabric.Sharing`: every thread on the registration cache

The registration cache is one per process. Workers look operands up and track
them, callers register regions and drop them, and anybody calls `invalidate`.
`sharing` is the machine of all these threads: a label names the thread and the
section it runs, so a run is one interleaving of sections.

`invalidate` and `clear_domain` take their extents out of the registry in one
section and drop the leases afterwards, one by one, so these wait in `retired`. The
leases of returned operands wait in `leases` for the end of their transfers.
`invalidations` keeps what a statement about the past needs: the range of each
`invalidate`, and the age the next registration was to get.

A domain stands for one endpoint and its name is not used again. `closeDomain` is
`LibfabricEndpoint::drop`. The worker of that domain has stopped by then, but no
result needs it, so the step asks for nothing.
-/

set_option autoImplicit false

namespace Vdma.Fabric

open Vdma.Lib

/-- A byte lies in both `[start, stop)` and `[base, limit)`. -/
def SharesByte (start stop base limit : Nat) : Prop :=
  ∃ x, start ≤ x ∧ x < stop ∧ base ≤ x ∧ x < limit

/-- Ranges sharing a byte pass the overlap test of `invalidate`. -/
theorem overlaps_of_sharesByte {start stop base : Nat} {e : RegionEntry}
    (h : SharesByte start stop base e.limit) : overlaps start stop base e = true := by
  obtain ⟨x, hstart, hstop, hbase, hlimit⟩ := h
  simp only [overlaps, Bool.and_eq_true, decide_eq_true_eq]
  omega

/-- The span of a `MemoryRegion`, and the domain it is registered on. -/
structure Region where
  domain : Domain
  base : Nat
  limit : Nat
  deriving DecidableEq, Repr

/-- A past `invalidate`. The registrations it met are those named below
`before`. -/
structure Invalidation where
  start : Nat
  stop : Nat
  before : Nat
  deriving DecidableEq, Repr

/-- What a thread is doing with the registration path. -/
inductive Call where
  | idle
  | operand (domain : Domain) (call : OperandCall)
  | pin (region : Region) (call : PinCall)

namespace Call

/-- The next section of the call. -/
def step (lib : Libfabric) (c : Cache) : Call → RegionAnswer → Option (Cache × Call)
  | .idle, _ => none
  | .operand domain call, answer =>
    (call.step lib domain c answer).map fun next => (next.1, .operand domain next.2)
  | .pin region call, answer =>
    (call.step lib region.domain region.base region.limit c answer).map fun next =>
      (next.1, .pin region next.2)

/-- The extent the call registered and has yet to track, and its registration. -/
def untracked : Call → Option (Registration × Nat)
  | .operand domain (.track base limit lease) => some (⟨domain, base, limit⟩, lease)
  | .pin region (.track lease) => some (⟨region.domain, region.base, region.limit⟩, lease)
  | _ => none

/-- The region the call has pinned and is about to hand out. -/
def pinned : Call → Option Region
  | .pin region (.superseded _ _) => some region
  | .pin region (.release _) => some region
  | .pin region (.done (.ok ())) => some region
  | _ => none

end Call

/-- The registration cache and all that the threads hold on it. -/
structure Shared where
  cache : Cache
  calls : Nat → Call
  retired : List Nat
  leases : List Nat
  regions : Handles Region
  closed : List Domain
  invalidations : List Invalidation

/-- What a thread does next. -/
inductive Event where
  /-- A worker starts `local_operand`. -/
  | operand (thread : Nat) (domain : Domain) (pointer length : Nat)
  /-- A caller starts `FabricService::register`. -/
  | register (thread : Nat) (domain : Domain) (base length : Nat)
  /-- The thread's call runs a section. -/
  | step (thread : Nat) (answer : RegionAnswer)
  /-- The thread's call returns. -/
  | ret (thread : Nat)
  | cloneRegion (region : Nat)
  | dropRegion (region : Nat)
  | invalidate (start stop : Nat)
  /-- A thread drops a lease it took out of the registry. -/
  | dropRetired (lease : Nat)
  /-- A transfer drops its operand's lease. -/
  | dropLease (lease : Nat)
  | closeDomain (domain : Domain)

namespace Shared

/-- A process that has registered nothing. -/
def start : Shared where
  cache := Cache.empty
  calls := fun _ => .idle
  retired := []
  leases := []
  regions := Handles.empty
  closed := []
  invalidations := []

/-- Puts a thread's call at another place. -/
def setCall (s : Shared) (thread : Nat) (call : Call) : Shared :=
  { s with calls := Function.update s.calls thread call }

/-- The lock section of `invalidate`. -/
def invalidate (s : Shared) (start stop : Nat) : Shared :=
  let retired := s.cache.invalidate start stop
  { s with
    cache := retired.1
    retired := s.retired ++ retired.2
    invalidations := ⟨start, stop, s.cache.handles.next⟩ :: s.invalidations }

/-- The return of a thread's call: an operand keeps its lease for the transfer,
and a pinned span becomes a region. -/
def ret (s : Shared) (thread : Nat) : Option Shared :=
  match s.calls thread with
  | .operand _ (.done operand) =>
    some { s.setCall thread .idle with leases := operand.lease.toList ++ s.leases }
  | .operand _ (.failed _) => some (s.setCall thread .idle)
  | .pin region (.done (.ok ())) =>
    some { s.setCall thread .idle with regions := s.regions.new region }
  | .pin _ (.done (.error _)) => some (s.setCall thread .idle)
  | _ => none

/-- Drops a clone of a region. The last one retires the region's range. -/
def dropRegion (s : Shared) (i : Nat) : Option Shared :=
  match s.regions.cells[i]? with
  | none => none
  | some region =>
    if s.regions.strong i = 0 then none
    else
      let dropped := { s with regions := s.regions.drop i }
      -- `Drop for Region` runs once, after the last clone.
      some (if s.regions.strong i = 1 then dropped.invalidate region.base region.limit
        else dropped)

/-- One event. -/
def step (lib : Libfabric) (requiresLocalMr : Domain → Bool) (s : Shared) : Event → Option Shared
  | .operand thread domain pointer length =>
    match s.calls thread with
    | .idle =>
      some (s.setCall thread (.operand domain
        (if requiresLocalMr domain then .begin pointer length else .done .null)))
    | _ => none
  | .register thread domain base length =>
    match s.calls thread, registerSpan base length with
    -- A provider without local registration has nothing to pin, and hands out the region.
    | .idle, .ok span =>
      some (s.setCall thread (.pin ⟨domain, span.1, span.2⟩
        (if requiresLocalMr domain then .begin base length else .done (.ok ()))))
    -- `register` answers the error without asking the worker.
    | .idle, .error _ => some s
    | _, _ => none
  | .step thread answer =>
    ((s.calls thread).step lib s.cache answer).map fun next =>
      { s.setCall thread next.2 with cache := next.1 }
  | .ret thread => s.ret thread
  | .cloneRegion i =>
    if s.regions.strong i = 0 then none else some { s with regions := s.regions.clone i }
  | .dropRegion i => s.dropRegion i
  | .invalidate start stop => some (s.invalidate start stop)
  | .dropRetired lease =>
    if lease ∈ s.retired then
      some { s with retired := s.retired.erase lease, cache := s.cache.dropLease (some lease) }
    else none
  | .dropLease lease =>
    if lease ∈ s.leases then
      some { s with leases := s.leases.erase lease, cache := s.cache.dropLease (some lease) }
    else none
  | .closeDomain domain =>
    let cleared := s.cache.clearDomain domain
    some { s with
      cache := cleared.1
      retired := s.retired ++ cleared.2
      closed := domain :: s.closed }

end Shared

/-- The threads of a process on its registration cache. `requiresLocalMr` says
which endpoints need their operands registered. -/
def sharing (lib : Libfabric) (requiresLocalMr : Domain → Bool) : Machine Shared Event where
  init s := s = Shared.start
  step := Shared.step lib requiresLocalMr

end Vdma.Fabric
