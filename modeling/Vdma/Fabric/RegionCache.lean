import Mathlib.Data.List.MinMax
import Vdma.Lib.Assoc
import Vdma.Lib.Handles

/-!
# `Vdma.Fabric.RegionCache`: the process-global registration cache

The registry (`region_cache.rs`) maps each domain to its tracked extents, keyed
by base address. A tracked extent holds a lease on its registration, and the
registration is deregistered by `fi_close` when its last lease drops.

`Registry` is the map under the lock. `Vec<DomainRegions>` has one element per
domain and `BTreeMap` one entry per base, so both are association lists with
distinct keys. The order of the tree shows in one place only, the predecessor
lookup of `covering`, which is `lastAtOrBelow`.

`Cache` puts the registrations beside the registry: reference-counted cells, in
the order `fi_mr_reg` made them. A registration is closed when it is finalised,
so `handles.dropped` is the list of `fi_close` calls. Each operation is one
section under the registry lock. The leases an operation takes out of the registry
come back to the caller, because the source drops them after the lock is
released.

The population law is `Cache.Held cache rest`: the counters equal the leases of
the registry plus those held by others, `rest`. Each operation has one rule for
it.
-/

set_option autoImplicit false

namespace Vdma.Fabric

open Vdma.Lib

/-- A libfabric domain, by the address of its `fid_domain`. -/
abbrev Domain := Nat

/-- A registration: the domain and the range `fi_mr_reg` was called with. -/
structure Registration where
  domain : Domain
  base : Nat
  limit : Nat
  deriving DecidableEq, Repr

/-- A tracked extent: its end, and the registration it leases, by name. -/
structure RegionEntry where
  limit : Nat
  registration : Nat
  deriving DecidableEq, Repr

/-- The extents tracked on one domain, by base address. -/
abbrev Regions := Assoc Nat RegionEntry

/-- The extents tracked on each domain. -/
abbrev Registry := Assoc Domain Regions

/-- The extent with the greatest base at or below `start`:
`range(..=start).next_back()`. -/
def lastAtOrBelow (regions : Regions) (start : Nat) : Option (Sigma fun _ : Nat => RegionEntry) :=
  (regions.entries.filter fun e => e.1 ≤ start).argmax Sigma.fst

/-- The overlap test of `invalidate`, for the extent `[base, limit)`. -/
def overlaps (start stop base : Nat) (entry : RegionEntry) : Bool :=
  decide (base < stop) && decide (start < entry.limit)

namespace Registry

/-- The extents of `domain`, none on first use. -/
def domainRegions (registry : Registry) (domain : Domain) : Regions :=
  (registry.lookup domain).getD ∅

/-- The extent tracked at `base` on `domain`. -/
def entry (registry : Registry) (domain : Domain) (base : Nat) : Option RegionEntry :=
  (domainRegions registry domain).lookup base

/-- Records an extent, and returns the one it replaces. -/
def track (registry : Registry) (base limit : Nat) (domain : Domain) (registration : Nat) :
    Registry × Option RegionEntry :=
  let regions := domainRegions registry domain
  (registry.insert domain (regions.insert base ⟨limit, registration⟩), regions.lookup base)

/-- The registration of the extent that starts last at or below `start`, when
that extent covers `[start, stop)`. -/
def covering (registry : Registry) (start stop : Nat) (domain : Domain) : Option Nat :=
  match registry.lookup domain with
  | none => none
  | some regions =>
    ((lastAtOrBelow regions start).filter fun e =>
      decide (e.1 ≤ start) && decide (stop ≤ e.2.limit)).map fun e => e.2.registration

/-- Removes every extent overlapping `[start, stop)`, on every domain, and
returns the leases it held. -/
def invalidate (registry : Registry) (start stop : Nat) : Registry × List Nat :=
  (Assoc.mapValues (Assoc.retain fun base entry => !overlaps start stop base entry) registry,
    registry.values.flatMap fun regions =>
      (Assoc.retain (overlaps start stop) regions).values.map RegionEntry.registration)

/-- Removes every extent of `domain`, and returns the leases it held. -/
def clearDomain (registry : Registry) (domain : Domain) : Registry × List Nat :=
  match registry.lookup domain with
  | some regions => (registry.erase domain, regions.values.map RegionEntry.registration)
  | none => (registry, [])

/-- The leases of one extent on `r`. -/
def leaseOn (r : Nat) (e : RegionEntry) : Nat := if e.registration = r then 1 else 0

/-- The lease of an extent that may be missing. -/
theorem leaseOn_getD (r : Nat) (replaced : Option RegionEntry) :
    (replaced.map (leaseOn r)).getD 0
      = if replaced.map RegionEntry.registration = some r then 1 else 0 := by
  cases replaced <;> simp [leaseOn]

/-- The number of leases the registry holds on `r`. -/
def leases (registry : Registry) (r : Nat) : Nat :=
  Assoc.weight (Assoc.weight (leaseOn r)) registry

/-! ### What the operations do to the tracked extents -/

/-- After `track`, the new extent stands at its base and the others stay. -/
theorem entry_track (registry : Registry) (base limit : Nat) (domain : Domain) (r : Nat)
    (domain' : Domain) (base' : Nat) :
    entry (track registry base limit domain r).1 domain' base'
      = if domain' = domain ∧ base' = base then some ⟨limit, r⟩
        else entry registry domain' base' := by
  unfold entry domainRegions track
  by_cases hd : domain' = domain
  · subst hd
    rw [AList.lookup_insert]
    by_cases hb : base' = base
    · subst hb
      simp
    · simp [hb, domainRegions]
  · simp [hd]

/-- After `invalidate`, the extents that do not overlap the range stay. -/
theorem entry_invalidate (registry : Registry) (start stop : Nat) (domain : Domain) (base : Nat) :
    entry (invalidate registry start stop).1 domain base
      = (entry registry domain base).filter fun e => !overlaps start stop base e := by
  unfold entry domainRegions invalidate
  rw [Assoc.lookup_mapValues]
  cases registry.lookup domain with
  | none => rfl
  | some regions =>
    simp only [Option.map_some, Option.getD_some]
    exact Assoc.lookup_retain _ regions base

/-- After `clearDomain`, the domain has no extent and the others keep theirs. -/
theorem entry_clearDomain (registry : Registry) (domain domain' : Domain) (base : Nat) :
    entry (clearDomain registry domain).1 domain' base
      = if domain' = domain then none else entry registry domain' base := by
  unfold entry domainRegions clearDomain
  by_cases hd : domain' = domain
  · subst hd
    cases h : registry.lookup domain' with
    | none => simp [h]
    | some regions => simp
  · cases registry.lookup domain with
    | none => simp [hd]
    | some regions => simp [hd]

/-- What `covering` answers: the extent that starts last at or below `start`
covers the range. -/
theorem covering_eq_some_iff (registry : Registry) (start stop : Nat) (domain : Domain) (r : Nat) :
    covering registry start stop domain = some r ↔
      ∃ base e, lastAtOrBelow (domainRegions registry domain) start = some ⟨base, e⟩ ∧
        base ≤ start ∧ stop ≤ e.limit ∧ e.registration = r := by
  unfold covering domainRegions
  cases registry.lookup domain with
  | none => simp [lastAtOrBelow, List.argmax_nil]
  | some regions =>
    simp only [Option.getD_some, Option.map_eq_some_iff, Option.filter_eq_some_iff,
      Bool.and_eq_true, decide_eq_true_eq, Sigma.exists]
    constructor
    · rintro ⟨base, e, ⟨hlast, hb, he⟩, hr⟩
      exact ⟨base, e, hlast, hb, he, hr⟩
    · rintro ⟨base, e, hlast, hb, he, hr⟩
      exact ⟨base, e, ⟨hlast, hb, he⟩, hr⟩

/-! ### What the operations do to the leases -/

/-- An empty registry has no lease. -/
@[simp] theorem leases_empty (r : Nat) : leases ∅ r = 0 := rfl

/-- The registry's lease on a replaced extent is traded for one on the new
registration. -/
theorem leases_track (registry : Registry) (base limit : Nat) (domain : Domain) (r' r : Nat) :
    leases (track registry base limit domain r').1 r
        + ((track registry base limit domain r').2.map (leaseOn r)).getD 0
      = leases registry r + if r' = r then 1 else 0 := by
  have hinner : ∀ regions : Regions,
      Assoc.weight (leaseOn r) (regions.insert base ⟨limit, r'⟩)
          + ((regions.lookup base).map (leaseOn r)).getD 0
        = Assoc.weight (leaseOn r) regions + if r' = r then 1 else 0 := by
    intro regions
    cases hl : regions.lookup base with
    | none =>
      rw [Assoc.weight_insert_of_none hl]
      simp only [leaseOn, Option.map_none, Option.getD_none]
      omega
    | some e =>
      have h := Assoc.weight_insert_of_some hl (leaseOn r) ⟨limit, r'⟩
      have hnew : leaseOn r ⟨limit, r'⟩ = if r' = r then 1 else 0 := rfl
      simp only [Option.map_some, Option.getD_some]
      omega
  unfold track leases
  cases hd : registry.lookup domain with
  | none =>
    have h := hinner ∅
    simp only [domainRegions, hd, Option.getD_none]
    rw [Assoc.weight_insert_of_none hd]
    simp only [Assoc.weight_empty] at h
    omega
  | some regions =>
    have h := hinner regions
    have h' := Assoc.weight_insert_of_some hd (Assoc.weight (leaseOn r))
      (regions.insert base ⟨limit, r'⟩)
    simp only [domainRegions, hd, Option.getD_some]
    omega

/-- The leases of a list of retired extents, counted. -/
private theorem count_map_registration (l : List RegionEntry) (r : Nat) :
    (l.map RegionEntry.registration).count r = (l.map (leaseOn r)).sum := by
  induction l with
  | nil => rfl
  | cons e l ih =>
    simp only [List.map_cons, List.count_cons, List.sum_cons, ih, leaseOn, beq_iff_eq]
    omega

/-- `invalidate` moves leases out of the registry and drops none. -/
theorem leases_invalidate (registry : Registry) (start stop r : Nat) :
    leases (invalidate registry start stop).1 r + (invalidate registry start stop).2.count r
      = leases registry r := by
  unfold invalidate leases
  rw [Assoc.weight_mapValues]
  have hsplit : ∀ regions : Regions,
      Assoc.weight (leaseOn r) (Assoc.retain (fun base e => !overlaps start stop base e) regions)
          + ((Assoc.retain (overlaps start stop) regions).values.map
              RegionEntry.registration).count r
        = Assoc.weight (leaseOn r) regions := by
    intro regions
    rw [count_map_registration, Nat.add_comm]
    exact Assoc.weight_retain_add (leaseOn r) (overlaps start stop) regions
  simp only [Assoc.weight]
  generalize Assoc.values registry = domains
  induction domains with
  | nil => rfl
  | cons regions domains ih =>
    have h := hsplit regions
    simp only [List.map_cons, List.sum_cons, List.flatMap_cons, List.count_append]
    simp only [Assoc.weight] at h ⊢
    omega

/-- `clearDomain` moves leases out of the registry and drops none. -/
theorem leases_clearDomain (registry : Registry) (domain : Domain) (r : Nat) :
    leases (clearDomain registry domain).1 r + (clearDomain registry domain).2.count r
      = leases registry r := by
  unfold clearDomain
  cases hd : registry.lookup domain with
  | none => rfl
  | some regions =>
    simp only [leases]
    rw [Assoc.weight_of_lookup hd, count_map_registration, Nat.add_comm]
    rfl

/-- A tracked extent's registration is leased by the registry. -/
theorem leases_pos {registry : Registry} {domain : Domain} {base : Nat} {e : RegionEntry}
    (h : entry registry domain base = some e) : 0 < leases registry e.registration := by
  unfold entry domainRegions at h
  cases hd : registry.lookup domain with
  | none => simp [hd] at h
  | some regions =>
    simp only [hd, Option.getD_some] at h
    refine Nat.lt_of_lt_of_le ?_ (Assoc.le_weight_of_lookup hd _)
    exact Nat.lt_of_lt_of_le (by simp [leaseOn]) (Assoc.le_weight_of_lookup h _)

end Registry

/-- The last extent at or below an address is tracked, starts there, and no
tracked extent starts between. -/
theorem lastAtOrBelow_eq_some {regions : Regions} {start base : Nat} {e : RegionEntry}
    (h : lastAtOrBelow regions start = some ⟨base, e⟩) :
    regions.lookup base = some e ∧ base ≤ start ∧
      ∀ base' e', regions.lookup base' = some e' → base' ≤ start → base' ≤ base := by
  unfold lastAtOrBelow at h
  have hmem := List.argmax_mem h
  rw [List.mem_filter, decide_eq_true_eq] at hmem
  refine ⟨Assoc.mem_entries_iff.mp hmem.1, hmem.2, fun base' e' hlookup hle => ?_⟩
  exact List.le_of_mem_argmax (f := Sigma.fst)
    (a := (⟨base', e'⟩ : Sigma fun _ : Nat => RegionEntry))
    (List.mem_filter.mpr ⟨Assoc.mem_entries_iff.mpr hlookup, by simpa using hle⟩) h

/-- Some extent is last at or below an address as soon as one starts there. -/
theorem lastAtOrBelow_isSome {regions : Regions} {start base : Nat} {e : RegionEntry}
    (h : regions.lookup base = some e) (hle : base ≤ start) :
    ∃ base' e', lastAtOrBelow regions start = some ⟨base', e'⟩ := by
  unfold lastAtOrBelow
  cases hmax : (regions.entries.filter fun e => decide (e.1 ≤ start)).argmax Sigma.fst with
  | none =>
    rw [List.argmax_eq_none, List.filter_eq_nil_iff] at hmax
    exact absurd (by simpa using hle) (hmax ⟨base, e⟩ (Assoc.mem_entries_iff.mpr h))
  | some found => exact ⟨found.1, found.2, rfl⟩

/-! ### The cache: the registry and the registrations -/

/-- The registry beside the registrations `fi_mr_reg` made, by age. -/
structure Cache where
  registry : Registry
  handles : Handles Registration

namespace Cache

/-- Nothing registered yet. -/
def empty : Cache := { registry := ∅, handles := Handles.empty }

/-- `Registration::new` over a successful `fi_mr_reg(base, limit - base)`. The
caller holds the one lease on it, named `c.handles.next`. -/
def register (c : Cache) (domain : Domain) (base limit : Nat) : Cache :=
  { c with handles := c.handles.new ⟨domain, base, limit⟩ }

/-- Records a registered extent. The registry clones the caller's lease. The
lease of the extent it replaces comes back to the caller, who drops it after the
lock is released. -/
def track (c : Cache) (base limit : Nat) (domain : Domain) (registration : Nat) :
    Cache × Option Nat :=
  let tracked := c.registry.track base limit domain registration
  ({ registry := tracked.1, handles := c.handles.clone registration },
    tracked.2.map RegionEntry.registration)

/-- A lease on the registration covering `[start, stop)`, if one is cached. -/
def covering (c : Cache) (start stop : Nat) (domain : Domain) : Cache × Option Nat :=
  match c.registry.covering start stop domain with
  | some r => ({ c with handles := c.handles.clone r }, some r)
  | none => (c, none)

/-- Retires every extent overlapping `[start, stop)`. The leases come back to the
caller, who drops them after the lock is released. -/
def invalidate (c : Cache) (start stop : Nat) : Cache × List Nat :=
  let retired := c.registry.invalidate start stop
  ({ c with registry := retired.1 }, retired.2)

/-- Retires every extent of `domain`. The leases come back to the caller. -/
def clearDomain (c : Cache) (domain : Domain) : Cache × List Nat :=
  let retired := c.registry.clearDomain domain
  ({ c with registry := retired.1 }, retired.2)

/-- Drops a lease, where there is one. -/
def dropLease (c : Cache) (lease : Option Nat) : Cache :=
  { c with handles := c.handles.dropOption lease }

/-- Drops the leases of a list. -/
def dropLeases (c : Cache) (l : List Nat) : Cache := { c with handles := c.handles.dropAll l }

/-- Registered and not yet closed. -/
abbrev Open (c : Cache) (r : Nat) : Prop := c.handles.Open r

/-- The counters are right when others hold `rest r` leases on `r` beside those
of the registry. -/
def Held (c : Cache) (rest : Nat → Nat) : Prop :=
  c.handles.Counts fun r => c.registry.leases r + rest r

namespace Held

variable {c : Cache} {rest rest' : Nat → Nat}

/-- An empty cache has no lease, and nobody else has one. -/
theorem empty : Held Cache.empty fun _ => 0 := Handles.Counts.empty

/-- Only the number of other leases matters. -/
theorem congr (h : c.Held rest) (heq : ∀ r, rest r = rest' r) : c.Held rest' :=
  Handles.Counts.congr h fun r => by rw [heq r]

/-- A registration is open exactly while the registry or somebody else leases
it. -/
theorem open_iff (h : c.Held rest) (r : Nat) :
    c.Open r ↔ 0 < c.registry.leases r + rest r := Handles.Counts.open_iff h r

/-- The caller of `register` holds the new lease. -/
theorem register (h : c.Held rest) (domain : Domain) (base limit : Nat) :
    (c.register domain base limit).Held fun r =>
      rest r + if r = c.handles.next then 1 else 0 :=
  (Handles.Counts.new h _).congr fun r => by
    simp only [Cache.register]
    omega

/-- Tracking a leased registration leaves the leases of the others alone, and the
lease of the replaced extent is the caller's. -/
theorem track (h : c.Held rest) {r : Nat} (hr : 0 < rest r) (base limit : Nat)
    (domain : Domain) :
    (c.track base limit domain r).1.Held fun i =>
      rest i + if (c.track base limit domain r).2 = some i then 1 else 0 := by
  refine (Handles.Counts.clone h (i := r) (by omega)).congr fun i => ?_
  have hi := c.registry.leases_track base limit domain r i
  rw [Registry.leaseOn_getD] at hi
  change (c.track base limit domain r).1.registry.leases i
      + (if (c.track base limit domain r).2 = some i then 1 else 0) = _ at hi
  have hcomm : (if i = r then 1 else 0) = if r = i then 1 else 0 := if_congr eq_comm rfl rfl
  dsimp only
  omega

/-- A hit adds the caller's lease. -/
theorem covering (h : c.Held rest) (start stop : Nat) (domain : Domain) :
    (c.covering start stop domain).1.Held fun r =>
      rest r + if (c.covering start stop domain).2 = some r then 1 else 0 := by
  unfold Cache.covering
  cases hcov : c.registry.covering start stop domain with
  | none => exact h.congr fun r => by simp
  | some r =>
    obtain ⟨base, e, hlast, -, -, rfl⟩ := (Registry.covering_eq_some_iff ..).mp hcov
    have hpos : 0 < c.registry.leases e.registration :=
      Registry.leases_pos (lastAtOrBelow_eq_some hlast).1
    refine (Handles.Counts.clone h (i := e.registration) (by omega)).congr fun i => ?_
    simp only [Option.some.injEq, eq_comm (a := e.registration)]
    omega

/-- The leases `invalidate` takes out of the registry are the caller's. -/
theorem invalidate (h : c.Held rest) (start stop : Nat) :
    (c.invalidate start stop).1.Held fun r => rest r + (c.invalidate start stop).2.count r :=
  Handles.Counts.congr h fun r => by
    have := c.registry.leases_invalidate start stop r
    simp only [Cache.invalidate]
    omega

/-- The leases `clearDomain` takes out of the registry are the caller's. -/
theorem clearDomain (h : c.Held rest) (domain : Domain) :
    (c.clearDomain domain).1.Held fun r => rest r + (c.clearDomain domain).2.count r :=
  Handles.Counts.congr h fun r => by
    have := c.registry.leases_clearDomain domain r
    simp only [Cache.clearDomain]
    omega

/-- Dropping a lease somebody has takes it away from them. -/
theorem dropLease (h : c.Held rest) {lease : Option Nat} (hl : ∀ r, lease = some r → 0 < rest r) :
    (c.dropLease lease).Held fun r => rest r - if lease = some r then 1 else 0 := by
  refine (Handles.Counts.dropOption h fun r hr => ?_).congr fun r => ?_
  · have := hl r hr
    omega
  · by_cases hr : lease = some r
    · have := hl r hr
      simp only [Cache.dropLease, if_pos hr]
      omega
    · simp [Cache.dropLease, if_neg hr]

/-- Dropping leases somebody has takes them away. -/
theorem dropLeases (h : c.Held rest) {l : List Nat} (hl : ∀ r, l.count r ≤ rest r) :
    (c.dropLeases l).Held fun r => rest r - l.count r :=
  (Handles.Counts.dropAll h fun r => by have := hl r; omega).congr fun r => by
    have := hl r
    simp only [Cache.dropLeases]
    omega

end Held

end Cache

end Vdma.Fabric
