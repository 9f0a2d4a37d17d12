import Vdma.Proofs.Sharing

/-!
# `Vdma.Proofs.Covering`: when a lookup finds what covers

`covering` looks at one extent: the last one that starts at or below the range. A
wider extent that starts earlier may cover the range when this one does not, and
then the lookup misses it. `Shadowed` names that arrangement, and
`exact_iff_not_shadowed` shows that nothing else goes wrong: a lookup is exact
exactly when its range is not shadowed.

No range of a domain is shadowed while its extents are `Flat`: an extent that
starts later does not end earlier. Retiring extents keeps this. Tracking keeps it
when the new extent neither nests in a tracked one nor nests one, which is
`TracksFlat`.

Nested extents arise without any misuse. The widened registration of an operand may
fail and its own bytes be tracked, as `operand` does by design. When the wide
registration succeeds later, for a neighbour, the narrow extent hides the wide one
from every operand behind it.
-/

set_option autoImplicit false

namespace Vdma.Fabric

open Vdma.Lib

namespace Registry

variable (registry : Registry) (domain : Domain) (start stop : Nat)

/-- The extent tracked at `base` covers `[start, stop)`. -/
def Covers (base : Nat) (x : RegionEntry) : Prop :=
  registry.entry domain base = some x ∧ base ≤ start ∧ stop ≤ x.limit

/-- Some extent covers the range, but the one that starts last at or below it ends
inside the range. -/
def Shadowed : Prop :=
  (∃ base x, registry.Covers domain start stop base x) ∧
    ∃ base x, registry.entry domain base = some x ∧ base ≤ start ∧ x.limit < stop ∧
      ∀ base' x', registry.entry domain base' = some x' → base' ≤ start → base' ≤ base

/-- A lookup is exact: it answers when some extent covers the range, and answers
the lease of an extent that does. -/
def Exact : Prop :=
  ((registry.covering start stop domain).isSome ↔
      ∃ base x, registry.Covers domain start stop base x) ∧
    ∀ r, registry.covering start stop domain = some r →
      ∃ base x, registry.Covers domain start stop base x ∧ x.registration = r

variable {registry domain start stop}

/-- Whatever `covering` answers covers the range. -/
theorem covers_of_covering {r : Nat} (h : registry.covering start stop domain = some r) :
    ∃ base x, registry.Covers domain start stop base x ∧ x.registration = r := by
  obtain ⟨base, x, hlast, hbase, hlimit, hr⟩ := (covering_eq_some_iff ..).mp h
  exact ⟨base, x, ⟨(lastAtOrBelow_eq_some hlast).1, hbase, hlimit⟩, hr⟩

/-- A lookup is exact just where no entry shadows another. -/
theorem exact_iff_not_shadowed :
    registry.Exact domain start stop ↔ ¬registry.Shadowed domain start stop := by
  constructor
  · rintro ⟨hsome, -⟩ ⟨hcovers, base, x, hx, hbase, hlimit, hlast⟩
    -- The lookup must answer, and what it answers is the shadowing extent.
    obtain ⟨r, hr⟩ := Option.isSome_iff_exists.mp (hsome.mpr hcovers)
    obtain ⟨base', x', hfound, hbase', hlimit', -⟩ := (covering_eq_some_iff ..).mp hr
    obtain ⟨hx', -, hmax⟩ := lastAtOrBelow_eq_some hfound
    have hle : base ≤ base' := hmax base x hx hbase
    have hge : base' ≤ base := hlast base' x' hx' hbase'
    have heq : base = base' := by omega
    subst heq
    have hsame : some x = some x' := hx.symm.trans hx'
    cases hsame
    omega
  · intro hnot
    refine ⟨⟨fun h => ?_, fun hcovers => ?_⟩, fun r hr => covers_of_covering hr⟩
    · obtain ⟨r, hr⟩ := Option.isSome_iff_exists.mp h
      obtain ⟨base, x, hcovers, -⟩ := covers_of_covering hr
      exact ⟨base, x, hcovers⟩
    · obtain ⟨base, x, hx, hbase, hlimit⟩ := hcovers
      obtain ⟨base', x', hfound⟩ := lastAtOrBelow_isSome hx hbase
      obtain ⟨hx', hbase', hmax⟩ := lastAtOrBelow_eq_some hfound
      -- The last extent ends late enough, or else it would shadow.
      have hlimit' : stop ≤ x'.limit := by
        by_contra hlt
        exact hnot ⟨⟨base, x, hx, hbase, hlimit⟩, base', x', hx', hbase', by omega, hmax⟩
      exact Option.isSome_iff_exists.mpr ⟨x'.registration,
        (covering_eq_some_iff ..).mpr ⟨base', x', hfound, hbase', hlimit', rfl⟩⟩

/-- On every domain, an extent that starts later does not end earlier. -/
def Flat (registry : Registry) : Prop :=
  ∀ domain base base' x x', registry.entry domain base = some x →
    registry.entry domain base' = some x' → base < base' → x.limit ≤ x'.limit

/-- In a flat registry no entry shadows another. -/
theorem Flat.not_shadowed (h : registry.Flat) : ¬registry.Shadowed domain start stop := by
  rintro ⟨⟨base, x, hx, hbase, hlimit⟩, base', x', hx', -, hshort, hlast⟩
  have hle : base ≤ base' := hlast base x hx hbase
  by_cases heq : base = base'
  · subst heq
    have hsame : some x = some x' := hx.symm.trans hx'
    cases hsame
    omega
  · have := h domain base base' x x' hx hx' (by omega)
    omega

end Registry

namespace Shared

/-- An extent tracked by the event neither nests in a tracked extent nor nests
one. -/
def TracksFlat (s : Shared) : Event → Prop
  | .step thread _ =>
    ∀ reg r, (s.calls thread).untracked = some (reg, r) →
      ∀ base x, s.cache.registry.entry reg.domain base = some x →
        (base < reg.base → x.limit ≤ reg.limit) ∧ (reg.base < base → reg.limit ≤ x.limit)
  | _ => True

/-- A step that tracks no extent inside another, nor around one, keeps the registry flat. -/
theorem flat_step {lib : Libfabric} {requiresLocalMr : Domain → Bool} {s s' : Shared} {e : Event}
    (hok : s.TracksFlat e) (h : s.step lib requiresLocalMr e = some s')
    (hs : s.cache.registry.Flat) : s'.cache.registry.Flat := by
  rcases step_cases h with hshrink | ⟨thread, call, reg, rfl, -⟩ |
    ⟨thread, answer, call, reg, r, rfl, htrack, -, rfl⟩
  · intro domain base base' x x' hx hx'
    exact hs domain base base' x x' (hshrink.entry _ _ _ hx) (hshrink.entry _ _ _ hx')
  · exact hs
  · intro domain base base' x x' hx hx' hlt
    change (s.cache.registry.track reg.base reg.limit reg.domain r).1.entry domain base
      = some x at hx
    change (s.cache.registry.track reg.base reg.limit reg.domain r).1.entry domain base'
      = some x' at hx'
    rw [Registry.entry_track] at hx hx'
    -- Either of the two extents may be the new one, and not both.
    split at hx
    · next hat =>
      obtain ⟨rfl, rfl⟩ := hat
      rw [if_neg (by omega)] at hx'
      cases hx
      exact (hok reg r htrack base' x' hx').2 hlt
    · split at hx'
      · next hat =>
        obtain ⟨rfl, rfl⟩ := hat
        cases hx'
        exact (hok reg r htrack base x hx).1 hlt
      · exact hs domain base base' x x' hx hx' hlt

end Shared

/-- In every state of every run a lookup is exact if and only if its range is not
shadowed. In a run that tracks no extent nested with another one, every lookup is
exact. -/
theorem covering_exact (lib : Libfabric) (requiresLocalMr : Domain → Bool) :
    (∀ s, (sharing lib requiresLocalMr).Reachable s → ∀ domain start stop,
      s.cache.registry.Exact domain start stop ↔
        ¬s.cache.registry.Shadowed domain start stop) ∧
    ∀ s, (sharing lib requiresLocalMr).Reach Shared.TracksFlat s → ∀ domain start stop,
      s.cache.registry.Exact domain start stop := by
  refine ⟨fun s _ domain start stop => Registry.exact_iff_not_shadowed, ?_⟩
  intro s h domain start stop
  have hflat : s.cache.registry.Flat := by
    refine h.invariant (I := fun s => s.cache.registry.Flat) ?_ ?_
    · rintro s rfl domain base base' x x' hx
      cases hx
    · intro s e s' hok hstep hs
      exact Shared.flat_step hok hstep hs
  exact Registry.exact_iff_not_shadowed.mpr hflat.not_shadowed

/-- A miss that registers a whole span. -/
def wideMiss : List Event :=
  [.operand 0 7 4096 4, .step 0 .none, .step 0 (.span (some ⟨4096, 8192⟩)), .step 0 (.mrReg 0),
    .step 0 .none, .step 0 .none, .ret 0]

/-- After one miss every lookup is exact, and the next operand in the span is not
shadowed. -/
theorem covering_exact_wideMiss :
    ∃ s, (sharing default fun _ => true).run Shared.start wideMiss = some s ∧
      s.cache.registry.Exact 7 5000 5004 ∧ ¬s.cache.registry.Shadowed 7 5000 5004 := by
  have hobeys : (sharing default fun _ => true).Obeys Shared.TracksFlat Shared.start wideMiss := by
    refine .cons trivial rfl (.cons nofun rfl (.cons nofun rfl (.cons nofun rfl
      (.cons ?_ rfl (.cons nofun rfl (.cons trivial rfl trivial))))))
    -- Nothing else is tracked yet.
    intro reg r _ base x hx
    cases hx
  obtain ⟨s, hrun⟩ : ∃ s, (sharing default fun _ => true).run Shared.start wideMiss = some s :=
    ⟨_, rfl⟩
  have hreach := (Machine.Reach.init rfl).run hobeys hrun
  have hexact := (covering_exact default fun _ => true).2 s hreach 7 5000 5004
  exact ⟨s, hrun, hexact,
    ((covering_exact default fun _ => true).1 s hreach.reachable 7 5000 5004).mp hexact⟩

/-- A widened `fi_mr_reg` fails and the operand's own bytes are tracked. The next
operand gets the same span registered. -/
def narrowThenWide : List Event :=
  [.operand 0 7 5120 4, .step 0 .none, .step 0 (.span (some ⟨4096, 8192⟩)),
    .step 0 (.mrReg (-12)), .step 0 (.mrReg 0), .step 0 .none, .step 0 .none, .ret 0,
    .operand 0 7 4096 4, .step 0 .none, .step 0 (.span (some ⟨4096, 8192⟩)),
    .step 0 (.mrReg 0), .step 0 .none, .step 0 .none, .ret 0]

/-- After that run the whole span is tracked, and an operand behind the narrow
extent is a miss. -/
theorem covering_misses :
    ∃ s, (sharing default fun _ => true).run Shared.start narrowThenWide = some s ∧
      (sharing default fun _ => true).Reachable s ∧
      s.cache.registry.Covers 7 5124 5128 4096 ⟨8192, 1⟩ ∧
      s.cache.registry.covering 5124 5128 7 = none := by
  refine ⟨_, rfl, Machine.reach_run rfl narrowThenWide rfl, ?_, by decide +kernel⟩
  exact ⟨by decide +kernel, by decide, by decide⟩

end Vdma.Fabric
