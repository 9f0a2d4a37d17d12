import Vdma.Module.ExtentHooks
import Vdma.Proofs.Sharing

/-!
# `Vdma.Proofs.Module.ExtentHooks`: a reclaim leaves no stale registration

A cached registration is stale when one of its bytes went to a default hook after it was
taken. `reclaim_leaves_none_stale` says that none is, in every run that keeps three promises
of jemalloc's (`Promised`): a hooked arena reclaims through its hooks, the bytes of an operand
belong to one arena, and no range on its way to a default hook meets an operand on its way into
the registry.

The invariant is `Guarded`. A tracked extent is `Safe`: hooked arenas own it, nothing was
handed over after it, and it meets no range that is past its deregistration. So a wrapped hook
has nothing to hide between its two halves, and an arena's own hook never reaches a
registered byte. An operand on its way is `Apart` from every range on its way, so `track`
may run at any time between the halves of a hook.

`Spares` is what a step has to leave alone for a range to stay safe. Each step is one such
lemma, and `Guarded.of_spares` does the rest.

`entry_not_kept` has the two ways an entry goes that no byte of a reclaimed range explains:
another extent is tracked at its base, or an empty range inside it passes the overlap test.
-/

set_option autoImplicit false

namespace Vdma.Module.Memory

open Vdma.Lib Vdma.Fabric

/-- The operand of a call that has yet to track it. -/
def live : OperandCall → Option (Nat × Nat)
  | .lookup start stop | .ask start stop | .register start stop _ _ _ => some (start, stop)
  | .track base limit _ => some (base, limit)
  | _ => none

/-- The range between its deregistration and the default hook. -/
def HookCall.cleared : HookCall → Option Reclaim
  | .retired _ r | .unhooked r => some r
  | _ => none

/-- A reclaim that has cleared its range is the one under way. -/
theorem HookCall.reclaim_of_cleared {call : HookCall} {r : Reclaim}
    (h : call.cleared = some r) : call.reclaim = some r := by
  cases call <;> cases h <;> rfl

namespace Process

/-- An operand on its way into the registry. -/
def Live (p : Process) (start stop : Nat) : Prop :=
  ∃ thread posting, p.postings thread = some posting ∧ live posting.call = some (start, stop)

/-- A hooked arena owns the byte. -/
def Covers (p : Process) (x : Nat) : Prop := ∃ arena ∈ p.hooked, p.owner x = some arena

/-- No range on its way to a default hook meets `[base, limit)`. -/
def Apart (p : Process) (base limit : Nat) : Prop :=
  ∀ t r, (p.hookCalls t).reclaim = some r → ¬SharesByte r.start r.stop base limit

/-- No operand on its way meets the range of `r`. -/
def Dead (p : Process) (r : Reclaim) : Prop :=
  ∀ start stop, p.Live start stop → ¬SharesByte r.start r.stop start stop

/-- What jemalloc and the owner of an operand promise about the next event. -/
def Promised (p : Process) : Event → Prop
  | .operand _ _ direction token =>
    -- A page that is being reclaimed belongs to no operand.
    ∀ pointer length token', resolveOperand direction token = (.ok (pointer, length), token') →
      p.Apart pointer (pointer + length)
  | .cover thread _ _ =>
    -- The pages of an allocation belong to one arena.
    ∀ posting start stop, p.postings thread = some posting →
      live posting.call = some (start, stop) →
      ∀ x, start ≤ x → x < stop → p.owner x = p.owner start
  | .hook _ r => r.stop < addressSpace ∧ p.Dead r
  | .unhooked _ r =>
    -- A hooked arena reclaims through its hooks.
    (∀ x, r.start ≤ x → x < r.stop → ¬p.Covers x) ∧ p.Dead r
  | _ => True

/-! ### What holds of a safe range -/

/-- The extent of a registration that nothing has been reclaimed under. -/
structure Safe (p : Process) (base limit registration : Nat) : Prop where
  covered : ∀ x, base ≤ x → x < limit → p.Covers x
  unharmed : ∀ v ∈ p.handed, registration < v.before → ¬SharesByte v.start v.stop base limit
  cleared : ∀ t r, (p.hookCalls t).cleared = some r → ¬SharesByte r.start r.stop base limit

/-- A call registers the bytes of its token, and what it will track is safe. -/
def Placed (p : Process) (posting : Posting) : Prop :=
  match posting.call with
  | .lookup start stop | .ask start stop =>
    p.Apart start stop ∧
      ∃ length, stop = start + length ∧ bytes posting.token = some ⟨start, length⟩
  | .register start stop base limit cacheable =>
    base = start ∧ limit = stop ∧ p.Apart start stop ∧
      (cacheable = true → ∀ x, start ≤ x → x < stop → p.Covers x)
  | .track base limit lease => p.Apart base limit ∧ p.Safe base limit lease
  | _ => True

/-- No reclaim is under way on an operand that is on its way into the registry. -/
theorem Placed.apart {p : Process} {posting : Posting} (h : p.Placed posting) {start stop : Nat}
    (hlive : live posting.call = some (start, stop)) : p.Apart start stop := by
  unfold Placed at h
  cases hcall : posting.call <;> rw [hcall] at h hlive <;> cases hlive
  · exact h.1
  · exact h.1
  · exact h.2.2.1
  · exact h.1

/-- The invariant of the machine. -/
structure Guarded (p : Process) : Prop where
  before_le : ∀ v ∈ p.handed, v.before ≤ p.cache.handles.next
  exact : ∀ t start stop r, p.hookCalls t = .deregister start stop r →
    start = r.start ∧ stop = r.stop
  entry : ∀ domain base e, p.cache.registry.entry domain base = some e →
    p.Safe base e.limit e.registration
  posting : ∀ t posting, p.postings t = some posting → p.Placed posting

/-- At the start nothing is posted and nothing is reclaimed. -/
theorem guarded_start : Process.start.Guarded where
  before_le v h := by cases h
  exact t start stop r h := by cases h
  entry domain base e h := by cases h
  posting t posting h := by cases h

/-! ### What a step leaves alone -/

/-- The step takes nothing from `[base, limit)`. -/
structure Spares (p p' : Process) (base limit : Nat) : Prop where
  covers : ∀ x, base ≤ x → x < limit → p.Covers x → p'.Covers x
  handed : ∀ v ∈ p'.handed, v ∈ p.handed ∨ ¬SharesByte v.start v.stop base limit
  cleared : ∀ t r, (p'.hookCalls t).cleared = some r →
    (p.hookCalls t).cleared = some r ∨ ¬SharesByte r.start r.stop base limit

variable {p p' : Process}

/-- A registration that is safe stays so in a process that spares its range. -/
theorem Safe.of_spares {base limit registration : Nat} (h : p.Safe base limit registration)
    (hspares : Spares p p' base limit) : p'.Safe base limit registration where
  covered x hbase hlimit := hspares.covers x hbase hlimit (h.covered x hbase hlimit)
  unharmed v hv hlt := by
    rcases hspares.handed v hv with hold | hnew
    · exact h.unharmed v hold hlt
    · exact hnew
  cleared t r hr := by
    rcases hspares.cleared t r hr with hold | hnew
    · exact h.cleared t r hold
    · exact hnew

/-- A call stays in place when its operand is spared and stays apart. -/
theorem Placed.of_spares {posting : Posting} (h : p.Placed posting)
    (hlive : ∀ start stop, live posting.call = some (start, stop) →
      Spares p p' start stop ∧ p'.Apart start stop) : p'.Placed posting := by
  unfold Placed at h ⊢
  cases hcall : posting.call with
  | lookup start stop | ask start stop =>
    rw [hcall] at h hlive
    exact ⟨(hlive start stop rfl).2, h.2⟩
  | register start stop base limit cacheable =>
    rw [hcall] at h hlive
    obtain ⟨hspares, hapart⟩ := hlive start stop rfl
    refine ⟨h.1, h.2.1, hapart, ?_⟩
    intro hcacheable x hstart hstop
    exact hspares.covers x hstart hstop (h.2.2.2 hcacheable x hstart hstop)
  | track base limit lease =>
    rw [hcall] at h hlive
    obtain ⟨hspares, hapart⟩ := hlive base limit rfl
    exact ⟨hapart, h.2.of_spares hspares⟩
  | superseded replaced lease | done operand | failed error => trivial

/-- A step of a thread inside jemalloc keeps the invariant when it spares the extents that
stay tracked and the operands on their way. -/
theorem Guarded.of_spares (hp : p.Guarded)
    (hbefore : ∀ v ∈ p'.handed, v.before ≤ p'.cache.handles.next)
    (hexact : ∀ t start stop r, p'.hookCalls t = .deregister start stop r →
      start = r.start ∧ stop = r.stop)
    (hentry : ∀ domain base e, p'.cache.registry.entry domain base = some e →
      p.cache.registry.entry domain base = some e ∧ Spares p p' base e.limit)
    (hpostings : p'.postings = p.postings)
    (hlive : ∀ start stop, p.Live start stop → p.Apart start stop →
      Spares p p' start stop ∧ p'.Apart start stop) : p'.Guarded where
  before_le := hbefore
  exact := hexact
  entry domain base e he := by
    obtain ⟨hold, hspares⟩ := hentry domain base e he
    exact (hp.entry domain base e hold).of_spares hspares
  posting t posting ht := by
    rw [hpostings] at ht
    have hplaced : p.Placed posting := hp.posting t posting ht
    apply hplaced.of_spares
    intro start stop hoperand
    exact hlive start stop ⟨t, posting, ht, hoperand⟩ (hplaced.apart hoperand)

/-- No range moves, and no byte loses its hooked arena. -/
structure Calm (p p' : Process) : Prop where
  covers : ∀ x, p.Covers x → p'.Covers x
  handed : p'.handed = p.handed
  hookCalls : p'.hookCalls = p.hookCalls

/-- A calm step spares every range. -/
theorem Calm.spares (h : Calm p p') (base limit : Nat) : Spares p p' base limit where
  covers x _ _ := h.covers x
  handed _ hv := .inl (h.handed ▸ hv)
  cleared _ _ hr := .inl (h.hookCalls ▸ hr)

/-- A calm step moves no reclaim, so what was apart stays apart. -/
theorem Calm.apart (h : Calm p p') {base limit : Nat} (hapart : p.Apart base limit) :
    p'.Apart base limit := by
  intro t r hr
  rw [h.hookCalls] at hr
  exact hapart t r hr

/-- A calm step keeps the invariant when what is tracked and posted after it was good
before. -/
theorem Guarded.of_calm (hp : p.Guarded) (hcalm : Calm p p')
    (hnext : p.cache.handles.next ≤ p'.cache.handles.next)
    (hentry : ∀ domain base e, p'.cache.registry.entry domain base = some e →
      p.Safe base e.limit e.registration)
    (hposting : ∀ t posting, p'.postings t = some posting → p.Placed posting) :
    p'.Guarded where
  before_le v hv := by
    rw [hcalm.handed] at hv
    exact Nat.le_trans (hp.before_le v hv) hnext
  exact t start stop r hr := by
    rw [hcalm.hookCalls] at hr
    exact hp.exact t start stop r hr
  entry domain base e he := (hentry domain base e he).of_spares (hcalm.spares _ _)
  posting t posting ht := by
    have hplaced : p.Placed posting := hposting t posting ht
    apply hplaced.of_spares
    intro start stop hoperand
    exact ⟨hcalm.spares _ _, hcalm.apart (hplaced.apart hoperand)⟩

/-! ### The workers -/

/-- What a section of a call does, told no span: it leaves the extents alone, it registers
the operand and nothing else, or it tracks what it registered. -/
theorem Placed.step_cases {lib : Libfabric} {c c' : Cache} {posting : Posting}
    {call' : OperandCall} {code : Option Int} (hplaced : p.Placed posting)
    (h : posting.call.step lib posting.domain c (answer code) = some (c', call')) :
    (SameExtents c c' ∧ p.Placed { posting with call := call' }) ∨
    (∃ base limit, c' = c.register posting.domain base limit ∧
      (call' = .done (.ofLease c.handles.next) ∨
        call' = .track base limit c.handles.next ∧ p.Apart base limit ∧
          ∀ x, base ≤ x → x < limit → p.Covers x)) ∨
    (∃ base limit lease replaced, posting.call = .track base limit lease ∧
      c' = (c.track base limit posting.domain lease).1 ∧
      call' = .superseded replaced lease) := by
  unfold Placed at hplaced
  cases hcall : posting.call with
  | lookup start stop =>
    left
    rw [hcall] at h hplaced
    cases code <;> simp only [answer, OperandCall.step, reduceCtorEq] at h
    have hregistry := Cache.registry_covering c start stop posting.domain
    have hcells := Cache.cells_covering c start stop posting.domain
    -- A hit returns, and a miss asks about the same operand.
    split at h
    · next hcov =>
      rw [hcov] at hregistry hcells
      cases h
      exact ⟨⟨hregistry, hcells⟩, trivial⟩
    · next hcov =>
      rw [hcov] at hregistry hcells
      cases h
      exact ⟨⟨hregistry, hcells⟩, hplaced⟩
  | ask start stop =>
    rw [hcall] at h
    cases code <;> cases h
  | register start stop base limit cacheable =>
    rw [hcall] at h hplaced
    obtain ⟨rfl, rfl, hapart, hcovered⟩ := hplaced
    cases code <;> simp only [answer, OperandCall.step, reduceCtorEq] at h
    split at h
    · right; left
      refine ⟨base, limit, (congrArg Prod.fst (Option.some.inj h)).symm, ?_⟩
      have hnext := (congrArg Prod.snd (Option.some.inj h)).symm
      cases cacheable with
      | false => exact .inl hnext
      | true => exact .inr ⟨hnext, hapart, hcovered rfl⟩
    · -- There is no narrower extent to fall back to.
      left
      rw [if_neg (by simp)] at h
      cases h
      exact ⟨.refl _, trivial⟩
  | track base limit lease =>
    right; right
    rw [hcall] at h
    cases code <;> simp only [answer, OperandCall.step, reduceCtorEq] at h
    cases h
    exact ⟨base, limit, lease, _, rfl, rfl, rfl⟩
  | superseded replaced lease =>
    left
    rw [hcall] at h
    cases code <;> simp only [answer, OperandCall.step, reduceCtorEq] at h
    cases h
    exact ⟨⟨by simp, by simp⟩, trivial⟩
  | done operand | failed error =>
    rw [hcall] at h
    cases code <;> cases h

/-- A posting after one of them moved. -/
theorem placed_update {thread t : Nat} {moved posting : Posting} (hp : p.Guarded)
    (hmoved : p.Placed moved)
    (h : Function.update p.postings thread (some moved) t = some posting) : p.Placed posting := by
  by_cases ht : t = thread
  · subst ht
    rw [Function.update_self] at h
    cases h
    exact hmoved
  · rw [Function.update_of_ne ht] at h
    exact hp.posting t posting h

/-- A section of an operand's call: it registers what it was asked for, and may track it. -/
theorem guarded_step_posting {lib : Libfabric} {requiresLocalMr : Domain → Bool} {hooks : Hooks}
    {thread : Nat} {code : Option Int} (hp : p.Guarded)
    (h : p.step lib requiresLocalMr hooks (.step thread code) = some p') : p'.Guarded := by
  simp only [step, Option.bind_eq_some_iff, Option.map_eq_some_iff, Prod.exists] at h
  obtain ⟨posting, hposting, c, call, hstep, rfl⟩ := h
  have hplaced : p.Placed posting := hp.posting thread posting hposting
  have hcalm : ∀ c call, Calm p
      { p.setPosting thread (some { posting with call := call }) with cache := c } :=
    fun c call => ⟨fun x hx => hx, rfl, rfl⟩
  -- A section of the posting thread changes nothing tracked, registers, or tracks.
  rcases hplaced.step_cases hstep with ⟨⟨hregistry, hcells⟩, hnext⟩ |
    ⟨base, limit, rfl, hnext⟩ | ⟨base, limit, lease, replaced, hcall, rfl, rfl⟩
  · -- The registry and the handles stay.
    apply hp.of_calm (hcalm c call)
    · show p.cache.handles.cells.length ≤ c.handles.cells.length
      rw [hcells]
    · intro domain base e he
      change c.registry.entry domain base = some e at he
      rw [hregistry] at he
      exact hp.entry domain base e he
    · intro t posting' ht
      exact placed_update hp hnext ht
  · apply hp.of_calm (hcalm _ call)
    · show p.cache.handles.next ≤ (p.cache.handles.new _).next
      simp
    · intro domain base' e he
      exact hp.entry domain base' e he
    · intro t posting' ht
      refine placed_update hp ?_ ht
      rcases hnext with rfl | ⟨rfl, hapart, hcovered⟩
      · trivial
      · -- The registration is younger than all that was handed over.
        refine ⟨hapart, hcovered, fun v hv hlt => ?_, fun t r hr => ?_⟩
        · have hle := hp.before_le v hv
          omega
        · exact hapart t r (HookCall.reclaim_of_cleared hr)
  · -- The new entry is the registration that was on its way, or an older one.
    apply hp.of_calm (hcalm _ _)
    · exact Nat.le_of_eq (by simp [Cache.track])
    · intro domain base' e he
      change (p.cache.registry.track base limit posting.domain lease).1.entry domain base'
        = some e at he
      rw [Registry.entry_track] at he
      split at he
      · next hat =>
        obtain ⟨rfl, rfl⟩ := hat
        cases he
        unfold Placed at hplaced
        rw [hcall] at hplaced
        exact hplaced.2
      · exact hp.entry domain base' e he
    · intro t posting' ht
      refine placed_update hp ?_ ht
      trivial

/-- A posting may move on to whatever still has its place. -/
theorem Guarded.setPosting (hp : p.Guarded) {thread : Nat} {moved : Posting}
    (hmoved : p.Placed moved) : (p.setPosting thread (some moved)).Guarded := by
  have hcalm : Calm p (p.setPosting thread (some moved)) := ⟨fun x hx => hx, rfl, rfl⟩
  apply hp.of_calm hcalm (Nat.le_refl _) hp.entry
  intro t posting ht
  exact placed_update hp hmoved ht

/-- The operand of a transfer is the buffer of its token. -/
theorem bytes_of_resolveOperand {direction : Direction} {token token' : OpToken}
    {pointer length : Nat}
    (h : resolveOperand direction token = (.ok (pointer, length), token')) :
    bytes token' = some ⟨pointer, length⟩ := by
  cases direction with
  | toPeer =>
    cases token with
    | get blocked held =>
      cases h
      rfl
    | set blocked destination key expectedCrc landing => cases h
  | fromPeer n =>
    cases token with
    | get blocked held => cases h
    | set blocked destination key expectedCrc landing =>
      simp only [resolveOperand, Operands.allocate, OpToken.allocate] at h
      cases hvalue : ValkeyString.createUninitialized landing n with
      | none =>
        rw [hvalue] at h
        cases h
      | some value =>
        rw [hvalue] at h
        -- The string is as long as was asked for.
        have hslice : value.asSlice = ⟨landing, n⟩ := by
          unfold ValkeyString.createUninitialized at hvalue
          split at hvalue <;> cases hvalue
          rfl
        simp only [hslice, Nat.lt_irrefl, if_false] at h
        cases h
        show some value.asSlice = _
        rw [hslice]

/-- A new operand starts with the memory of its token's value, which the host has promised to keep.
-/
theorem guarded_operand {lib : Libfabric} {requiresLocalMr : Domain → Bool} {hooks : Hooks}
    {thread : Nat} {domain : Domain} {direction : Direction} {token : OpToken} (hp : p.Guarded)
    (hok : p.Promised (.operand thread domain direction token))
    (h : p.step lib requiresLocalMr hooks (.operand thread domain direction token) = some p') :
    p'.Guarded := by
  simp only [step] at h
  split at h
  · next pointer length token' hnone hresolve =>
    cases h
    apply hp.setPosting
    unfold OperandCall.begin
    split
    · split
      · exact ⟨hok pointer length token' hresolve, length, rfl, bytes_of_resolveOperand hresolve⟩
      · trivial
    · trivial
  · cases h

/-- `ensure_covered` hooks an arena and does nothing else. -/
theorem ensureCovered_fst (hooks : Hooks) (p : Process) (lookup write : Bool) (pointer : Nat) :
    ∃ hooked, p.hooked ⊆ hooked ∧
      (p.ensureCovered hooks lookup write pointer).1 = { p with hooked := hooked } := by
  unfold ensureCovered
  split
  · split
    · next arena _ =>
      unfold writeExtentHooks
      split
      · exact ⟨insert arena p.hooked, Finset.subset_insert .., rfl⟩
      · exact ⟨p.hooked, Finset.Subset.refl _, rfl⟩
    · exact ⟨p.hooked, Finset.Subset.refl _, rfl⟩
  · exact ⟨p.hooked, Finset.Subset.refl _, rfl⟩

/-- What `ensure_covered` promises: a hooked arena owns the pointer. -/
theorem covers_of_ensureCovered {hooks : Hooks} {lookup write : Bool} {pointer : Nat}
    (h : (p.ensureCovered hooks lookup write pointer).2 = true) :
    (p.ensureCovered hooks lookup write pointer).1.Covers pointer := by
  unfold ensureCovered at h ⊢
  split at h
  · next harmed =>
    rw [if_pos harmed]
    split at h
    · next arena harena =>
      unfold writeExtentHooks at h ⊢
      split at h
      · next hwrite =>
        rw [if_pos hwrite]
        refine ⟨arena, Finset.mem_insert_self .., ?_⟩
        unfold arenaOf at harena
        split at harena
        · exact harena
        · cases harena
      · cases h
    · cases h
  · cases h

/-- Asking for a span hooks an arena and does nothing else. -/
theorem cacheableSpan_fst (hooks : Hooks) (p : Process) (lookup write : Bool) (token : OpToken) :
    ∃ hooked, p.hooked ⊆ hooked ∧
      (p.cacheableSpan hooks lookup write token).1 = { p with hooked := hooked } := by
  unfold cacheableSpan
  split
  · exact ⟨p.hooked, Finset.Subset.refl _, rfl⟩
  · exact ensureCovered_fst ..

/-- What a span says: it is the operand's own extent, and a hooked arena owns its first
byte. -/
theorem cacheableSpan_snd {hooks : Hooks} {lookup write : Bool} {token : OpToken}
    {start length : Nat}
    (hbytes : bytes token = some ⟨start, length⟩) {span : CacheableSpan}
    (h : (p.cacheableSpan hooks lookup write token).2 = some span) :
    span = ⟨start, start + length⟩ ∧
      (p.cacheableSpan hooks lookup write token).1.Covers start := by
  simp only [cacheableSpan, hbytes] at h ⊢
  split at h
  · next hcovered =>
    unfold CacheableSpan.new at h
    split at h <;> cases h
    exact ⟨rfl, covers_of_ensureCovered hcovered⟩
  · cases h

/-- Hooking takes nothing away. -/
theorem calm_hook {hooked : Finset Nat} (hsub : p.hooked ⊆ hooked) :
    Calm p { p with hooked := hooked } where
  covers := by
    rintro x ⟨arena, harena, howner⟩
    exact ⟨arena, hsub harena, howner⟩
  handed := rfl
  hookCalls := rfl

/-- A missed lookup asks the hooks for a span, and gets one only inside a hooked arena. -/
theorem guarded_cover {lib : Libfabric} {requiresLocalMr : Domain → Bool} {hooks : Hooks}
    {thread : Nat} {lookup write : Bool} (hp : p.Guarded)
    (hok : p.Promised (.cover thread lookup write))
    (h : p.step lib requiresLocalMr hooks (.cover thread lookup write) = some p') :
    p'.Guarded := by
  simp only [step, Option.bind_eq_some_iff, Option.map_eq_some_iff, Prod.exists] at h
  obtain ⟨posting, hposting, c, call, hstep, rfl⟩ := h
  have hplaced : p.Placed posting := hp.posting thread posting hposting
  unfold Placed at hplaced
  -- Only a call that missed takes a span.
  cases hcall : posting.call with
  | ask start stop =>
    rw [hcall] at hstep hplaced
    obtain ⟨hapart, length, rfl, hbytes⟩ := hplaced
    obtain ⟨hooked, hsub, hasked⟩ := cacheableSpan_fst hooks p lookup write posting.token
    have hcalm : Calm p { p with hooked := hooked } := calm_hook hsub
    have hguarded : ({ p with hooked := hooked } : Process).Guarded :=
      hp.of_calm hcalm (Nat.le_refl _) hp.entry hp.posting
    rw [hasked] at hstep ⊢
    simp only [OperandCall.step] at hstep
    split at hstep
    · next span hfilter =>
      cases hstep
      have hspan := cacheableSpan_snd hbytes (Option.filter_eq_some_iff.mp hfilter).1
      rw [hasked] at hspan
      obtain ⟨rfl, arena, harena, hstart⟩ := hspan
      refine hguarded.setPosting ⟨rfl, rfl, hcalm.apart hapart, ?_⟩
      -- The whole operand is in the arena of its first byte.
      intro _ x hx hstop
      have howner : p.owner x = p.owner start :=
        hok posting start (start + length) hposting (by rw [hcall]; rfl) x hx hstop
      exact ⟨arena, harena, howner.trans hstart⟩
    · cases hstep
      exact hguarded.setPosting ⟨rfl, rfl, hcalm.apart hapart, by simp⟩
  | lookup start stop | register start stop base limit cacheable | track base limit lease
  | superseded replaced lease | done operand | failed error =>
    rw [hcall] at hstep
    cases hstep

/-! ### The threads inside jemalloc -/

section Hooks

variable {thread : Nat} {call : HookCall} {base limit : Nat}

/-- A thread that moves on stays apart from what its new range does not meet. -/
theorem apart_update (hapart : p.Apart base limit)
    (hhooks : p'.hookCalls = Function.update p.hookCalls thread call)
    (hcall : ∀ r, call.reclaim = some r → ¬SharesByte r.start r.stop base limit) :
    p'.Apart base limit := by
  intro t r hr
  rw [hhooks] at hr
  by_cases ht : t = thread
  · subst ht
    rw [Function.update_self] at hr
    exact hcall r hr
  · rw [Function.update_of_ne ht] at hr
    exact hapart t r hr

/-- One reclaim moves on, and it clears nothing new that meets a range. Then nobody does. -/
theorem cleared_update (hhooks : p'.hookCalls = Function.update p.hookCalls thread call)
    (hcall : ∀ r, call.cleared = some r →
      (p.hookCalls thread).cleared = some r ∨ ¬SharesByte r.start r.stop base limit) (t : Nat)
    (r : Reclaim) (hr : (p'.hookCalls t).cleared = some r) :
    (p.hookCalls t).cleared = some r ∨ ¬SharesByte r.start r.stop base limit := by
  rw [hhooks] at hr
  by_cases ht : t = thread
  · subst ht
    rw [Function.update_self] at hr
    exact hcall r hr
  · rw [Function.update_of_ne ht] at hr
    exact .inl hr

/-- Each `invalidate` that a reclaim calls is of the reclaim's own range, also after the next step.
-/
theorem exact_update (hp : p.Guarded)
    (hhooks : p'.hookCalls = Function.update p.hookCalls thread call)
    (hcall : ∀ start stop r, call = .deregister start stop r → start = r.start ∧ stop = r.stop)
    (t start stop : Nat) (r : Reclaim) (hr : p'.hookCalls t = .deregister start stop r) :
    start = r.start ∧ stop = r.stop := by
  rw [hhooks] at hr
  by_cases ht : t = thread
  · subst ht
    rw [Function.update_self] at hr
    exact hcall start stop r hr
  · rw [Function.update_of_ne ht] at hr
    exact hp.exact t start stop r hr

/-- A move that neither hands anything over nor takes a byte from its arena spares what the
range it clears does not meet. -/
theorem spares_setHook
    (hcall : ∀ r, call.cleared = some r →
      (p.hookCalls thread).cleared = some r ∨ ¬SharesByte r.start r.stop base limit) :
    Spares p (p.setHook thread call) base limit where
  covers _ _ _ hx := hx
  handed _ hv := .inl hv
  cleared := cleared_update rfl hcall

/-- The default hook spares what it does not meet. -/
theorem spares_runDefault {r : Reclaim} {failed : Bool}
    (hr : ¬SharesByte r.start r.stop base limit) :
    Spares p (p.runDefault thread r failed) base limit where
  covers x hbase hlimit := by
    rintro ⟨arena, harena, howner⟩
    refine ⟨arena, harena, ?_⟩
    show (if r.unmaps failed ∧ r.start ≤ x ∧ x < r.stop then none else p.owner x) = some arena
    rw [if_neg]
    · exact howner
    · rintro ⟨-, hstart, hstop⟩
      exact hr ⟨x, hstart, hstop, hbase, hlimit⟩
  handed v hv := by
    rcases List.mem_cons.mp hv with rfl | hv
    · exact .inr hr
    · exact .inl hv
  cleared := cleared_update rfl fun _ h => by cases h

/-- A range past its deregistration that runs its default, or is told there is none. -/
theorem Guarded.runDefault (hp : p.Guarded) {r : Reclaim} (failed : Bool)
    (hr : (p.hookCalls thread).cleared = some r) : (p.runDefault thread r failed).Guarded := by
  apply hp.of_spares
  · intro v hv
    rcases List.mem_cons.mp hv with rfl | hv
    · exact Nat.le_refl _
    · exact hp.before_le v hv
  · exact exact_update hp rfl fun _ _ _ h => by cases h
  · intro domain base e he
    exact ⟨he, spares_runDefault ((hp.entry domain base e he).cleared thread r hr)⟩
  · rfl
  · intro start stop _ hapart
    have hmiss : ¬SharesByte r.start r.stop start stop :=
      hapart thread r (HookCall.reclaim_of_cleared hr)
    exact ⟨spares_runDefault hmiss, apart_update hapart rfl fun _ h => by cases h⟩

/-- A move of a hook that hands nothing over. -/
theorem Guarded.setHook (hp : p.Guarded)
    (hexact : ∀ start stop r, call = .deregister start stop r → start = r.start ∧ stop = r.stop)
    (hentry : ∀ r, call.cleared = some r →
      (p.hookCalls thread).cleared = some r ∨
        ∀ base limit registration, p.Safe base limit registration →
          -- Four fields: ages, exact ranges, entries out of reach of what is cleared, and calls
          -- apart from what is handed over.
          ¬SharesByte r.start r.stop base limit)
    (hlive : ∀ r, call.reclaim = some r →
      (p.hookCalls thread).reclaim = some r ∨ p.Dead r) :
    (p.setHook thread call).Guarded := by
  apply hp.of_spares
  · exact hp.before_le
  · exact exact_update hp rfl hexact
  · intro domain base e he
    refine ⟨he, spares_setHook ?_⟩
    intro r hr
    rcases hentry r hr with hsame | hmiss
    · exact .inl hsame
    · exact .inr (hmiss base e.limit e.registration (hp.entry domain base e he))
  · rfl
  · intro start stop hoperand hapart
    have hmiss : ∀ r, call.reclaim = some r → ¬SharesByte r.start r.stop start stop := by
      intro r hr
      rcases hlive r hr with hsame | hdead
      · exact hapart thread r hsame
      · exact hdead start stop hoperand
    refine ⟨spares_setHook ?_, apart_update hapart rfl hmiss⟩
    intro r hr
    exact .inr (hmiss r (HookCall.reclaim_of_cleared hr))

/-- A lease that is dropped leaves the extents alone. -/
theorem Guarded.dropLease (hp : p.Guarded) (lease : Option Nat) (leases : List Nat) :
    ({ p with cache := p.cache.dropLease lease, leases := leases } : Process).Guarded := by
  have hcalm : Calm p { p with cache := p.cache.dropLease lease, leases := leases } :=
    ⟨fun x hx => hx, rfl, rfl⟩
  apply hp.of_calm hcalm
  · show p.cache.handles.cells.length ≤ (p.cache.dropLease lease).handles.cells.length
    rw [Cache.cells_dropLease]
  · intro domain base e he
    exact hp.entry domain base e he
  · exact hp.posting

end Hooks

variable {lib : Libfabric} {requiresLocalMr : Domain → Bool} {hooks : Hooks} {thread : Nat}

/-- A hook is called for a range that holds no value, which the host has promised. -/
theorem guarded_hook {r : Reclaim} (hp : p.Guarded) (hok : p.Promised (.hook thread r))
    (h : p.step lib requiresLocalMr hooks (.hook thread r) = some p') : p'.Guarded := by
  obtain ⟨hstop, hdead⟩ := hok
  simp only [step, wrapped_eq hstop] at h
  split at h <;> cases h
  apply hp.setHook
  · intro start stop r' h
    cases h
    exact ⟨rfl, rfl⟩
  · intro r' h
    cases h
  · intro r' h
    cases h
    exact .inr hdead

/-- A reclaim without the hook changes memory only where no value is, or nowhere that is
registered. -/
theorem guarded_unhooked {r : Reclaim} (hp : p.Guarded) (hok : p.Promised (.unhooked thread r))
    (h : p.step lib requiresLocalMr hooks (.unhooked thread r) = some p') : p'.Guarded := by
  obtain ⟨hforeign, hdead⟩ := hok
  simp only [step] at h
  split at h <;> cases h
  apply hp.setHook
  · intro start stop r' h
    cases h
  · intro r' h
    cases h
    -- A safe byte has a hooked arena, and no byte of this range has one.
    right
    rintro base limit registration hsafe ⟨x, hstart, hstop, hbase, hlimit⟩
    exact hforeign x hstart hstop (hsafe.covered x hbase hlimit)
  · intro r' h
    cases h
    exact .inr hdead

/-- Deregistration clears a range: no extent that meets it stays tracked. -/
theorem guarded_deregister {start stop : Nat} {r : Reclaim} (hp : p.Guarded)
    (hcall : p.hookCalls thread = .deregister start stop r) :
    ({ p.setHook thread (.retired (p.cache.invalidate start stop).2 r) with
      cache := (p.cache.invalidate start stop).1 } : Process).Guarded := by
  obtain ⟨rfl, rfl⟩ := hp.exact thread start stop r hcall
  apply hp.of_spares
  · exact hp.before_le
  · exact exact_update hp rfl fun _ _ _ h => by cases h
  · intro domain base e he
    change (p.cache.registry.invalidate r.start r.stop).1.entry domain base = some e at he
    rw [Registry.entry_invalidate, Option.filter_eq_some_iff] at he
    refine ⟨he.1, ⟨fun _ _ _ hx => hx, fun _ hv => .inl hv, cleared_update rfl ?_⟩⟩
    intro r' h
    cases h
    right
    intro hshare
    have hkept := he.2
    rw [overlaps_of_sharesByte hshare] at hkept
    cases hkept
  · rfl
  · intro start stop _ hapart
    -- The range was on its way before, so the operand is apart from it.
    have hmiss : ¬SharesByte r.start r.stop start stop :=
      hapart thread r (by rw [hcall]; rfl)
    refine ⟨⟨fun _ _ _ hx => hx, fun _ hv => .inl hv, cleared_update rfl ?_⟩,
      apart_update hapart rfl ?_⟩
    · intro r' h
      cases h
      exact .inr hmiss
    · intro r' h
      cases h
      exact hmiss

/-- A reclaim goes on: it clears its range, drops the leases that it took, and has the default hook
run. -/
theorem guarded_resume {failed : Bool} (hp : p.Guarded)
    (h : p.step lib requiresLocalMr hooks (.resume thread failed) = some p') : p'.Guarded := by
  simp only [step, stepHook] at h
  cases hcall : p.hookCalls thread with
  | idle =>
    rw [hcall] at h
    cases h
  | deregister start stop r =>
    rw [hcall] at h
    cases h
    exact guarded_deregister hp hcall
  | retired leases r =>
    rw [hcall] at h
    have hcleared : (p.hookCalls thread).cleared = some r := by
      rw [hcall]
      rfl
    cases leases with
    | nil =>
      simp only at h
      split at h <;> cases h
      · exact hp.runDefault failed hcleared
      · apply hp.setHook
        all_goals
          intros
          contradiction
    | cons lease leases =>
      cases h
      have hmoved : (p.setHook thread (.retired leases r)).Guarded := by
        apply hp.setHook
        · intro start stop r' h
          cases h
        · intro r' h
          cases h
          exact .inl hcleared
        · intro r' h
          cases h
          exact .inl (HookCall.reclaim_of_cleared hcleared)
      exact hmoved.dropLease (some lease) p.leases
  | unhooked r =>
    rw [hcall] at h
    cases h
    apply hp.runDefault failed
    rw [hcall]
    rfl
  | returned result =>
    rw [hcall] at h
    cases h
    apply hp.setHook
    all_goals
      intros
      contradiction

/-- New pages leave the owner of a page alone. -/
theorem guarded_map {arena start stop : Nat} (hp : p.Guarded)
    (h : p.step lib requiresLocalMr hooks (.map arena start stop) = some p') : p'.Guarded := by
  cases h
  refine hp.of_calm ⟨?_, rfl, rfl⟩ (Nat.le_refl _) hp.entry hp.posting
  rintro x ⟨a, ha, howner⟩
  refine ⟨a, ha, ?_⟩
  show (if start ≤ x ∧ x < stop then (p.owner x).or (some arena) else p.owner x) = some a
  rw [howner]
  split <;> rfl

/-- An operand's call returns: its lease goes to the transfer, or there was none. -/
theorem guarded_ret (hp : p.Guarded)
    (h : p.step lib requiresLocalMr hooks (.ret thread) = some p') : p'.Guarded := by
  have hidle : ∀ t posting, Function.update p.postings thread none t = some posting →
      p.Placed posting := by
    intro t posting ht
    by_cases heq : t = thread
    · subst heq
      rw [Function.update_self] at ht
      cases ht
    · rw [Function.update_of_ne heq] at ht
      exact hp.posting t posting ht
  simp only [step, ret] at h
  split at h <;> cases h
  · exact hp.of_calm ⟨fun x hx => hx, rfl, rfl⟩ (Nat.le_refl _) hp.entry hidle
  · exact hp.of_calm ⟨fun x hx => hx, rfl, rfl⟩ (Nat.le_refl _) hp.entry hidle

/-- Every event that keeps the promises keeps the invariant. -/
theorem guarded_step {e : Event} (hp : p.Guarded) (hok : p.Promised e)
    (h : p.step lib requiresLocalMr hooks e = some p') : p'.Guarded := by
  cases e with
  | operand thread domain direction token => exact guarded_operand hp hok h
  | cover thread lookup write => exact guarded_cover hp hok h
  | step thread code => exact guarded_step_posting hp h
  | ret thread => exact guarded_ret hp h
  | dropLease lease =>
    simp only [step] at h
    split at h <;> cases h
    exact hp.dropLease (some lease) _
  | hook thread r => exact guarded_hook hp hok h
  | unhooked thread r => exact guarded_unhooked hp hok h
  | resume thread failed => exact guarded_resume hp h
  | map arena start stop => exact guarded_map hp h

/-- In every run that keeps its promises, every posting is guarded. -/
theorem guarded_reach {read : Option ExtentHooks}
    (h : (process lib requiresLocalMr read).Reach Promised p) : p.Guarded := by
  refine h.invariant (I := Guarded) ?_ ?_
  · rintro p rfl
    exact guarded_start
  · intro p e p' hok hstep hp
    exact guarded_step hp hok hstep

/-! ### What stays tracked -/

/-- The range an event deregisters. -/
def deregisters (p : Process) : Event → Option Reclaim
  | .resume thread _ =>
    match p.hookCalls thread with
    | .deregister _ _ r => some r
    | _ => none
  | _ => none

/-- The domain and base an event tracks an extent at. -/
def tracks (p : Process) : Event → Option (Domain × Nat)
  | .step thread _ =>
    match p.postings thread with
    | some ⟨domain, _, .track base _ _⟩ => some (domain, base)
    | _ => none
  | _ => none

/-- What an event does to the registry. -/
theorem registry_step {e : Event} (hp : p.Guarded)
    (h : p.step lib requiresLocalMr hooks e = some p') :
    p'.cache.registry = p.cache.registry ∨
    (∃ r, p.deregisters e = some r ∧
      p'.cache.registry = (p.cache.registry.invalidate r.start r.stop).1) ∨
    (∃ domain base limit lease, p.tracks e = some (domain, base) ∧
      p'.cache.registry = (p.cache.registry.track base limit domain lease).1) := by
  cases e with
  | operand thread domain direction token =>
    left
    simp only [step] at h
    split at h <;> cases h
    rfl
  | cover thread lookup write =>
    left
    simp only [step, Option.bind_eq_some_iff, Option.map_eq_some_iff, Prod.exists] at h
    obtain ⟨posting, hposting, c, call, hstep, rfl⟩ := h
    obtain ⟨hooked, -, hasked⟩ := cacheableSpan_fst hooks p lookup write posting.token
    rw [hasked] at hstep
    show c.registry = p.cache.registry
    cases hcall : posting.call with
    | ask start stop =>
      rw [hcall] at hstep
      simp only [OperandCall.step] at hstep
      split at hstep <;> cases hstep <;> rfl
    | lookup start stop | register start stop base limit cacheable | track base limit lease
    | superseded replaced lease | done operand | failed error =>
      rw [hcall] at hstep
      cases hstep
  | step thread code =>
    simp only [step, Option.bind_eq_some_iff, Option.map_eq_some_iff, Prod.exists] at h
    obtain ⟨posting, hposting, c, call, hstep, rfl⟩ := h
    rcases (hp.posting thread posting hposting).step_cases hstep with ⟨hsame, -⟩ |
      ⟨base, limit, rfl, -⟩ | ⟨base, limit, lease, replaced, hcall, rfl, -⟩
    · exact .inl hsame.1
    · exact .inl rfl
    · right; right
      refine ⟨posting.domain, base, limit, lease, ?_, rfl⟩
      obtain ⟨domain, token, call⟩ := posting
      cases hcall
      simp only [tracks, hposting]
  | ret thread =>
    left
    simp only [step, ret] at h
    split at h <;> cases h <;> rfl
  | dropLease lease =>
    left
    simp only [step] at h
    split at h <;> cases h
    rfl
  | hook thread r | unhooked thread r =>
    left
    simp only [step] at h
    split at h <;> cases h
    rfl
  | resume thread failed =>
    simp only [step, stepHook] at h
    split at h
    · cases h
    · next start stop r hcall =>
      cases h
      right; left
      obtain ⟨rfl, rfl⟩ := hp.exact thread start stop r hcall
      exact ⟨r, by simp only [deregisters, hcall], rfl⟩
    · cases h
      exact .inl rfl
    · left
      split at h <;> cases h <;> rfl
    · cases h
      exact .inl rfl
    · cases h
      exact .inl rfl
  | map arena start stop =>
    cases h
    exact .inl rfl

/-- The event deregisters no range that overlaps the entry, and tracks nothing in its
place. -/
def Leaves (domain : Domain) (base : Nat) (entry : RegionEntry) (p : Process) (e : Event) : Prop :=
  (∀ r, p.deregisters e = some r → overlaps r.start r.stop base entry = false) ∧
    p.tracks e ≠ some (domain, base)

/-- A step that neither reclaims nor tracks an entry leaves it in the registry. -/
theorem entry_step {e : Event} {domain : Domain} {base : Nat} {entry : RegionEntry}
    (hp : p.Guarded) (h : p.step lib requiresLocalMr hooks e = some p')
    (hleaves : Leaves domain base entry p e)
    (hentry : p.cache.registry.entry domain base = some entry) :
    p'.cache.registry.entry domain base = some entry := by
  rcases registry_step hp h with hsame | ⟨r, hr, hinvalidate⟩ |
    ⟨domain', base', limit, lease, htracks, htrack⟩
  · rw [hsame]
    exact hentry
  · rw [hinvalidate, Registry.entry_invalidate, hentry, Option.filter_some]
    simp [hleaves.1 r hr]
  · rw [htrack, Registry.entry_track, if_neg]
    · exact hentry
    · rintro ⟨rfl, rfl⟩
      exact hleaves.2 htracks

end Process

/-- In a run that keeps the promises, no tracked extent contains a byte that went to a
default hook after its registration was taken. An extent stays tracked, with its end and its
registration, until a range that overlaps it is reclaimed or another one is tracked at its
base on its domain. -/
theorem reclaim_leaves_none_stale {lib : Libfabric} {requiresLocalMr : Domain → Bool}
    {read : Option ExtentHooks} {p : Process}
    (h : (process lib requiresLocalMr read).Reach Process.Promised p) :
    (∀ v ∈ p.handed, ∀ domain base e, p.cache.registry.entry domain base = some e →
      e.registration < v.before → ¬SharesByte v.start v.stop base e.limit) ∧
    ∀ domain base e, p.cache.registry.entry domain base = some e →
      ∀ p', ((process lib requiresLocalMr read).startingAt p).Reach
          (fun q event => q.Promised event ∧ Process.Leaves domain base e q event) p' →
        p'.cache.registry.entry domain base = some e := by
  have hguarded : p.Guarded := Process.guarded_reach h
  constructor
  · intro v hv domain base e he hlt
    exact (hguarded.entry domain base e he).unharmed v hv hlt
  · intro domain base e he p' hreach
    have hkept : p'.Guarded ∧ p'.cache.registry.entry domain base = some e := by
      refine hreach.invariant
        (I := fun q => q.Guarded ∧ q.cache.registry.entry domain base = some e) ?_ ?_
      · rintro q rfl
        exact ⟨hguarded, he⟩
      · rintro q event q' ⟨hok, hleaves⟩ hstep ⟨hq, hentry⟩
        exact ⟨Process.guarded_step hq hok hstep, Process.entry_step hq hstep hleaves hentry⟩
    exact hkept.2

/-! ### Runs -/

/-- A `DMA.GET` of the value in `[pointer, pointer + length)`. -/
def getToken (pointer length : Nat) (fits : length ≤ isizeMax) : OpToken :=
  .get 0 (.copied ⟨pointer, length, fits⟩)

/-- The machine of the runs below: every domain needs local registrations, and jemalloc has
all the hooks. -/
abbrev allHooked : Machine Process Event :=
  process default (fun _ => true) (some ⟨true, true, true, true, true⟩)

/-- Worker 0 registers and tracks a value on domain 7, and the transfer ends. `lease` is the
registration. -/
def registers (pointer length : Nat) (fits : length ≤ isizeMax) (lease : Nat) : List Event :=
  [.operand 0 7 .toPeer (getToken pointer length fits), .step 0 none, .cover 0 true true,
    .step 0 (some 0), .step 0 none, .step 0 none, .ret 0, .dropLease lease]

/-- Two values in an arena of two pages. -/
def twoValues : List Event :=
  .map 0 4096 12288 :: registers 4096 4 (by decide) 0 ++ registers 8192 8 (by decide) 1

/-- The two pages have one owner. -/
private theorem owner_twoPages {x pointer stop : Nat} (hpointer : 4096 ≤ pointer)
    (hstop : stop ≤ 12288) (hx : pointer ≤ x) (hlt : x < stop) :
    (if 4096 ≤ x ∧ x < 12288 then (none : Option Nat).or (some 0) else none)
      = if 4096 ≤ pointer ∧ pointer < 12288 then (none : Option Nat).or (some 0) else none := by
  rw [if_pos (by omega), if_pos (by omega)]

/-- The run of the two values keeps every promise. -/
private theorem obeys_twoValues : allHooked.Obeys Process.Promised Process.start twoValues := by
  refine .cons trivial rfl (.cons ?_ rfl (.cons trivial rfl (.cons ?_ rfl (.cons trivial rfl
    (.cons trivial rfl (.cons trivial rfl (.cons trivial rfl (.cons trivial rfl
    (.cons ?_ rfl (.cons trivial rfl (.cons ?_ rfl (.cons trivial rfl (.cons trivial rfl
    (.cons trivial rfl (.cons trivial rfl (.cons trivial rfl trivial))))))))))))))))
  -- No thread is inside jemalloc when an operand starts.
  · intro _ _ _ _ t r hr
    cases hr
  · intro posting start stop hposting hlive x hx hstop
    cases hposting
    cases hlive
    exact owner_twoPages (by decide) (by decide) hx hstop
  · intro _ _ _ _ t r hr
    cases hr
  · intro posting start stop hposting hlive x hx hstop
    cases hposting
    cases hlive
    exact owner_twoPages (by decide) (by decide) hx hstop

/-- The first page is deallocated. -/
def deallocFirst : List Event :=
  [.hook 0 (.dalloc 4096 4096), .resume 0 false, .resume 0 false, .resume 0 false, .resume 0 false]

/-- An event that invalidates and tracks nothing leaves every entry. -/
private theorem leaves_of_none {domain : Domain} {base : Nat} {entry : RegionEntry} {p : Process}
    {e : Event} (hderegisters : p.deregisters e = none) (htracks : p.tracks e = none) :
    Process.Leaves domain base entry p e := by
  constructor
  · intro r hr
    rw [hderegisters] at hr
    cases hr
  · rw [htracks]
    simp

/-- The deallocation of the first page keeps the promises and leaves the entry of the second
one. -/
private theorem deallocFirst_run :
    ∃ p p', allHooked.run Process.start twoValues = some p ∧
      (allHooked.startingAt p).run p deallocFirst = some p' ∧
      (allHooked.startingAt p).Obeys
        (fun q event => q.Promised event ∧ Process.Leaves 7 8192 ⟨8200, 1⟩ q event) p deallocFirst ∧
      p.cache.registry.entry 7 8192 = some ⟨8200, 1⟩ ∧
      p'.handed = [⟨4096, 8192, 2⟩] ∧ p'.cache.registry.entry 7 4096 = none := by
  refine ⟨_, _, rfl, rfl, ?_, by decide +kernel, rfl, by decide +kernel⟩
  refine .cons ⟨⟨by decide, ?_⟩, leaves_of_none rfl rfl⟩ rfl (.cons ⟨trivial, ?_⟩ rfl
    (.cons ⟨trivial, leaves_of_none rfl rfl⟩ rfl (.cons ⟨trivial, leaves_of_none rfl rfl⟩ rfl
    (.cons ⟨trivial, leaves_of_none rfl rfl⟩ rfl trivial))))
  · -- No worker is under way.
    rintro start stop ⟨thread, posting, hposting, -⟩
    cases thread <;> cases hposting
  · constructor
    · intro r hr
      cases hr
      decide
    · intro htracks
      cases htracks

/-- The entry of the deallocated page is gone. The other one stays, and it has no byte of that
page. -/
theorem reclaim_leaves_none_stale_dealloc :
    ∃ p p', allHooked.run Process.start twoValues = some p ∧
      (allHooked.startingAt p).run p deallocFirst = some p' ∧
      p'.handed = [⟨4096, 8192, 2⟩] ∧ p'.cache.registry.entry 7 4096 = none ∧
      p'.cache.registry.entry 7 8192 = some ⟨8200, 1⟩ ∧ ¬SharesByte 4096 8192 8192 8200 := by
  obtain ⟨p, p', hp, hp', hobeys, hentry, hhanded, hgone⟩ := deallocFirst_run
  have hreach : allHooked.Reach Process.Promised p :=
    (Machine.Reach.init rfl).run obeys_twoValues hp
  have hon : (allHooked.startingAt p).Reach
      (fun q event => q.Promised event ∧ Process.Leaves 7 8192 ⟨8200, 1⟩ q event) p' :=
    (Machine.Reach.init rfl).run hobeys hp'
  have hreach' : allHooked.Reach Process.Promised p' := hreach.trans (hon.mono fun _ _ h => h.1)
  have hstays := (reclaim_leaves_none_stale hreach).2 7 8192 ⟨8200, 1⟩ hentry p' hon
  refine ⟨p, p', hp, hp', hhanded, hgone, hstays, ?_⟩
  exact (reclaim_leaves_none_stale hreach').1 ⟨4096, 8192, 2⟩ (by rw [hhanded]; simp) 7 8192
    ⟨8200, 1⟩ hstays (by decide)

/-- A longer value is registered where the first one was. No range is reclaimed. -/
private theorem longerValue_run :
    ∃ p p', allHooked.run Process.start twoValues = some p ∧
      (allHooked.startingAt p).run p (registers 4096 4096 (by decide) 2) = some p' ∧
      (allHooked.startingAt p).Obeys
        (fun q event => q.Promised event ∧ q.deregisters event = none) p
        (registers 4096 4096 (by decide) 2) ∧
      p.cache.registry.entry 7 4096 = some ⟨4100, 0⟩ ∧
      p'.cache.registry.entry 7 4096 = some ⟨8192, 2⟩ := by
  refine ⟨_, _, rfl, rfl, ?_, by decide +kernel, by decide +kernel⟩
  refine .cons ⟨?_, rfl⟩ rfl (.cons ⟨trivial, rfl⟩ rfl (.cons ⟨?_, rfl⟩ rfl
    (.cons ⟨trivial, rfl⟩ rfl (.cons ⟨trivial, rfl⟩ rfl (.cons ⟨trivial, rfl⟩ rfl
    (.cons ⟨trivial, rfl⟩ rfl (.cons ⟨trivial, rfl⟩ rfl trivial)))))))
  · intro _ _ _ _ t r hr
    cases hr
  · intro posting start stop hposting hlive x hx hstop
    cases hposting
    cases hlive
    exact owner_twoPages (by decide) (by decide) hx hstop

/-- A purge of no bytes inside the first value. -/
def purgeNothing : List Event :=
  [.hook 0 (.purgeLazy 4096 4096 2 0), .resume 0 false, .resume 0 false, .resume 0 false,
    .resume 0 false]

/-- A purge of nothing retires an entry all the same, in a run that reclaims no byte of it. -/
private theorem purgeNothing_run :
    ∃ p p', allHooked.run Process.start twoValues = some p ∧
      (allHooked.startingAt p).run p purgeNothing = some p' ∧
      (allHooked.startingAt p).Obeys
        (fun q event => q.Promised event ∧
          ∀ r, q.deregisters event = some r → ∀ x, ¬(r.start ≤ x ∧ x < r.stop)) p purgeNothing ∧
      p.cache.registry.entry 7 4096 = some ⟨4100, 0⟩ ∧
      p'.cache.registry.entry 7 4096 = none := by
  refine ⟨_, _, rfl, rfl, ?_, by decide +kernel, by decide +kernel⟩
  refine .cons ⟨⟨by decide, ?_⟩, ?_⟩ rfl (.cons ⟨trivial, ?_⟩ rfl (.cons ⟨trivial, ?_⟩ rfl
    (.cons ⟨trivial, ?_⟩ rfl (.cons ⟨trivial, ?_⟩ rfl trivial))))
  · rintro start stop ⟨thread, posting, hposting, -⟩
    cases thread <;> cases hposting
  all_goals
    intro r hr x
    cases hr
  show ¬(4098 ≤ x ∧ x < 4098)
  omega

/-- An entry changes while no range is reclaimed at all, because another one is tracked at its
base. And one is retired by a range that has no byte, because the overlap test looks at the ends
only. -/
theorem entry_not_kept :
    (∃ p p', allHooked.Reach Process.Promised p ∧
      (allHooked.startingAt p).Reach (fun q event => q.Promised event ∧ q.deregisters event = none)
        p' ∧
      p.cache.registry.entry 7 4096 = some ⟨4100, 0⟩ ∧
      p'.cache.registry.entry 7 4096 = some ⟨8192, 2⟩) ∧
    ∃ p p', allHooked.Reach Process.Promised p ∧
      (allHooked.startingAt p).Reach (fun q event => q.Promised event ∧
        ∀ r, q.deregisters event = some r → ∀ x, ¬(r.start ≤ x ∧ x < r.stop)) p' ∧
      p.cache.registry.entry 7 4096 = some ⟨4100, 0⟩ ∧
      p'.cache.registry.entry 7 4096 = none := by
  have hreach : ∀ {p}, allHooked.run Process.start twoValues = some p →
      allHooked.Reach Process.Promised p :=
    fun hp => (Machine.Reach.init rfl).run obeys_twoValues hp
  constructor
  · obtain ⟨p, p', hp, hp', hobeys, hbefore, hafter⟩ := longerValue_run
    exact ⟨p, p', hreach hp, (Machine.Reach.init rfl).run hobeys hp', hbefore, hafter⟩
  · obtain ⟨p, p', hp, hp', hobeys, hbefore, hafter⟩ := purgeNothing_run
    exact ⟨p, p', hreach hp, (Machine.Reach.init rfl).run hobeys hp', hbefore, hafter⟩

end Vdma.Module.Memory
