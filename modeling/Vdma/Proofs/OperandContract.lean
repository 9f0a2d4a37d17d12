import Vdma.Proofs.Covering
import Vdma.Proofs.SharedLeases

/-!
# `Vdma.Proofs.OperandContract`: what a call of `operand` does to the cache

A call runs in sections, and other threads run between them. `OperandTrail` has the sections of
one call, each with the cache it found and the cache it left, and asks nothing of what happens
in between. `Stands` says where a call can stand after its sections, one constructor for each
place, and `OperandContract` is read off it: for every registry that each section may find.

That the lease returned is for a range with the whole operand is a fact about runs. A hit
answers a registered range because every tracked extent is the one its registration was made
with, and a registration that the call leases stays open. `operand_contract` puts both together:
in every run of `sharing`, the sections that a thread's call has run are such a trail.
-/

set_option autoImplicit false

namespace Vdma.Fabric

open Vdma.Lib

/-! ### The sections of a call -/

/-- A section: the cache it found, what it was told, and the cache it left. -/
structure Section where
  before : Cache
  answer : RegionAnswer
  after : Cache

/-- The sections of a call of `operand` for `[pointer, pointer + length)`, and where the call
stands after them. -/
inductive OperandTrail (lib : Libfabric) (domain : Domain) (pointer length : Nat) :
    List Section → OperandCall → Prop
  | start : OperandTrail lib domain pointer length [] (.begin pointer length)
  | step {l : List Section} {call call' : OperandCall} {x : Section}
      (h : OperandTrail lib domain pointer length l call)
      (hstep : call.step lib domain x.before x.answer = some (x.after, call')) :
      OperandTrail lib domain pointer length (l ++ [x]) call'

/-- The first sections of a miss: a lookup, the question for a span, and calls of `fi_mr_reg`,
which leave the registry alone. -/
structure Missed (domain : Domain) (pointer length : Nat) (x y : Section) (regs : List Section)
    (span : Option CacheableSpan) : Prop where
  fits : pointer + length < addressSpace
  missed : x.before.registry.covering pointer (pointer + length) domain = none
  lookedUp : x.answer = .none ∧ x.after = x.before
  asked : y.answer = .span span ∧ y.after = y.before
  tried : ∀ z ∈ regs, (∃ code, z.answer = .mrReg code) ∧ z.after.registry = z.before.registry

/-- The range to register: the operand's own, or one that lies in the caller's span and has the
operand. -/
structure Aims (pointer length : Nat) (span : Option CacheableSpan) (base limit : Nat)
    (cacheable : Bool) : Prop where
  holds : base ≤ pointer ∧ pointer + length ≤ limit
  own : cacheable = false → base = pointer ∧ limit = pointer + length
  inside : cacheable = true → ∃ promised, span = some promised ∧
    promised.contains pointer (pointer + length) = true ∧ promised.base ≤ base ∧
      limit ≤ promised.limit

/-- One of the sections registered the range, under this lease. -/
def RegisteredIn (domain : Domain) (base limit lease : Nat) (regs : List Section) : Prop :=
  ∃ z ∈ regs, z.after = z.before.register domain base limit ∧ lease = z.before.handles.next

/-- Where a call can stand, with what its sections were. -/
inductive Stands (domain : Domain) (pointer length : Nat) : List Section → OperandCall → Prop
  | refused (hover : addressSpace ≤ pointer + length) :
      Stands domain pointer length [] (.failed (.fabric "local operand range overflows"))
  | lookup (hfits : pointer + length < addressSpace) :
      Stands domain pointer length [] (.lookup pointer (pointer + length))
  | hit (x : Section) (lease : Nat) (hx : x.answer = .none)
      (hcovering : x.before.covering pointer (pointer + length) domain = (x.after, some lease)) :
      Stands domain pointer length [x] (.done (.ofLease lease))
  | ask (x : Section) (hfits : pointer + length < addressSpace)
      (hmissed : x.before.registry.covering pointer (pointer + length) domain = none)
      (hx : x.answer = .none ∧ x.after = x.before) :
      Stands domain pointer length [x] (.ask pointer (pointer + length))
  | register (x y : Section) (regs : List Section) (span : Option CacheableSpan)
      (base limit : Nat) (cacheable : Bool) (hmissed : Missed domain pointer length x y regs span)
      (haims : Aims pointer length span base limit cacheable)
      (hfew : regs.length ≤ if (base, limit) = (pointer, pointer + length) then 1 else 0) :
      Stands domain pointer length (x :: y :: regs)
        (.register pointer (pointer + length) base limit cacheable)
  | uncached (x y : Section) (regs : List Section) (span : Option CacheableSpan) (lease : Nat)
      (hmissed : Missed domain pointer length x y regs span) (hfew : regs.length ≤ 2)
      (hlease : RegisteredIn domain pointer (pointer + length) lease regs) :
      Stands domain pointer length (x :: y :: regs) (.done (.ofLease lease))
  | track (x y : Section) (regs : List Section) (span : Option CacheableSpan)
      (base limit lease : Nat) (hmissed : Missed domain pointer length x y regs span)
      (hfew : regs.length ≤ 2) (haims : Aims pointer length span base limit true)
      (hlease : RegisteredIn domain base limit lease regs) :
      Stands domain pointer length (x :: y :: regs) (.track base limit lease)
  | superseded (x y : Section) (regs : List Section) (span : Option CacheableSpan)
      (base limit lease : Nat) (replaced : Option Nat) (z : Section)
      (hmissed : Missed domain pointer length x y regs span) (hfew : regs.length ≤ 2)
      (haims : Aims pointer length span base limit true)
      (hlease : RegisteredIn domain base limit lease regs) (hz : z.answer = .none)
      (htrack : z.after = (z.before.track base limit domain lease).1) :
      Stands domain pointer length (x :: y :: (regs ++ [z])) (.superseded replaced lease)
  | cached (x y : Section) (regs : List Section) (span : Option CacheableSpan)
      (base limit lease : Nat) (z w : Section)
      (hmissed : Missed domain pointer length x y regs span) (hfew : regs.length ≤ 2)
      (haims : Aims pointer length span base limit true)
      (hlease : RegisteredIn domain base limit lease regs) (hz : z.answer = .none)
      (htrack : z.after = (z.before.track base limit domain lease).1) (hw : w.answer = .none)
      (hdrop : w.after.registry = w.before.registry) :
      Stands domain pointer length (x :: y :: (regs ++ [z, w])) (.done (.ofLease lease))
  | failed (x y : Section) (regs : List Section) (span : Option CacheableSpan) (error : DmaError)
      (hmissed : Missed domain pointer length x y regs span) (hfew : regs.length ≤ 2) :
      Stands domain pointer length (x :: y :: regs) (.failed error)

section
variable {lib : Libfabric} {domain : Domain} {pointer length : Nat}

/-- One more `fi_mr_reg`. -/
theorem Missed.concat {x y z : Section} {regs : List Section} {span : Option CacheableSpan}
    (h : Missed domain pointer length x y regs span) {code : Int} (hz : z.answer = .mrReg code)
    (hregistry : z.after.registry = z.before.registry) :
    Missed domain pointer length x y (regs ++ [z]) span := by
  refine ⟨h.fits, h.missed, h.lookedUp, h.asked, ?_⟩
  intro w hw
  rcases List.mem_append.mp hw with hold | hnew
  · exact h.tried w hold
  · rw [List.mem_singleton.mp hnew]
    exact ⟨⟨code, hz⟩, hregistry⟩

/-- The range that the answer to `cacheable_span` leads to. -/
theorem aims_of_span (pointer length : Nat) {answer : Option CacheableSpan}
    {span : Option CacheableSpan}
    (hspan : answer.filter (fun span => span.contains pointer (pointer + length)) = span) :
    (∃ promised, span = some promised ∧
      Aims pointer length answer promised.base promised.limit true) ∨
    (span = none ∧ Aims pointer length answer pointer (pointer + length) false) := by
  cases span with
  | none =>
    refine .inr ⟨rfl, ⟨⟨Nat.le_refl _, Nat.le_refl _⟩, fun _ => ⟨rfl, rfl⟩, ?_⟩⟩
    intro hcacheable
    cases hcacheable
  | some promised =>
    obtain ⟨hanswer, hcontains⟩ := Option.filter_eq_some_iff.mp hspan
    refine .inl ⟨promised, rfl, ⟨(promised.contains_iff _ _).mp hcontains, ?_, ?_⟩⟩
    · intro hcacheable
      cases hcacheable
    · intro _
      exact ⟨promised, hanswer, hcontains, Nat.le_refl _, Nat.le_refl _⟩

/-- The fallback after a widened registration fails: the operand's own range, which lies in the
span as well. -/
theorem Aims.narrow {span : Option CacheableSpan} {base limit : Nat} {cacheable : Bool}
    (h : Aims pointer length span base limit cacheable) :
    Aims pointer length span pointer (pointer + length) cacheable := by
  refine ⟨⟨Nat.le_refl _, Nat.le_refl _⟩, fun _ => ⟨rfl, rfl⟩, ?_⟩
  intro hcacheable
  obtain ⟨promised, hspan, hcontains, -, -⟩ := h.inside hcacheable
  obtain ⟨hbase, hlimit⟩ := (promised.contains_iff _ _).mp hcontains
  exact ⟨promised, hspan, hcontains, hbase, hlimit⟩

/-- A lookup that misses leaves the cache alone. -/
theorem covering_none {c c' : Cache} {start stop : Nat}
    (h : c.covering start stop domain = (c', none)) :
    c.registry.covering start stop domain = none ∧ c' = c := by
  have hnone := c.covering_snd start stop domain
  rw [h] at hnone
  refine ⟨hnone.symm, ?_⟩
  simp only [Cache.covering, ← hnone] at h
  exact (Prod.mk.inj h).1.symm

/-- The section of a `fi_mr_reg`: it registers, falls back on the operand's own range, or fails. -/
theorem Stands.step_register {x y z : Section} {regs : List Section}
    {span : Option CacheableSpan} {base limit : Nat} {cacheable : Bool} {call : OperandCall}
    {code : Int} (hmissed : Missed domain pointer length x y regs span)
    (haims : Aims pointer length span base limit cacheable)
    (hfew : regs.length ≤ if (base, limit) = (pointer, pointer + length) then 1 else 0)
    (hz : z.answer = .mrReg code)
    (hstep : (OperandCall.register pointer (pointer + length) base limit cacheable).step lib domain
      z.before (.mrReg code) = some (z.after, call)) :
    Stands domain pointer length (x :: y :: (regs ++ [z])) call := by
  -- There was at most one attempt before, and that only when the span was the operand's own.
  have htwo : (regs ++ [z]).length ≤ 2 := by
    rw [List.length_append, List.length_singleton]
    split at hfew <;> omega
  simp only [OperandCall.step] at hstep
  split at hstep
  · -- It registers.
    obtain ⟨hafter, hcall⟩ := Prod.mk.inj (Option.some.inj hstep)
    have hlater : Missed domain pointer length x y (regs ++ [z]) span := by
      refine hmissed.concat hz ?_
      rw [← hafter]
      rfl
    have hlease : RegisteredIn domain base limit z.before.handles.next (regs ++ [z]) :=
      ⟨z, List.mem_append_right _ (List.mem_singleton_self z), hafter.symm, rfl⟩
    rw [← hcall]
    -- A span of its own is tracked; the operand's own range is used once.
    cases cacheable with
    | true => exact .track x y (regs ++ [z]) span base limit _ hlater htwo haims hlease
    | false =>
      obtain ⟨rfl, rfl⟩ := haims.own rfl
      exact .uncached x y (regs ++ [z]) span _ hlater htwo hlease
  · -- It falls back on the operand's own range, unless that has just failed.
    obtain ⟨hafter, hcall⟩ := Prod.mk.inj (Option.some.inj hstep)
    have hlater : Missed domain pointer length x y (regs ++ [z]) span :=
      hmissed.concat hz (by rw [hafter])
    rw [← hcall]
    split
    · next hwide =>
      rw [if_neg hwide] at hfew
      refine .register x y (regs ++ [z]) span _ _ _ hlater haims.narrow ?_
      rw [if_pos rfl, List.length_append, List.length_singleton]
      omega
    · exact .failed x y (regs ++ [z]) span _ hlater htwo

/-- Every section takes a call to a place where it can stand. -/
theorem Stands.step {l : List Section} {call call' : OperandCall} {z : Section}
    (h : Stands domain pointer length l call)
    (hstep : call.step lib domain z.before z.answer = some (z.after, call')) :
    Stands domain pointer length (l ++ [z]) call' := by
  cases hanswer : z.answer with
  | none =>
    rw [hanswer] at hstep
    cases h with
    | lookup hfits =>
      simp only [OperandCall.step] at hstep
      split at hstep
      · next c lease hcovering =>
        obtain ⟨rfl, rfl⟩ := Prod.mk.inj (Option.some.inj hstep)
        exact .hit z lease hanswer hcovering
      · next c hcovering =>
        obtain ⟨rfl, rfl⟩ := Prod.mk.inj (Option.some.inj hstep)
        obtain ⟨hmissed, hsame⟩ := covering_none hcovering
        exact .ask z hfits hmissed ⟨hanswer, hsame⟩
    | track x y regs span base limit lease hmissed hfew haims hlease =>
      obtain ⟨hafter, rfl⟩ := Prod.mk.inj (Option.some.inj hstep)
      exact .superseded x y regs span base limit lease _ z hmissed hfew haims hlease hanswer
        hafter.symm
    | superseded x y regs span base limit lease replaced w hmissed hfew haims hlease hw htrack =>
      obtain ⟨hafter, rfl⟩ := Prod.mk.inj (Option.some.inj hstep)
      rw [List.cons_append, List.cons_append, List.append_assoc]
      refine .cached x y regs span base limit lease w z hmissed hfew haims hlease hw htrack
        hanswer ?_
      rw [← hafter]
      rfl
    | _ => cases hstep
  | span answer =>
    rw [hanswer] at hstep
    cases h with
    | ask x hfits hmissed hx =>
      simp only [OperandCall.step] at hstep
      split at hstep
      · next promised hspan =>
        obtain ⟨hafter, rfl⟩ := Prod.mk.inj (Option.some.inj hstep)
        rcases aims_of_span pointer length hspan with ⟨promised', heq, haims⟩ | ⟨heq, -⟩
        · cases heq
          exact .register x z [] answer _ _ true
            ⟨hfits, hmissed, hx, ⟨hanswer, hafter.symm⟩, by simp⟩ haims (Nat.zero_le _)
        · cases heq
      · next hspan =>
        -- No promise, or one that does not have the whole operand.
        obtain ⟨hafter, rfl⟩ := Prod.mk.inj (Option.some.inj hstep)
        rcases aims_of_span pointer length hspan with ⟨promised', heq, -⟩ | ⟨-, haims⟩
        · cases heq
        · exact .register x z [] answer _ _ false
            ⟨hfits, hmissed, hx, ⟨hanswer, hafter.symm⟩, by simp⟩ haims (Nat.zero_le _)
    | _ => cases hstep
  | mrReg code =>
    rw [hanswer] at hstep
    cases h with
    | register x y regs span base limit cacheable hmissed haims hfew =>
      exact Stands.step_register hmissed haims hfew hanswer hstep
    | _ => cases hstep

/-- A call stands somewhere after any sections. -/
theorem OperandTrail.stands {l : List Section} {call : OperandCall}
    (h : OperandTrail lib domain pointer length l call) : Stands domain pointer length l call := by
  induction h with
  | start =>
    unfold OperandCall.begin
    split
    · next hfits => exact .lookup hfits
    · next hover => exact .refused (Nat.le_of_not_lt hover)
  | step _ hstep ih => exact ih.step hstep

end

/-! ### The contract of a call -/

/-- The registration that the call has tracked or returned. -/
def OperandCall.leased : OperandCall → Option Nat
  | .superseded _ lease => some lease
  | .done operand => operand.lease
  | _ => none

/-- The section adds the entry of `[base, limit)`: under a registration that the call made of
exactly this range and returns, inside a span that the caller promised and that has the whole
operand. Every other entry stays, but for one at the same base. -/
structure Adds (domain : Domain) (pointer length : Nat) (l : List Section) (call : OperandCall)
    (x : Section) (base limit lease : Nat) : Prop where
  promised : ∃ y ∈ l, ∃ span, y.answer = .span (some span) ∧
    span.contains pointer (pointer + length) = true ∧ span.base ≤ base ∧ limit ≤ span.limit
  registered : RegisteredIn domain base limit lease l
  entry : ∀ domain' base', x.after.registry.entry domain' base'
    = if domain' = domain ∧ base' = base then some ⟨limit, lease⟩
      else x.before.registry.entry domain' base'
  returned : call.leased = some lease

/-- What the sections of a call do, with any caches that they may find. -/
structure OperandContract (domain : Domain) (pointer length : Nat) (l : List Section)
    (call : OperandCall) : Prop where
  /-- A call ends. -/
  short : l.length ≤ 6
  /-- `cacheable_span` is asked at most once, and only when the lookup missed. -/
  asked : ∀ i x span, l[i]? = some x → x.answer = .span span → i = 1 ∧
    ∃ y, l[0]? = some y ∧ y.before.registry.covering pointer (pointer + length) domain = none
  /-- A section leaves the registry alone, or adds one entry. -/
  changes : ∀ x ∈ l, x.after.registry = x.before.registry ∨
    ∃ base limit lease, Adds domain pointer length l call x base limit lease
  /-- An error leaves the registry alone. -/
  failed : ∀ error, call = .failed error → ∀ x ∈ l, x.after.registry = x.before.registry
  /-- No sum passes the end of the address space, and `limit - base` does not go below zero. -/
  arithmetic : ∀ start stop base limit cacheable,
    call = .register start stop base limit cacheable →
      pointer + length < addressSpace ∧ base ≤ limit ∧
        ((∀ x ∈ l, ∀ span, x.answer = .span (some span) → span.limit < addressSpace) →
          limit < addressSpace)

section
variable {lib : Libfabric} {domain : Domain} {pointer length : Nat} {l : List Section}
  {call : OperandCall}

/-- What the sections of a miss leave alone, whatever comes after `fi_mr_reg`. -/
theorem Missed.quiet {x y : Section} {regs : List Section} {span : Option CacheableSpan}
    (h : Missed domain pointer length x y regs span) :
    ∀ z ∈ x :: y :: regs, z.after.registry = z.before.registry := by
  intro z hz
  rcases List.mem_cons.mp hz with rfl | hz
  · rw [h.lookedUp.2]
  · rcases List.mem_cons.mp hz with rfl | hz
    · rw [h.asked.2]
    · exact (h.tried z hz).2

/-- Only the second section asks for a span. -/
theorem Missed.asks_once {x y : Section} {regs : List Section} {span : Option CacheableSpan}
    (h : Missed domain pointer length x y regs span) (rest : List Section)
    (hrest : ∀ z ∈ rest, z.answer = .none) :
    ∀ i z span', (x :: y :: (regs ++ rest))[i]? = some z → z.answer = .span span' → i = 1 ∧
      ∃ w, (x :: y :: (regs ++ rest))[0]? = some w ∧
        w.before.registry.covering pointer (pointer + length) domain = none := by
  intro i z span' hget hanswer
  refine ⟨?_, x, rfl, h.missed⟩
  -- Only the second section is the answer of the hook: the first looks up, the others register or
  -- track.
  cases i with
  | zero =>
    cases hget
    rw [h.lookedUp.1] at hanswer
    cases hanswer
  | succ i =>
    cases i with
    | zero => rfl
    | succ i =>
      exfalso
      rcases List.mem_append.mp (List.mem_of_getElem? hget) with hz | hz
      · obtain ⟨⟨code, hcode⟩, -⟩ := h.tried z hz
        rw [hcode] at hanswer
        cases hanswer
      · rw [hrest z hz] at hanswer
        cases hanswer

/-- The section that tracks adds the entry. -/
theorem adds_of_track {x y z : Section} {regs rest : List Section}
    {span : Option CacheableSpan} {base limit lease : Nat}
    (hmissed : Missed domain pointer length x y regs span)
    (haims : Aims pointer length span base limit true)
    (hlease : RegisteredIn domain base limit lease regs)
    (htrack : z.after = (z.before.track base limit domain lease).1)
    (hcall : call.leased = some lease) :
    Adds domain pointer length (x :: y :: (regs ++ rest)) call z base limit lease := by
  obtain ⟨promised, rfl, hcontains, hbase, hlimit⟩ := haims.inside rfl
  constructor
  · exact ⟨y, by simp, promised, hmissed.asked.1, hcontains, hbase, hlimit⟩
  · obtain ⟨w, hw, hregistered⟩ := hlease
    exact ⟨w, by simp [hw], hregistered⟩
  · intro domain' base'
    rw [htrack]
    exact Registry.entry_track ..
  · exact hcall

/-- A call whose sections all leave the registry alone. -/
theorem OperandContract.of_quiet (hshort : l.length ≤ 6)
    (hasked : ∀ i x span, l[i]? = some x → x.answer = .span span → i = 1 ∧
      ∃ y, l[0]? = some y ∧ y.before.registry.covering pointer (pointer + length) domain = none)
    (hquiet : ∀ x ∈ l, x.after.registry = x.before.registry)
    (harithmetic : ∀ start stop base limit cacheable,
      call = .register start stop base limit cacheable →
        pointer + length < addressSpace ∧ base ≤ limit ∧
          ((∀ x ∈ l, ∀ span, x.answer = .span (some span) → span.limit < addressSpace) →
            limit < addressSpace)) : OperandContract domain pointer length l call :=
  ⟨hshort, hasked, fun x hx => .inl (hquiet x hx), fun _ _ => hquiet, harithmetic⟩

/-- A call that has not asked for a span. -/
theorem OperandContract.of_unasked (hshort : l.length ≤ 6) (hunasked : ∀ x ∈ l, x.answer = .none)
    (hquiet : ∀ x ∈ l, x.after.registry = x.before.registry)
    (hcall : ∀ start stop base limit cacheable,
      call ≠ .register start stop base limit cacheable) :
    OperandContract domain pointer length l call := by
  refine .of_quiet hshort ?_ hquiet ?_
  · intro i x span hget hanswer
    rw [hunasked x (List.mem_of_getElem? hget)] at hanswer
    cases hanswer
  · intro start stop base limit cacheable hregister
    exact absurd hregister (hcall start stop base limit cacheable)

/-- A call that is about to register, or has, and has tracked nothing. -/
theorem Missed.contract {x y : Section} {regs : List Section} {span : Option CacheableSpan}
    (h : Missed domain pointer length x y regs span) (hfew : regs.length ≤ 2)
    (haims : ∀ start stop base limit cacheable,
      call = .register start stop base limit cacheable →
        Aims pointer length span base limit cacheable) :
    OperandContract domain pointer length (x :: y :: regs) call := by
  refine .of_quiet ?_ ?_ h.quiet ?_
  · rw [List.length_cons, List.length_cons]
    omega
  · have hasks := h.asks_once [] (by simp)
    rwa [List.append_nil] at hasks
  · intro start stop base limit cacheable hcall
    have hthis := haims start stop base limit cacheable hcall
    have hfits := h.fits
    obtain ⟨hbase, hlimit⟩ := hthis.holds
    refine ⟨hfits, by omega, ?_⟩
    intro hspans
    cases cacheable with
    | false =>
      -- Just the operand is registered.
      rw [(hthis.own rfl).2]
      exact hfits
    | true =>
      -- What is registered lies in the promised span.
      obtain ⟨promised, rfl, -, -, hinside⟩ := hthis.inside rfl
      have hpromised := hspans y (by simp) promised h.asked.1
      omega

/-- A call that has tracked what it registered. -/
theorem Missed.contract_tracked {x y z : Section} {regs rest : List Section}
    {span : Option CacheableSpan} {base limit lease : Nat}
    (h : Missed domain pointer length x y regs span) (hfew : regs.length ≤ 2)
    (haims : Aims pointer length span base limit true)
    (hlease : RegisteredIn domain base limit lease regs) (hz : z.answer = .none)
    (htrack : z.after = (z.before.track base limit domain lease).1)
    (hrest : rest.length ≤ 1)
    (hlast : ∀ w ∈ rest, w.answer = .none ∧ w.after.registry = w.before.registry)
    (hcall : call.leased = some lease) :
    OperandContract domain pointer length (x :: y :: (regs ++ z :: rest)) call := by
  constructor
  · simp only [List.length_cons, List.length_append]
    omega
  · refine h.asks_once (z :: rest) ?_
    intro w hw
    rcases List.mem_cons.mp hw with rfl | hw
    · exact hz
    · exact (hlast w hw).1
  · intro w hw
    -- A section before the tracking, the tracking, or the drop that follows it.
    have hsplit : w ∈ x :: y :: regs ∨ w = z ∨ w ∈ rest := by
      simp only [List.mem_cons, List.mem_append] at hw ⊢
      tauto
    rcases hsplit with hold | rfl | hnew
    · exact .inl (h.quiet w hold)
    · exact .inr ⟨base, limit, lease, adds_of_track h haims hlease htrack hcall⟩
    · exact .inl (hlast w hnew).2
  · -- A call that leases has neither failed nor registers.
    intro error herror
    rw [herror] at hcall
    cases hcall
  · intro start stop base' limit' cacheable hregister
    rw [hregister] at hcall
    cases hcall

/-- Every call keeps the contract. -/
theorem OperandTrail.contract (h : OperandTrail lib domain pointer length l call) :
    OperandContract domain pointer length l call := by
  cases h.stands with
  -- Before the hook is asked nothing has been added.
  | refused | lookup => exact .of_unasked (Nat.zero_le _) (by simp) (by simp) (by simp)
  -- A hit takes a lease, and leaves the index alone.
  | hit x lease hx hcovering =>
    have hregistry := Cache.registry_covering x.before pointer (pointer + length) domain
    rw [hcovering] at hregistry
    refine .of_unasked (by simp) (by simp [hx]) ?_ (by simp)
    intro y hy
    rw [List.mem_singleton.mp hy]
    exact hregistry
  | ask x hfits hmissed hx =>
    refine .of_unasked (by simp) (by simp [hx.1]) ?_ (by simp)
    intro y hy
    rw [List.mem_singleton.mp hy, hx.2]
  -- Up to the tracking, only registrations were made.
  | register x y regs span base limit cacheable hmissed haims hfew =>
    refine hmissed.contract (by split at hfew <;> omega) ?_
    intro start stop base' limit' cacheable' hcall
    cases hcall
    exact haims
  | uncached x y regs span lease hmissed hfew hlease =>
    refine hmissed.contract hfew ?_
    intro start stop base limit cacheable hcall
    cases hcall
  | track x y regs span base limit lease hmissed hfew haims hlease =>
    refine hmissed.contract hfew ?_
    intro start stop base' limit' cacheable hcall
    cases hcall
  -- From the tracking on, the new entry is the tracked registration.
  | superseded x y regs span base limit lease replaced z hmissed hfew haims hlease hz htrack =>
    exact hmissed.contract_tracked hfew haims hlease hz htrack (Nat.zero_le _) (by simp) rfl
  | cached x y regs span base limit lease z w hmissed hfew haims hlease hz htrack hw hdrop =>
    refine hmissed.contract_tracked hfew haims hlease hz htrack (Nat.le_refl _) ?_ rfl
    intro v hv
    rw [List.mem_singleton.mp hv]
    exact ⟨hw, hdrop⟩
  | failed x y regs span error hmissed hfew =>
    refine hmissed.contract hfew ?_
    intro start stop base limit cacheable hcall
    cases hcall

end

/-- A call that has not returned goes on, whatever its question is answered. -/
theorem OperandCall.goes_on (lib : Libfabric) (domain : Domain) (c : Cache) (call : OperandCall) :
    (∃ operand, call = .done operand) ∨ (∃ error, call = .failed error) ∨
      (call.step lib domain c .none).isSome = true ∨
      (∀ span, (call.step lib domain c (.span span)).isSome = true) ∨
      ∀ code, (call.step lib domain c (.mrReg code)).isSome = true := by
  cases call with
  | lookup start stop =>
    refine .inr (.inr (.inl ?_))
    simp only [OperandCall.step]
    split <;> rfl
  | ask start stop =>
    refine .inr (.inr (.inr (.inl fun span => ?_)))
    simp only [OperandCall.step]
    split <;> rfl
  | register start stop base limit cacheable =>
    refine .inr (.inr (.inr (.inr fun code => ?_)))
    simp only [OperandCall.step]
    split <;> rfl
  -- Tracking and dropping need no answer of libfabric.
  | track base limit lease => exact .inr (.inr (.inl rfl))
  | superseded replaced lease => exact .inr (.inr (.inl rfl))
  | done operand => exact .inl ⟨operand, rfl⟩
  | failed error => exact .inr (.inl ⟨error, rfl⟩)

/-! ### Every call of every run -/

/-- What is seen of a call: where it begins, and each section. -/
inductive Mark where
  | began (domain : Domain) (pointer length : Nat)
  | ran (x : Section)

/-- What is seen of a step, by thread. -/
def marks (s : Shared) (e : Event) (s' : Shared) : List (Nat × Mark) :=
  match e with
  | .operand thread domain pointer length => [(thread, .began domain pointer length)]
  | .step thread answer => [(thread, .ran ⟨s.cache, answer, s'.cache⟩)]
  | _ => []

/-- A call of `operand`: what it began with, and its sections since. -/
structure Ledger where
  domain : Domain
  pointer : Nat
  length : Nat
  sections : List Section

/-- What one more mark says of the latest call of a thread. -/
def note (thread : Nat) (ledger : Option Ledger) (mark : Nat × Mark) : Option Ledger :=
  if mark.1 = thread then
    match mark.2 with
    | .began domain pointer length => some ⟨domain, pointer, length, []⟩
    | .ran x => ledger.map fun ledger => { ledger with sections := ledger.sections ++ [x] }
  else ledger

/-- The latest call of a thread. -/
def latest (thread : Nat) (seen : List (Nat × Mark)) : Option Ledger :=
  seen.foldl (note thread) none

/-- The last call of a thread goes on with what is new. -/
theorem latest_append (thread : Nat) (seen new : List (Nat × Mark)) :
    latest thread (seen ++ new) = new.foldl (note thread) (latest thread seen) :=
  List.foldl_append

/-- The sections of a thread's call are a trail, over caches of the run. -/
structure Follows (lib : Libfabric) (s : Shared) (call : OperandCall) (ledger : Ledger) :
    Prop where
  trail : OperandTrail lib ledger.domain ledger.pointer ledger.length ledger.sections call
  named : ∀ x ∈ ledger.sections, x.before.Named
  kept : ∀ x ∈ ledger.sections, ∀ (i : Nat) (reg : Registration),
    x.after.handles.cells[i]? = some reg → s.cache.handles.cells[i]? = some reg

/-- Every call of `operand` under way follows its ledger, on endpoints that need local
registration. -/
def AllFollow (lib : Libfabric) (requiresLocalMr : Domain → Bool)
    (s : Shared × List (Nat × Mark)) : Prop :=
  ∀ thread domain call, s.1.calls thread = .operand domain call → requiresLocalMr domain = true →
    ∃ ledger, latest thread s.2 = some ledger ∧ ledger.domain = domain ∧
      Follows lib s.1 call ledger

section
variable {lib : Libfabric} {requiresLocalMr : Domain → Bool} {s s' : Shared}

/-- A registration keeps its range. -/
theorem cells_step {e : Event} (h : s.step lib requiresLocalMr e = some s') {i : Nat}
    {reg : Registration} (hcell : s.cache.handles.cells[i]? = some reg) :
    s'.cache.handles.cells[i]? = some reg := by
  rcases Shared.step_cases h with hshrink | ⟨thread, call, new, rfl, -⟩ |
    ⟨thread, answer, call, new, r, -, -, -, rfl⟩
  · rw [hshrink.cells]
    exact hcell
  · exact Cache.cells_register _ _ _ hcell
  · exact hcell

/-- A call that stands still follows its ledger. -/
theorem Follows.later {e : Event} (hstep : s.step lib requiresLocalMr e = some s')
    {call : OperandCall} {ledger : Ledger} (h : Follows lib s call ledger) :
    Follows lib s' call ledger :=
  ⟨h.trail, h.named, fun x hx i reg hcell => cells_step hstep (h.kept x hx i reg hcell)⟩

/-- A call that an event of another thread leaves where it is. -/
theorem AllFollow.still {s : Shared × List (Nat × Mark)} (h : AllFollow lib requiresLocalMr s)
    {e : Event} (hstep : s.1.step lib requiresLocalMr e = some s') {seen : List (Nat × Mark)}
    {thread : Nat} {domain : Domain} {call : OperandCall}
    (hcall : s.1.calls thread = .operand domain call) (hrequires : requiresLocalMr domain = true)
    (hseen : latest thread seen = latest thread s.2) :
    ∃ ledger, latest thread seen = some ledger ∧ ledger.domain = domain ∧
      Follows lib s' call ledger := by
  obtain ⟨ledger, hledger, hdomain, hfollows⟩ := h thread domain call hcall hrequires
  exact ⟨ledger, hseen.trans hledger, hdomain, hfollows.later hstep⟩

/-- A mark of another thread says nothing. -/
theorem latest_other {thread thread' : Nat} (hne : thread' ≠ thread) (seen : List (Nat × Mark))
    (mark : Mark) : latest thread (seen ++ [(thread', mark)]) = latest thread seen := by
  rw [latest_append]
  exact if_neg hne

/-- A call that begins follows an empty ledger. -/
theorem AllFollow.begin {s : Shared × List (Nat × Mark)} (h : AllFollow lib requiresLocalMr s)
    {starter : Nat} {domain : Domain} {pointer length : Nat}
    (hstep : s.1.step lib requiresLocalMr (.operand starter domain pointer length) = some s') :
    AllFollow lib requiresLocalMr
      (s', s.2 ++ marks s.1 (.operand starter domain pointer length) s') := by
  intro thread domain' call hcall hrequires
  have hcalls : s'.calls = Function.update s.1.calls starter (.operand domain
      (if requiresLocalMr domain then .begin pointer length else .done .null)) := by
    simp only [Shared.step] at hstep
    split at hstep
    · cases hstep
      rfl
    · cases hstep
  by_cases hthread : thread = starter
  · -- The thread that starts opens a new ledger.
    subst hthread
    change s'.calls thread = _ at hcall
    rw [hcalls, Function.update_self] at hcall
    cases hcall
    rw [if_pos hrequires]
    refine ⟨⟨domain, pointer, length, []⟩, ?_, rfl, .start, ?_, ?_⟩
    · show latest thread (s.2 ++ [_]) = _
      rw [latest_append]
      exact if_pos rfl
    · intro x hx
      cases hx
    · intro x hx
      cases hx
  · -- The other threads' ledgers and calls are as they were.
    change s'.calls thread = _ at hcall
    rw [hcalls, Function.update_of_ne hthread] at hcall
    exact h.still hstep hcall hrequires (latest_other (Ne.symm hthread) ..)

/-- A section goes into the ledger of its call. -/
theorem AllFollow.ran {s : Shared × List (Nat × Mark)} (h : AllFollow lib requiresLocalMr s)
    (hnamed : s.1.Named) {runner : Nat} {answer : RegionAnswer}
    (hstep : s.1.step lib requiresLocalMr (.step runner answer) = some s') :
    AllFollow lib requiresLocalMr (s', s.2 ++ marks s.1 (.step runner answer) s') := by
  intro thread domain call hcall hrequires
  obtain ⟨⟨c, next⟩, hnext, hs'⟩ := Option.map_eq_some_iff.mp hstep
  change s'.calls thread = _ at hcall
  have hcalls : s'.calls = Function.update s.1.calls runner next := by
    rw [← hs']
    rfl
  have hcache : s'.cache = c := by rw [← hs']
  by_cases hthread : thread = runner
  · -- The running thread's call takes one section, and its ledger has it at the end.
    subst hthread
    rw [hcalls, Function.update_self] at hcall
    subst hcall
    -- Only a call for an operand is kept in a ledger.
    cases hbefore : s.1.calls thread with
    | idle =>
      rw [hbefore] at hnext
      cases hnext
    | pin region call₀ =>
      rw [hbefore] at hnext
      obtain ⟨after, -, hafter⟩ := Option.map_eq_some_iff.mp hnext
      cases hafter
    | operand domain₀ call₀ =>
      rw [hbefore] at hnext
      obtain ⟨after, hsection, hafter⟩ := Option.map_eq_some_iff.mp hnext
      cases hafter
      obtain ⟨ledger, hledger, rfl, hfollows⟩ := h thread _ call₀ hbefore hrequires
      refine ⟨{ ledger with sections := ledger.sections ++ [⟨s.1.cache, answer, s'.cache⟩] },
        ?_, rfl, ?_, ?_, ?_⟩
      · show latest thread (s.2 ++ [_]) = _
        rw [latest_append, hledger]
        exact if_pos rfl
      · refine hfollows.trail.step (x := ⟨s.1.cache, answer, s'.cache⟩) ?_
        rw [hcache]
        exact hsection
      · -- Each section saw entries that name their registrations, the new one too.
        intro x hx
        rcases List.mem_append.mp hx with hold | hnew
        · exact hfollows.named x hold
        · rw [List.mem_singleton.mp hnew]
          exact hnamed.entry
      · -- Registrations stay in their cells.
        intro x hx i reg hcell
        rcases List.mem_append.mp hx with hold | hnew
        · exact (hfollows.later hstep).kept x hold i reg hcell
        · rw [List.mem_singleton.mp hnew] at hcell
          exact hcell
  · -- The others take no section.
    rw [hcalls, Function.update_of_ne hthread] at hcall
    exact h.still hstep hcall hrequires (latest_other (Ne.symm hthread) ..)

/-- Every step keeps the calls on their ledgers. -/
theorem AllFollow.step {s : Shared × List (Nat × Mark)} {e : Event}
    (h : AllFollow lib requiresLocalMr s) (hnamed : s.1.Named)
    (hstep : s.1.step lib requiresLocalMr e = some s') :
    AllFollow lib requiresLocalMr (s', s.2 ++ marks s.1 e s') := by
  -- No other event takes a call of `operand` anywhere.
  have hothers : marks s.1 e s' = [] →
      (∀ thread domain call, s'.calls thread = .operand domain call →
        s.1.calls thread = .operand domain call) →
      AllFollow lib requiresLocalMr (s', s.2 ++ marks s.1 e s') := by
    intro hnone hcalls thread domain call hcall hrequires
    rw [hnone, List.append_nil]
    exact h.still hstep (hcalls thread domain call hcall) hrequires rfl
  cases e with
  | operand starter domain pointer length => exact h.begin hstep
  | step runner answer => exact h.ran hnamed hstep
  | register starter domain base length =>
    refine hothers rfl fun thread domain' call hcall => ?_
    simp only [Shared.step] at hstep
    split at hstep
    · cases hstep
      by_cases hthread : thread = starter
      · subst hthread
        change Function.update s.1.calls thread _ thread = _ at hcall
        rw [Function.update_self] at hcall
        cases hcall
      · change Function.update s.1.calls starter _ thread = _ at hcall
        rwa [Function.update_of_ne hthread] at hcall
    · cases hstep
      exact hcall
    · cases hstep
  | ret returner =>
    refine hothers rfl fun thread domain call hcall => ?_
    obtain ⟨-, -, -, hcalls, -⟩ := Shared.ret_cases hstep
    rw [hcalls] at hcall
    by_cases hthread : thread = returner
    · subst hthread
      rw [Function.update_self] at hcall
      cases hcall
    · rwa [Function.update_of_ne hthread] at hcall
  | cloneRegion i =>
    refine hothers rfl fun thread domain call hcall => ?_
    simp only [Shared.step] at hstep
    split at hstep <;> cases hstep
    exact hcall
  | dropRegion i =>
    refine hothers rfl fun thread domain call hcall => ?_
    obtain ⟨region, -, ⟨-, rfl⟩ | ⟨-, rfl⟩⟩ := Shared.dropRegion_cases hstep
    · exact hcall
    · exact hcall
  | invalidate start stop =>
    cases hstep
    exact hothers rfl fun _ _ _ hcall => hcall
  | dropRetired lease =>
    refine hothers rfl fun thread domain call hcall => ?_
    simp only [Shared.step] at hstep
    split at hstep <;> cases hstep
    exact hcall
  | dropLease lease =>
    refine hothers rfl fun thread domain call hcall => ?_
    simp only [Shared.step] at hstep
    split at hstep <;> cases hstep
    exact hcall
  | closeDomain domain =>
    cases hstep
    exact hothers rfl fun _ _ _ hcall => hcall

/-- In every run, each call of `operand` follows its ledger. -/
theorem follows_reach {s : Shared × List (Nat × Mark)}
    (h : ((sharing lib requiresLocalMr).observing marks).Reachable s) :
    AllFollow lib requiresLocalMr s := by
  refine h.invariant_observed (I := AllFollow lib requiresLocalMr)
    (fun s hs => Shared.named_reach hs) ?_ ?_
  · intro s hinit thread domain call hcall
    rw [show s = _ from hinit] at hcall
    cases hcall
  · intro s seen e s' hnamed hmove hfollow
    exact hfollow.step hnamed hmove

/-- The range of the registration that a call returns has the whole operand. -/
theorem Follows.range {ledger : Ledger} {operand : LocalOperand}
    (h : Follows lib s (.done operand) ledger) :
    ∃ lease base limit, operand = .ofLease lease ∧
      s.cache.handles.cells[lease]? = some ⟨ledger.domain, base, limit⟩ ∧
      base ≤ ledger.pointer ∧ ledger.pointer + ledger.length ≤ limit := by
  have hmade : ∀ {base limit lease : Nat} {regs : List Section},
      RegisteredIn ledger.domain base limit lease regs → regs ⊆ ledger.sections →
        s.cache.handles.cells[lease]? = some ⟨ledger.domain, base, limit⟩ := by
    rintro base limit lease regs ⟨z, hz, hafter, rfl⟩ hsubset
    refine h.kept z (hsubset hz) _ _ ?_
    rw [hafter]
    exact Handles.getElem?_cells_new ..
  generalize hsections : ledger.sections = l at hmade
  have hstands := h.trail.stands
  rw [hsections] at hstands
  cases hstands with
  | hit x lease hx hcovering =>
    -- The tracked extent covers the operand, and it is its registration's.
    have hmem : x ∈ ledger.sections := by
      rw [hsections]
      exact List.mem_singleton_self x
    have hfound := x.before.covering_snd ledger.pointer (ledger.pointer + ledger.length)
      ledger.domain
    have hcells := x.before.cells_covering ledger.pointer (ledger.pointer + ledger.length)
      ledger.domain
    rw [hcovering] at hfound hcells
    obtain ⟨base, e, ⟨hentry, hbase, hlimit⟩, rfl⟩ := Registry.covers_of_covering hfound.symm
    have hcell := h.named x hmem ledger.domain base e hentry
    rw [← hcells] at hcell
    exact ⟨e.registration, base, e.limit, rfl, h.kept x hmem _ _ hcell, hbase, hlimit⟩
  | uncached x y regs span lease hmissed hfew hlease =>
    have hcell := hmade hlease fun v hv => List.mem_cons_of_mem x (List.mem_cons_of_mem y hv)
    exact ⟨lease, _, _, rfl, hcell, Nat.le_refl _, Nat.le_refl _⟩
  | cached x y regs span base limit lease z w hmissed hfew haims hlease hz htrack hw hdrop =>
    have hcell := hmade hlease fun v hv => List.mem_cons_of_mem x
      (List.mem_cons_of_mem y (List.mem_append_left _ hv))
    exact ⟨lease, base, limit, rfl, hcell, haims.holds.1, haims.holds.2⟩

end

/-- The contract of operand registration. Whatever registry each section of a call finds, whatever
the caller answers and `fi_mr_reg` returns: the call goes on until it returns, within six sections.
It asks for a span at most once and after a miss, an error leaves the registry alone, and what is
added is one entry, inside a span that the caller promised and that has the operand, under the
registration that the call returns. In every run of the process the sections of each call are such
a trail, and what it returns is an open registration of a range that has the whole operand. -/
theorem operand_contract (lib : Libfabric) (requiresLocalMr : Domain → Bool) :
    (∀ domain c (call : OperandCall), (∃ operand, call = .done operand) ∨
      (∃ error, call = .failed error) ∨ (call.step lib domain c .none).isSome = true ∨
      (∀ span, (call.step lib domain c (.span span)).isSome = true) ∨
      ∀ code, (call.step lib domain c (.mrReg code)).isSome = true) ∧
    (∀ domain pointer length l call, OperandTrail lib domain pointer length l call →
      OperandContract domain pointer length l call) ∧
    ∀ s, ((sharing lib requiresLocalMr).observing marks).Reachable s → ∀ thread domain call,
      s.1.calls thread = .operand domain call → requiresLocalMr domain = true →
        ∃ ledger, latest thread s.2 = some ledger ∧ ledger.domain = domain ∧
          OperandTrail lib domain ledger.pointer ledger.length ledger.sections call ∧
          ∀ operand, call = .done operand → ∃ lease base limit, operand = .ofLease lease ∧
            s.1.cache.Open lease ∧
            s.1.cache.handles.cells[lease]? = some ⟨domain, base, limit⟩ ∧
            base ≤ ledger.pointer ∧ ledger.pointer + ledger.length ≤ limit := by
  refine ⟨OperandCall.goes_on lib, fun domain pointer length l call => OperandTrail.contract, ?_⟩
  intro s hs thread domain call hcall hrequires
  obtain ⟨ledger, hledger, rfl, hfollows⟩ := follows_reach hs thread domain call hcall hrequires
  refine ⟨ledger, hledger, rfl, hfollows.trail, ?_⟩
  -- A finished call holds the lease its operand is read through.
  rintro operand rfl
  obtain ⟨lease, base, limit, rfl, hcell, hrange⟩ := hfollows.range
  obtain ⟨n, hleased⟩ := Shared.leased_reach hs.reachable_fst
  refine ⟨lease, base, limit, rfl, hleased.open_of_held thread ?_, hcell, hrange⟩
  rw [hcall]
  show 0 < leaseCount (some lease) lease
  rw [leaseCount_some, if_pos rfl]
  exact Nat.one_pos

end Vdma.Fabric
