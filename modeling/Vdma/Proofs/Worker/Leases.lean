import Vdma.Proofs.SharedLeases
import Vdma.Proofs.Worker.Completion

/-!
# `Vdma.Proofs.Worker.Leases`: leases outlive the operations that need them

A registration is leased by the registry, by boxes, by a call that is under way, and by
other threads. `State.leases` counts all but the first, and `Leased` is the population
law of the cache for this count. A box takes its lease when its op is posted, gives it
up when the quiesce read brings another, and drops it when it becomes a completion.
`LeaseMove` is what a move can do to the leases, and the law looks at nothing else of it.

`lease_outlives_op` reads off the law that what libfabric was given stays registered.
A completion's op has no box any more (`Owned`), so its lease is gone before the
completion is handed over.
-/

set_option autoImplicit false

namespace Vdma.Fabric

open Vdma.Lib

variable {T : Type}

/-! ### Other threads -/

/-- A section of another thread moves leases between the cache and that thread. -/
theorem ThreadStep.held_run {own : Domain} {c c' : Cache} {threads threads' : List Nat}
    {step : ThreadStep} {rest : Nat → Nat} (h : c.Held fun r => rest r + threads.count r)
    (hrun : step.run own c threads = some (c', threads')) :
    c'.Held fun r => rest r + threads'.count r := by
  cases step with
  | register domain base limit =>
    simp only [ThreadStep.run] at hrun
    split at hrun <;> cases hrun
    -- The new registration has one lease, and the thread holds it.
    refine (h.register domain base limit).congr fun r => ?_
    rw [List.count_cons]
    simp only [beq_iff_eq, eq_comm (a := c.handles.next)]
    omega
  | track base limit domain lease =>
    simp only [ThreadStep.run] at hrun
    split at hrun <;> cases hrun
    next hguard =>
    -- The thread hands its lease to the registry, and gets back the one it replaces.
    have hmem : lease ∈ threads := by tauto
    have hpos : 0 < threads.count lease := List.count_pos_iff.mpr hmem
    refine (h.track (r := lease) (by omega) base limit domain).congr fun r => ?_
    rw [List.count_append]
    cases (c.track base limit domain lease).2 with
    | none => simp
    | some replaced =>
      simp only [Option.some.injEq, Option.toList_some, List.count_singleton, beq_iff_eq]
      omega
  | covering start stop domain =>
    simp only [ThreadStep.run] at hrun
    split at hrun <;> cases hrun
    -- A hit clones the registry's lease for the thread.
    refine (h.covering start stop domain).congr fun r => ?_
    rw [List.count_append]
    cases (c.covering start stop domain).2 with
    | none => simp
    | some lease =>
      simp only [Option.some.injEq, Option.toList_some, List.count_singleton, beq_iff_eq]
      omega
  | invalidate start stop =>
    cases hrun
    -- The leases that are retired are the thread's to drop.
    refine (h.invalidate start stop).congr fun r => ?_
    rw [List.count_append]
    omega
  | clearDomain domain =>
    simp only [ThreadStep.run] at hrun
    split at hrun <;> cases hrun
    refine (h.clearDomain domain).congr fun r => ?_
    rw [List.count_append]
    omega
  | drop lease =>
    simp only [ThreadStep.run] at hrun
    split at hrun <;> cases hrun
    -- One lease less, and it is the thread's.
    next hmem =>
    refine h.drop_one fun r => ?_
    have hpos : 0 < threads.count lease := List.count_pos_iff.mpr hmem
    rw [List.count_erase, leaseCount_some]
    by_cases hr : r = lease
    · subst hr
      simp only [beq_self_eq_true, if_true]
      omega
    · simp [hr, Ne.symm hr]

/-! ### What a move does to the leases -/

/-- The call that the worker is in, on its own domain. -/
def Phase.registration (own : Domain) : Phase T → Call
  | .pinning _ base limit call => .pin ⟨own, base, limit⟩ call
  | .operand _ _ call => .operand own call
  | .quiesceOperand _ _ call => .operand own call
  | _ => .idle

/-- The phases past the first section of `LibfabricEndpoint::drop`. -/
def Phase.tearsDown : Phase T → Bool
  | .dropping _ => true
  | .closing => true
  | .leaving => true
  | .exited => true
  | _ => false

/-- The lease of a box on `r`. -/
def InFlight.leaseOn (r : Nat) (op : InFlight T) : Nat := leaseCount op.localLease r

namespace State

/-- The leases on `r` of the worker and the pool. -/
def ownLeases (s : State T) (r : Nat) : Nat :=
  s.phase.held r + s.live (InFlight.leaseOn r) + s.hashing (InFlight.leaseOn r)

/-- The leases on `r`, but for those of the registry. -/
def leases (s : State T) (r : Nat) : Nat :=
  s.threads.count r + s.phase.held r + s.live (InFlight.leaseOn r) + s.hashing (InFlight.leaseOn r)

/-- The leases of the threads and the service's own are all there are. -/
theorem leases_eq (s : State T) (r : Nat) : s.leases r = s.threads.count r + s.ownLeases r := by
  unfold leases ownLeases
  omega

end State

/-- A call with no section left to run. -/
def Call.Inert (call : Call) : Prop := ∀ lib c answer, call.step lib c answer = none

/-- A call that has its operand opens no registration any more. -/
theorem Call.inert_done (domain : Domain) (operand : LocalOperand) :
    (Call.operand domain (.done operand)).Inert := by
  intro lib c answer
  cases answer <;> rfl

/-- A phase after `s` in which no call is under way, or one has just begun. -/
structure Begins (setup : Setup) (s : State T) (phase : Phase T) : Prop where
  untracked : (phase.registration setup.device.domain).untracked = none
  needless : setup.device.requiresLocalMr = false →
    (phase.registration setup.device.domain).Inert
  tearsDown : phase.tearsDown = true → s.phase.tearsDown = true

/-- How a move changes the leases: none moves, the worker or the pool drops one, a section of
a call or of another thread runs, or the endpoint clears its domain and drops what that
brought. -/
inductive LeaseMove (setup : Setup) (s s' : State T) : Prop
  | keep (hcache : s'.cache = s.cache) (hthreads : s'.threads = s.threads)
      (hphase : s'.phase = s.phase ∨ Begins setup s s'.phase)
      (hown : ∀ r, s'.ownLeases r = s.ownLeases r)
  | drop (lease : Option Nat) (hcache : s'.cache = s.cache.dropLease lease)
      (hthreads : s'.threads = s.threads)
      (hphase : s'.phase = s.phase ∨ Begins setup s s'.phase)
      (hown : ∀ r, s.ownLeases r = s'.ownLeases r + leaseCount lease r)
  | call (answer : RegionAnswer) (rest : Nat → Nat)
      (hstep :
        (s.phase.registration setup.device.domain).step setup.lib s.cache answer
          = some (s'.cache, s'.phase.registration setup.device.domain))
      (hthreads : s'.threads = s.threads) (hend : s'.phase.tearsDown = false)
      (hown : ∀ r,
        s.ownLeases r = rest r + (s.phase.registration setup.device.domain).held r)
      (hown' : ∀ r,
        s'.ownLeases r = rest r + (s'.phase.registration setup.device.domain).held r)
  | thread (step : ThreadStep)
      (hstep : step.run setup.device.domain s.cache s.threads = some (s'.cache, s'.threads))
      (hphase : s'.phase = s.phase) (hown : ∀ r, s'.ownLeases r = s.ownLeases r)
  | clear (hcache : s'.cache = (s.cache.clearDomain setup.device.domain).1)
      (hthreads : s'.threads = s.threads)
      (hcall : s'.phase.registration setup.device.domain = .idle)
      (hown : ∀ r,
        s'.ownLeases r = s.ownLeases r + (s.cache.clearDomain setup.device.domain).2.count r)
  | dropAll (cleared : List Nat) (hphase : s.phase = .dropping cleared)
      (hcache : s'.cache = s.cache.dropLeases cleared) (hthreads : s'.threads = s.threads)
      (hcall : s'.phase.registration setup.device.domain = .idle)
      (hown : ∀ r, s.ownLeases r = s'.ownLeases r + cleared.count r)

namespace LeaseMove

variable {setup : Setup} {s s' : State T}

/-- A phase without a call begins nothing, where a teardown goes on at most. -/
theorem begins_of_idle {phase : Phase T} (hcall : phase.registration setup.device.domain = .idle)
    (hend : phase.tearsDown = true → s.phase.tearsDown = true) : Begins setup s phase := by
  refine ⟨?_, ?_, hend⟩
  · rw [hcall]
    rfl
  · intro _ lib c answer
    rw [hcall]
    rfl

/-- A phase with no call that is not part of the teardown. -/
theorem begins_of_working {phase : Phase T}
    (hcall : phase.registration setup.device.domain = .idle) (hend : phase.tearsDown = false) :
    Begins setup s phase := by
  apply begins_of_idle hcall
  intro h
  rw [hend] at h
  cases h

/-- A change of phase between phases that hold the same. -/
theorem of_phase (hcache : s'.cache = s.cache) (hthreads : s'.threads = s.threads)
    (hphase : Begins setup s s'.phase) (hheld : ∀ r, s'.phase.held r = s.phase.held r)
    (hinHand : s'.phase.inHand = s.phase.inHand) (hqueues : s'.queues = s.queues)
    (hpool : s'.pool = s.pool) : LeaseMove setup s s' := by
  refine keep hcache hthreads (.inr hphase) ?_
  intro r
  simp only [State.ownLeases, State.live, State.hashing, hheld, hinHand, hqueues, hpool]

/-- A section of the call that the worker is in. -/
theorem of_section (answer : RegionAnswer)
    (hstep :
      (s.phase.registration setup.device.domain).step setup.lib s.cache answer
        = some (s'.cache, s'.phase.registration setup.device.domain))
    (hthreads : s'.threads = s.threads) (hqueues : s'.queues = s.queues) (hpool : s'.pool = s.pool)
    (hinHand : s'.phase.inHand = s.phase.inHand)
    (hheld : ∀ r, s.phase.held r = (s.phase.registration setup.device.domain).held r)
    (hheld' : ∀ r, s'.phase.held r = (s'.phase.registration setup.device.domain).held r)
    (hend : s'.phase.tearsDown = false) : LeaseMove setup s s' := by
  refine call answer (fun r => s.live (InFlight.leaseOn r) + s.hashing (InFlight.leaseOn r)) hstep
    hthreads ?_ ?_ ?_
  · exact hend
  · intro r
    rw [State.ownLeases, hheld]
    omega
  · intro r
    simp only [State.ownLeases, State.live, State.hashing, hheld', hinHand, hqueues, hpool]
    omega

/-- Taking a message. -/
theorem of_takes (htakes : Takes s) (hcache : s'.cache = s.cache)
    (hthreads : s'.threads = s.threads)
    (hphase : Begins setup s s'.phase) (hheld : ∀ r, s'.phase.held r = 0)
    (hinHand : s'.phase.inHand = []) (hqueues : s'.queues = s.queues) (hpool : s'.pool = s.pool) :
    LeaseMove setup s s' := by
  have hrests := htakes.rests
  refine of_phase hcache hthreads hphase ?_ (hinHand.trans hrests.inHand.symm) hqueues hpool
  intro r
  rw [hheld, hrests.held]

/-- A call that begins holds nothing. -/
theorem held_operandCall (setup : Setup) (pointer length r : Nat) :
    (State.operandCall setup pointer length).held r = 0 := by
  unfold State.operandCall OperandCall.begin
  split
  · split <;> rfl
  · rfl

/-- A pin that begins holds nothing. -/
theorem held_pinBegin (base length r : Nat) : (PinCall.begin base length).held r = 0 := by
  unfold PinCall.begin
  split <;> rfl

/-- A post begins a call where the provider needs one. -/
theorem begins_operandCall {phase : Phase T} {pointer length : Nat}
    (hcall : phase.registration setup.device.domain
      = .operand setup.device.domain (State.operandCall setup pointer length))
    (hend : phase.tearsDown = false) : Begins setup s phase := by
  refine ⟨?_, ?_, ?_⟩
  · rw [hcall]
    unfold State.operandCall OperandCall.begin
    split
    · split <;> rfl
    · rfl
  · intro hlocal
    rw [hcall, State.operandCall, hlocal]
    exact Call.inert_done _ _
  · intro htrue
    rw [hend] at htrue
    cases htrue

/-- A pin begins where the provider needs one. -/
theorem begins_pin {phase : Phase T} {base limit length : Nat}
    (hcall : phase.registration setup.device.domain
      = .pin ⟨setup.device.domain, base, limit⟩ (.begin base length))
    (hlocal : setup.device.requiresLocalMr = true) (hend : phase.tearsDown = false) :
    Begins setup s phase := by
  refine ⟨?_, ?_, ?_⟩
  · rw [hcall]
    unfold PinCall.begin
    split <;> rfl
  · intro hneedless
    rw [hlocal] at hneedless
    cases hneedless
  · intro htrue
    rw [hend] at htrue
    cases htrue

/-- A turn of the loop begins no call. -/
theorem begins_turn {phase : Phase T} {pass : Pass} (hturn : Turn setup s phase pass) :
    Begins setup s phase := by
  cases hturn <;> exact begins_of_working rfl rfl

/-! ### What each part does to the leases -/

variable [Operands T] {m : Move T}

/-- The pool drops the lease of a box when it has hashed it. -/
theorem of_others (hmove : MovesIn setup s .others m s') : LeaseMove setup s s' := by
  cases hmove with
  | write | releasePool =>
    exact .keep rfl rfl (.inl rfl) fun _ => rfl
  | thread step c threads hrun => exact .thread step hrun rfl fun _ => rfl
  | hash before after op result batch done hpool =>
    -- The pool drops the lease of the box it hashed.
    refine .drop op.localLease rfl rfl (.inl rfl) ?_
    intro r
    simp only [State.ownLeases, State.live, State.hashing, hpool, List.map_append, List.sum_append,
      List.map_cons, List.sum_cons, InFlight.leaseOn]
    omega
  | finish before after done hpool =>
    refine .keep rfl rfl (.inl rfl) ?_
    intro r
    simp only [State.ownLeases, State.live, State.hashing, hpool, List.map_append, List.sum_append,
      List.map_cons, List.sum_cons, List.map_nil, List.sum_nil]
    omega

/-- A pin runs its sections one by one. -/
theorem of_pinning (hmove : MovesIn setup s .pinning m s') : LeaseMove setup s s' := by
  cases hmove with
  | serve hphase | pinned number base limit result hphase =>
    exact .of_phase rfl rfl (begins_of_working rfl rfl) (fun r => by rw [hphase]; rfl)
      (by rw [hphase]; rfl) rfl rfl
  | pinQuiesce hphase hlocal =>
    refine .of_phase rfl rfl (begins_pin rfl hlocal rfl) ?_ (by rw [hphase]; rfl) rfl rfl
    intro r
    rw [hphase]
    exact held_pinBegin _ _ r
  | pin purpose base limit call call' c region hphase hstep =>
    refine .of_section region ?_ rfl rfl rfl (by rw [hphase]; rfl) (fun r => by rw [hphase]; rfl)
      (fun _ => rfl) rfl
    rw [hphase]
    show (call.step setup.lib setup.device.domain base limit s.cache region).map _ = _
    rw [hstep]
    rfl
  | pinnedQuiesce base limit result phase hphase hnext =>
    rcases hnext with rfl | rfl
    all_goals
      exact .of_phase rfl rfl (begins_of_working rfl rfl) (fun r => by rw [hphase]; rfl)
        (by rw [hphase]; rfl) rfl rfl

/-- A transfer that is taken has no lease yet. -/
theorem of_intake (ho : Owned s) (hmove : MovesIn setup s .intake m s') : LeaseMove setup s s' := by
  cases hmove with
  | accept number request channel op prepared htakes hchannel hprepare =>
    obtain ⟨-, -, hlease, hcontext, -, -⟩ := prepare_ok hprepare
    -- The number is fresh, and the new box holds no lease yet.
    have hnone := ho.lookup_of_channel hchannel
    rw [← hcontext] at hnone
    have hrests := htakes.rests
    have hintake : (Phase.intake : Phase T).Rests := Phase.rests_intake
    refine .keep rfl rfl (.inr (begins_of_working rfl rfl)) ?_
    intro r
    simp only [State.ownLeases, State.live, State.hashing, State.popped, hrests.held, hintake.held,
      hrests.inHand, hintake.inHand, Assoc.weight_insert_of_none hnone, InFlight.leaseOn, hlease,
      leaseCount_none]
    omega
  | refuse number request channel completion htakes hchannel hprepare =>
    have hrests := htakes.rests
    have hintake : (Phase.intake : Phase T).Rests := Phase.rests_intake
    refine .keep rfl rfl (.inr (begins_of_working rfl rfl)) ?_
    intro r
    simp only [State.ownLeases, State.live, State.hashing, State.popped, hrests.held, hintake.held,
      -- A refused request never had a box.
      hrests.inHand, hintake.inHand]
  | addPeer number client address inserted entry channel books htakes hchannel hinsert
  | addPeerFails number client address inserted error channel books htakes hchannel hinsert
  | removePeer number client channel htakes hchannel
  | nothingToPin number base length channel htakes hchannel =>
    exact .of_takes htakes rfl rfl (begins_of_working rfl rfl) (fun _ => rfl) rfl rfl rfl
  | pinMessage number base length channel htakes hchannel hlocal =>
    exact .of_takes htakes rfl rfl (begins_pin rfl hlocal rfl)
      (held_pinBegin base length) rfl rfl rfl

/-- The operand of a post gives its lease to the box, or drops it. -/
theorem of_posting (hmove : MovesIn setup s .posting m s') : LeaseMove setup s s' := by
  cases hmove with
  | operandFails prepared entry error hphase =>
    exact .of_phase rfl rfl (begins_of_working rfl rfl) (fun r => by rw [hphase]; rfl)
      (by rw [hphase]; rfl) rfl rfl
  | attempt prepared pending inserted entry books hphase hpending hinsert =>
    refine .keep rfl rfl (.inr (begins_operandCall rfl rfl)) ?_
    intro r
    simp only [State.ownLeases, State.live, State.hashing, hphase, Phase.held, Phase.inHand,
      held_operandCall]
  | attemptFails prepared pending inserted error books hphase hpending hinsert =>
    refine .keep rfl rfl (.inr (begins_of_working rfl rfl)) ?_
    intro r
    simp only [State.ownLeases, State.live, State.hashing, hphase, Phase.held, Phase.inHand]
  | operand prepared entry call call' c region hphase hstep =>
    refine .of_section region ?_ rfl rfl rfl (by rw [hphase]; rfl) (fun r => by rw [hphase]; rfl)
      (fun _ => rfl) rfl
    rw [hphase]
    show (call.step setup.lib setup.device.domain s.cache region).map _ = _
    rw [hstep]
    rfl
  | posted prepared entry operand now op hphase hclock hraw =>
    -- The box drops what it leased and takes the operand's lease.
    refine .drop op.localLease rfl rfl (.inr (begins_of_working rfl rfl)) ?_
    intro r
    have hweight := Assoc.weight_insert_of_some hraw (InFlight.leaseOn r)
      (State.posted op prepared operand.lease)
    simp only [State.ownLeases, State.live, State.hashing, hphase, Phase.held, Phase.inHand,
      OperandCall.held]
    simp only [InFlight.leaseOn, State.posted] at hweight ⊢
    omega
  | requeued prepared entry operand since now hphase hclock
  | postFails prepared entry operand now error hphase hclock =>
    refine .drop operand.lease rfl rfl (.inr (begins_of_working rfl rfl)) ?_
    intro r
    simp only [State.ownLeases, State.live, State.hashing, hphase, Phase.held, Phase.inHand,
      OperandCall.held]
    omega
  | failed prepared error op hphase hraw =>
    refine .drop op.localLease rfl rfl (.inr (begins_of_working rfl rfl)) ?_
    intro r
    have hweight := Assoc.weight_of_lookup hraw (InFlight.leaseOn r)
    simp only [State.ownLeases, State.live, State.hashing, hphase, Phase.held, Phase.inHand]
    simp only [InFlight.leaseOn] at hweight ⊢
    omega

/-- An op keeps its lease until it completes. -/
theorem of_reaping (hmove : MovesIn setup s .reaping m s') : LeaseMove setup s s' := by
  cases hmove with
  | reap reaped wire hphase htake =>
    refine .keep rfl rfl (.inr (begins_of_working rfl rfl)) ?_
    intro r
    simp only [State.ownLeases, State.live, State.hashing, hphase, Phase.held, Phase.inHand]
  | toQuiescing context reaped op read hphase hreaped hraw hquiesce =>
    refine .keep rfl rfl (.inl rfl) ?_
    intro r
    -- The box moves from the wire's map to the queue, with its lease.
    have hweight := Assoc.weight_of_lookup hraw (InFlight.leaseOn r)
    simp only [State.ownLeases, State.live, State.hashing, List.map_append, List.sum_append,
      List.map_cons, List.sum_cons, List.map_nil, List.sum_nil]
    simp only [InFlight.leaseOn] at hweight ⊢
    omega
  | toCrc context result reaped op hphase hreaped hraw hquiesce =>
    refine .keep rfl rfl (.inl rfl) ?_
    intro r
    -- The box moves to the pool's batch, with its lease.
    have hweight := Assoc.weight_of_lookup hraw (InFlight.leaseOn r)
    simp only [State.ownLeases, State.live, State.hashing, List.map_append, List.sum_append,
      List.map_cons, List.sum_cons, List.map_nil, List.sum_nil]
    omega
  | toCompletion context result reaped op hphase hreaped hraw hquiesce =>
    refine .drop op.localLease rfl rfl (.inl rfl) ?_
    intro r
    -- The box is taken apart: its lease is dropped, and the rest is delivered.
    have hweight := Assoc.weight_of_lookup hraw (InFlight.leaseOn r)
    simp only [State.ownLeases, State.live, State.hashing]
    simp only [InFlight.leaseOn] at hweight ⊢
    omega

/-- The lease of a quiesce read takes the place of the lease of its write. -/
theorem of_quiescing (ho : Owned s) (hmove : MovesIn setup s .quiescing m s') :
    LeaseMove setup s s' := by
  cases hmove with
  | quiesceOperandFails waiting entry error hphase =>
    exact .of_phase rfl rfl (begins_of_working rfl rfl) (fun r => by rw [hphase]; rfl)
      (by rw [hphase]; rfl) rfl rfl
  | quiesceOperand waiting entry call call' c region hphase hstep =>
    refine .of_section region ?_ rfl rfl rfl (by rw [hphase]; rfl) (fun r => by rw [hphase]; rfl)
      (fun _ => rfl) rfl
    rw [hphase]
    show (call.step setup.lib setup.device.domain s.cache region).map _ = _
    rw [hstep]
    rfl
  | quiesce waiting quiescing inserted entry books hphase hquiescing hinsert =>
    refine .keep rfl rfl (.inr (begins_operandCall rfl rfl)) ?_
    intro r
    simp only [State.ownLeases, State.live, State.hashing, hphase, Phase.held, Phase.inHand,
      hquiescing, held_operandCall, List.map_cons, List.sum_cons, List.map_nil,
      List.sum_nil]
    omega
  | quiesceFails waiting quiescing inserted error books hphase hquiescing hinsert =>
    refine .keep rfl rfl (.inr (begins_of_working rfl rfl)) ?_
    intro r
    simp only [State.ownLeases, State.live, State.hashing, hphase, Phase.held, Phase.inHand,
      hquiescing, List.map_cons, List.sum_cons, List.map_nil, List.sum_nil]
    omega
  | quiesced waiting entry operand now hphase hclock =>
    have hhand : waiting.inflight ∈ s.phase.inHand := by rw [hphase]; exact .head _
    have hnone := ho.lookup_of_inHand hhand
    -- The read's lease takes the place of the write's.
    refine .drop waiting.inflight.localLease rfl rfl (.inr (begins_of_working rfl rfl)) ?_
    intro r
    simp only [State.ownLeases, State.live, State.hashing, hphase, Phase.held, Phase.inHand,
      OperandCall.held, Assoc.weight_insert_of_none hnone, List.map_cons, List.sum_cons,
      List.map_nil, List.sum_nil, InFlight.leaseOn]
    omega
  | requiesce waiting entry operand since now hphase hclock =>
    have hhand : waiting.inflight ∈ s.phase.inHand := by rw [hphase]; exact .head _
    have hnone := ho.lookup_of_inHand hhand
    refine .drop waiting.inflight.localLease rfl rfl (.inr (begins_of_working rfl rfl)) ?_
    intro r
    simp only [State.ownLeases, State.live, State.hashing, hphase, Phase.held, Phase.inHand,
      OperandCall.held, Assoc.erase_insert_of_none hnone, List.map_append, List.sum_append,
      List.map_cons, List.sum_cons, List.map_nil, List.sum_nil, InFlight.leaseOn]
    omega
  | quiescePostFails waiting entry operand now error hphase hclock =>
    have hhand : waiting.inflight ∈ s.phase.inHand := by rw [hphase]; exact .head _
    have hnone := ho.lookup_of_inHand hhand
    refine .drop waiting.inflight.localLease rfl rfl (.inr (begins_of_working rfl rfl)) ?_
    intro r
    simp only [State.ownLeases, State.live, State.hashing, hphase, Phase.held, Phase.inHand,
      OperandCall.held, Assoc.erase_insert_of_none hnone, List.map_cons, List.sum_cons,
      List.map_nil, List.sum_nil, InFlight.leaseOn]
    omega
  | failedQuiesce op error hphase =>
    refine .drop op.localLease rfl rfl (.inr (begins_of_working rfl rfl)) ?_
    intro r
    simp only [State.ownLeases, State.live, State.hashing, hphase, Phase.held, Phase.inHand,
      List.map_cons, List.sum_cons, List.map_nil, List.sum_nil, InFlight.leaseOn]
    omega

/-- The endpoint drops what its registry gives up. -/
theorem of_ending (hs : Settled s) (hmove : MovesIn setup s .ending m s') :
    LeaseMove setup s s' := by
  cases hmove with
  | deliver hphase =>
    refine .keep rfl rfl (.inr (begins_of_working rfl rfl)) ?_
    intro r
    simp only [State.ownLeases, State.live, State.hashing, hphase, Phase.held, Phase.inHand]
  | flush hphase =>
    refine .keep rfl rfl (.inr (begins_of_working rfl rfl)) ?_
    intro r
    simp only [State.ownLeases, State.live, State.hashing, hphase, Phase.held, Phase.inHand,
      List.map_append, List.sum_append, List.map_cons, List.sum_cons, List.map_nil, List.sum_nil]
    omega
  | leftover ops raw hphase hreclaim =>
    obtain ⟨rfl, rfl, -, hcrc⟩ := hs.leftover hphase hreclaim
    refine .keep ?_ rfl (.inr (begins_of_working rfl rfl)) ?_
    · rw [hcrc]
      rfl
    · intro r
      simp only [State.ownLeases, State.live, State.hashing, hphase, Phase.held, Phase.inHand, hcrc]
  | clear hphase =>
    -- What the registry gives up is in hand until it is dropped.
    refine .clear rfl rfl rfl ?_
    intro r
    simp only [State.ownLeases, State.live, State.hashing, hphase, Phase.held, Phase.inHand]
    omega
  | drop cleared hphase =>
    refine .dropAll cleared hphase rfl rfl rfl ?_
    intro r
    simp only [State.ownLeases, State.live, State.hashing, hphase, Phase.held, Phase.inHand]
    omega
  | close hphase | leave hphase hpool =>
    have hend : s.phase.tearsDown = true := by rw [hphase]; rfl
    exact .of_phase rfl rfl (begins_of_idle rfl fun _ => hend)
      (fun r => by rw [hphase]; rfl) (by rw [hphase]; rfl) rfl rfl

end LeaseMove

section
variable [Operands T] {setup : Setup} {s s' : State T} {m : Move T}

/-- What every move does to the leases. -/
theorem Moves.leaseMove (hs : Settled s) (ho : Owned s) (hmove : Moves setup s m s') :
    LeaseMove setup s s' := by
  obtain ⟨part, hmove⟩ := hmove
  -- Only taking over, posting, reaping and quiescing touch a box; the rest moves phases or runs a
  -- section.
  cases part with
  | callers => cases hmove <;> exact .keep rfl rfl (.inl rfl) fun _ => rfl
  | others => exact .of_others hmove
  | turning =>
    cases hmove with
    | turn hturn =>
      obtain ⟨hrests, hrests', -⟩ := hturn.rests
      refine .of_phase rfl rfl (LeaseMove.begins_turn hturn) ?_
        (hrests'.inHand.trans hrests.inHand.symm) rfl rfl
      intro r
      rw [hrests.held]
      exact hrests'.held r
  | pinning => exact .of_pinning hmove
  | intake => exact .of_intake ho hmove
  | posting => exact .of_posting hmove
  | reaping => exact .of_reaping hmove
  | quiescing => exact .of_quiescing ho hmove
  | ending => exact .of_ending hs hmove
  | dangling => exact (hmove.not_dangling hs ho.backed).elim

end

/-! ### The population law -/

/-- The counts of the cache agree with the leases there are. -/
abbrev Leased (s : State T) : Prop := s.cache.Held s.leases

namespace Leased

variable {setup : Setup} {s s' : State T}

/-- At the start nobody has a lease. -/
theorem start (setup : Setup) : Leased (State.start setup : State T) := Cache.Held.empty

/-- The law, with the leases of other threads apart. -/
theorem held (h : Leased s) : s.cache.Held fun r => s.threads.count r + s.ownLeases r :=
  Cache.Held.congr h s.leases_eq

/-- Every move keeps the counts of the cache right. -/
theorem step (h : Leased s) (hmove : LeaseMove setup s s') : Leased s' := by
  have hheld := h.held
  -- It is enough to count the threads' leases and the others apart.
  suffices hsum : s'.cache.Held fun r => s'.threads.count r + s'.ownLeases r from
    hsum.congr fun r => (s'.leases_eq r).symm
  cases hmove with
  | keep hcache hthreads hphase hown =>
    rw [hcache]
    apply hheld.congr
    intro r
    rw [hthreads, hown]
  | drop lease hcache hthreads hphase hown =>
    rw [hcache]
    apply hheld.drop_one
    intro r
    rw [hthreads, hown]
    omega
  | call answer rest hstep hthreads hend hown hown' =>
    have hcall : s.cache.Held fun r =>
        s.threads.count r + rest r + (s.phase.registration setup.device.domain).held r := by
      apply hheld.congr
      intro r
      rw [hown]
      omega
    apply (Call.held_step hcall hstep).congr
    intro r
    rw [hthreads, hown']
    omega
  | thread step hstep hphase hown =>
    have hthread : s.cache.Held fun r => s.ownLeases r + s.threads.count r := by
      apply hheld.congr
      intro r
      omega
    apply (ThreadStep.held_run hthread hstep).congr
    intro r
    rw [hown]
    omega
  | clear hcache hthreads hcall hown =>
    rw [hcache]
    apply (hheld.clearDomain setup.device.domain).congr
    intro r
    rw [hthreads, hown]
    omega
  | dropAll cleared hphase hcache hthreads hcall hown =>
    rw [hcache]
    have hle : ∀ r, cleared.count r ≤ s.threads.count r + s.ownLeases r := by
      intro r
      rw [hown]
      omega
    apply (hheld.dropLeases hle).congr
    intro r
    rw [hthreads, hown]
    omega

end Leased

/-- In every run the counts of the cache agree with the leases there are. -/
theorem leased_reach [Operands T] {setup : Setup} {ok : State T → Move T → Prop} {s : State T}
    (h : (service T setup).Reach ok s) : Leased s := by
  refine service_invariant (J := fun s => Settled s ∧ Owned s) (I := Leased)
    (fun s hs => owned_reach hs) (.start setup) ?_ h
  intro s m s' hs hs' hok hmove hleased
  exact hleased.step (hmove.leaseMove hs.1 hs.2)

/-! ### The lease of an op and its completion -/

/-- The op that the worker works on. -/
def Phase.op : Phase T → Option Nat
  | .operand prepared _ _ => some prepared.context
  | .failing prepared _ => some prepared.context
  | .quiesceOperand waiting _ _ => some waiting.inflight.number
  | .failingQuiesce op _ => some op.number
  | _ => none

namespace State

/-- The boxes there are. -/
def boxes (s : State T) : List (InFlight T) :=
  Assoc.values s.queues.raw ++ s.waiting ++ s.hashes.map Prod.fst

/-- The leases of one op on `r`: that of its box, and those of the call that registers its
operand. -/
def leasesOf (s : State T) (number r : Nat) : Nat :=
  ((s.boxes.filter fun op => op.number = number).map (InFlight.leaseOn r)).sum
    + if s.phase.op = some number then s.phase.held r else 0

end State

/-- The sum over the boxes is that over the ops that are taken in or wait for their
checksum. -/
theorem sum_boxes (s : State T) (f : InFlight T → Nat) :
    (s.boxes.map f).sum = s.live f + s.hashing f := by
  have hhashes := sum_hashes s f
  simp only [State.boxes, State.waiting, State.live, Assoc.weight, List.map_append,
    List.sum_append, List.map_map, Function.comp_def, hhashes]
  omega

/-- A box of the op adds its part to the ops that are not completed. -/
theorem le_of_mem_boxes {s : State T} {op : InFlight T} (hop : op ∈ s.boxes)
    (f : InFlight T → Nat) :
    f op ≤ s.live f + s.hashing f := by
  rw [← sum_boxes]
  exact le_sum_map hop f

/-- Once an op has its completion, no box of it is left, and nobody works on it. -/
theorem leasesOf_completed [Operands T] {s : State T} (h : Owned s) {c : Completion (Tagged T)}
    (hc : c ∈ s.completed) (r : Nat) : s.leasesOf c.number r = 0 := by
  have hle := h.owners_le c.number
  have hone : indicator c.number c.callerContext.number = 1 := if_pos rfl
  have hfinished := le_finished hc fun c' => indicator c.number c'.callerContext.number
  simp only [State.owners] at hle
  have hboxes : ∀ op ∈ s.boxes, op.number ≠ c.number := by
    intro op hop heq
    have hbox := le_of_mem_boxes hop fun op => indicator c.number op.callerContext.number
    have hop1 : indicator c.number op.callerContext.number = 1 := if_pos heq
    omega
  have hnone : (s.boxes.filter fun op => op.number = c.number) = [] := by
    rw [List.filter_eq_nil_iff]
    intro op hop
    simpa using hboxes op hop
  have hphase : s.phase.op ≠ some c.number := by
    intro hop
    -- The box of the op in hand would be another place.
    have hhand : ∀ op ∈ s.phase.inHand, op.number ≠ c.number := fun op hmem =>
      hboxes op (List.mem_append_left _ (List.mem_append_right _ (List.mem_append_right _ hmem)))
    have hprepared : ∀ p ∈ s.phase.prepared, p.context ≠ c.number := by
      intro p hp heq
      obtain ⟨op, hlookup⟩ := Option.ne_none_iff_exists'.mp (h.backed.prepared p hp)
      refine hboxes op ?_ ((h.named _ _ hlookup).trans heq)
      exact List.mem_append_left _ (List.mem_append_left _ (Assoc.mem_values_iff.mpr ⟨_, hlookup⟩))
    cases hcase : s.phase with
    | operand prepared entry call =>
      rw [hcase] at hop hprepared
      exact hprepared prepared (.head _) (Option.some.inj hop)
    | failing prepared error =>
      rw [hcase] at hop hprepared
      exact hprepared prepared (.head _) (Option.some.inj hop)
    | quiesceOperand waiting entry call =>
      rw [hcase] at hop hhand
      exact hhand waiting.inflight (.head _) (Option.some.inj hop)
    | failingQuiesce op error =>
      rw [hcase] at hop hhand
      exact hhand op (.head _) (Option.some.inj hop)
    | _ =>
      rw [hcase] at hop
      cases hop
  rw [State.leasesOf, hnone, if_neg hphase]
  rfl

/-- Leases outlive the operations that need them. The registration that libfabric was given the
descriptor of stays open until the op is reaped. A registration is closed once, exactly when
neither the registry nor anybody else leases it. An op that has its completion, staged or
delivered, has no lease any more. -/
theorem lease_outlives_op [Operands T] {setup : Setup} {s : State T}
    (h : (service T setup).Reachable s) :
    (∀ post ∈ s.wire.posts, ∀ r, post.descriptor = some r → s.cache.Open r) ∧
    (setup.device.requiresLocalMr = true → ∀ post ∈ s.wire.posts, post.descriptor ≠ none) ∧
    s.cache.handles.dropped.Nodup ∧
    (∀ r, r ∈ s.cache.handles.dropped ↔
      r < s.cache.handles.next ∧ s.cache.registry.leases r = 0 ∧ s.leases r = 0) ∧
    (∀ c ∈ s.completed, ∀ r, s.leasesOf c.number r = 0) := by
  obtain ⟨hs, ho⟩ := owned_reach h
  have hb := boxed_reach h
  have hleased := leased_reach h
  refine ⟨fun post hpost r hr => ?_, hb.descriptor, hleased.nodup, fun r => ?_,
    fun c hc r => leasesOf_completed ho hc r⟩
  · -- The box behind the post's context holds the lease.
    rw [Cache.Held.open_iff hleased]
    obtain ⟨op, hlookup, hmatches⟩ := hb.posts post hpost
    have hle := Assoc.le_weight_of_lookup hlookup (InFlight.leaseOn r)
    have hlease : InFlight.leaseOn r op = 1 := by
      rw [InFlight.leaseOn, hmatches.descriptor, hr]
      exact if_pos rfl
    simp only [State.leases, State.live]
    omega
  · rw [hleased.mem_dropped]
    omega

/-- A transfer is submitted, taken in and posted, from a buffer in a cacheable page. -/
def postCached (request : TransferRequest Buffer) : List (Move Buffer) :=
  [.submit request, .send 0, .worker .none, .worker .none, .worker (.avInsert 1),
    .worker (.region .none), .worker (.region (.span (some ⟨4096, 8192⟩))),
    .worker (.region (.mrReg 0)), .worker (.region .none), .worker (.region .none),
    .worker (.rma 0 0 0)]

/-- A write is in flight, and another thread retires the page of its buffer and drops the lease
of the registry. The registration stays open. -/
theorem lease_outlives_op_invalidated :
    ∃ s, (service Buffer bufferSetup).run (State.start bufferSetup)
        (startUp ++ postCached (writeTo 1 (List.replicate 32 254) true 4096)
          ++ [.thread (.invalidate 4096 8192), .thread (.drop 1)]) = some s ∧
      s.cache.registry.leases 1 = 0 ∧ s.threads = [] ∧ s.cache.Open 1 := by
  obtain ⟨s, hrun, hleases, hthreads, hdescriptor⟩ :
      ∃ s, (service Buffer bufferSetup).run (State.start bufferSetup)
          (startUp ++ postCached (writeTo 1 (List.replicate 32 254) true 4096)
            ++ [.thread (.invalidate 4096 8192), .thread (.drop 1)]) = some s ∧
        s.cache.registry.leases 1 = 0 ∧ s.threads = [] ∧
        ∃ post ∈ s.wire.posts, post.descriptor = some 1 :=
    ⟨_, rfl, by decide +kernel, rfl, _, .head _, rfl⟩
  obtain ⟨post, hpost, hone⟩ := hdescriptor
  have hopen := (lease_outlives_op (Machine.reach_run rfl _ hrun)).1 post hpost 1 hone
  exact ⟨s, hrun, hleases, hthreads, hopen⟩

end Vdma.Fabric
