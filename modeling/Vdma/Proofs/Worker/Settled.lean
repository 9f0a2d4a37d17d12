import Vdma.Proofs.Worker.Moves

/-!
# `Vdma.Proofs.Worker.Settled`: what the worker's phase says about the rest

`Settled` collects what each phase promises. Reaped ops wait only while they are being
dispatched. Past the idle test of a pass the worker's queues are as the test found them,
because only the worker touches them. Outside the loop of `worker_main` there is
nothing left to do and nobody who could ask for more.

A move of the worker inside the loop keeps all this by `Settled.loop`.
-/

set_option autoImplicit false

namespace Vdma.Fabric

open Vdma.Lib

variable {T : Type}

namespace Phase

/-- The phases of the loop of `worker_main`. -/
def loops : Phase T → Bool
  | .starting => false
  | .pinning .quiesce _ _ _ => false
  | .announcing => false
  | .exiting => false
  | .clearing => false
  | .dropping _ => false
  | .closing => false
  | .leaving => false
  | .exited => false
  | .faulted => false
  | _ => true

/-- The phases before the service is ready. -/
def startsUp : Phase T → Bool
  | .starting => true
  | .pinning .quiesce _ _ _ => true
  | .announcing => true
  | _ => false

/-- A worker in its loop has started up. -/
theorem startsUp_of_loops {phase : Phase T} (h : phase.loops = true) : phase.startsUp = false := by
  cases phase with
  | pinning purpose base limit call =>
    cases purpose with
    | quiesce => cases h
    | message number => rfl
  | starting => cases h
  | announcing => cases h
  | _ => rfl

/-- The phases between the idle test of a pass and its end. -/
def atEnd : Phase T → Bool
  | .completing => true
  | .parking => true
  | _ => false

end Phase

/-- No op is queued or posted. -/
structure Drained (s : State T) : Prop where
  pending : s.queues.pending = []
  quiescing : s.queues.quiescing = []
  crcPending : s.queues.crcPending = []
  inFlight : s.pass.inFlight = 0

/-- Nothing is left to do, and nobody can ask for more. -/
structure Quiet (s : State T) : Prop extends Drained s where
  service : s.callers.service ≠ .serving
  channel : s.callers.channel = []
  completions : s.queues.completions = []

/-- What the phases promise. -/
structure Settled (s : State T) : Prop where
  inFlight : s.pass.inFlight = s.wire.posts.length
  reaped : s.phase ≠ .dispatching → s.queues.reaped = []
  idle : s.phase.atEnd = true → s.pass.idle = true → Drained s
  parked : s.phase = .parking → s.queues.completions = []
  disconnected : s.pass.disconnected = true →
    s.callers.service = .dropped ∧ s.callers.channel = []
  submitting : s.callers.service ≠ .serving → s.callers.submitting = []
  starting : s.phase.startsUp = true → s.callers.service = .starting
  quiet : s.phase.loops = false → Quiet s

/-- An idle worker has nothing queued, and nothing in flight. -/
theorem isIdle_iff {s : State T} :
    s.isIdle = true ↔
      s.queues.pending = [] ∧ s.queues.quiescing = [] ∧ s.pass.inFlight = 0 := by
  simp only [State.isIdle, Bool.and_eq_true, List.isEmpty_iff, decide_eq_true_eq, and_assoc,
    eq_comm (a := 0)]

/-- A batch that is not due when the worker is about to park is empty. -/
theorem batched_eq_zero {batched posted : Nat} {reapedAny : Bool}
    (h : shouldFlushCrc batched posted reapedAny true = false) : batched = 0 := by
  unfold shouldFlushCrc at h
  rw [Bool.or_true, Bool.and_true, decide_eq_false_iff_not] at h
  omega

namespace Settled

variable {setup : Setup} {s s' : State T}

/-- A worker about to start has nothing to do. -/
theorem start (setup : Setup) : Settled (State.start setup : State T) where
  inFlight := rfl
  reaped _ := rfl
  idle h := by cases h
  parked h := by cases h
  disconnected h := by cases h
  submitting _ := rfl
  starting _ := rfl
  quiet _ := ⟨⟨rfl, rfl, rfl, rfl⟩, nofun, rfl, rfl⟩

/-- Only dispatching has reaped completions left. -/
theorem not_reaped (h : Settled s) (hphase : s.phase ≠ .dispatching) (r : Reaped) :
    r ∉ s.queues.reaped := by
  rw [h.reaped hphase]
  exact List.not_mem_nil

/-- The phase promises nothing about the cache, the pool or what was delivered. -/
theorem of_same (h : Settled s) (hphase : s'.phase = s.phase) (hcallers : s'.callers = s.callers)
    (hqueues : s'.queues = s.queues) (hpass : s'.pass = s.pass) (hwire : s'.wire = s.wire) :
    Settled s' where
  inFlight := by rw [hpass, hwire]; exact h.inFlight
  reaped := by rw [hphase, hqueues]; exact h.reaped
  idle hend hidle := by
    rw [hphase] at hend
    rw [hpass] at hidle
    obtain ⟨hpending, hquiescing, hcrc, hinFlight⟩ := h.idle hend hidle
    exact ⟨by rwa [hqueues], by rwa [hqueues], by rwa [hqueues], by rwa [hpass]⟩
  parked := by rw [hphase, hqueues]; exact h.parked
  disconnected := by rw [hpass, hcallers]; exact h.disconnected
  submitting := by rw [hcallers]; exact h.submitting
  starting := by rw [hphase, hcallers]; exact h.starting
  quiet hloops := by
    rw [hphase] at hloops
    obtain ⟨⟨hpending, hquiescing, hcrc, hinFlight⟩, hservice, hchannel, hcompletions⟩ :=
      h.quiet hloops
    exact ⟨⟨by rwa [hqueues], by rwa [hqueues], by rwa [hqueues], by rwa [hpass]⟩,
      by rwa [hcallers], by rwa [hcallers], by rwa [hqueues]⟩

/-- A caller can only ask while the worker is in its loop and sees the channel open. -/
theorem of_callers (h : Settled s) (hserving : s.callers.service = .serving)
    (hphase : s'.phase = s.phase) (hqueues : s'.queues = s.queues) (hpass : s'.pass = s.pass)
    (hwire : s'.wire = s.wire)
    (hsubmitting : s'.callers.service ≠ .serving → s'.callers.submitting = []) : Settled s' where
  inFlight := by rw [hpass, hwire]; exact h.inFlight
  reaped := by rw [hphase, hqueues]; exact h.reaped
  idle hend hidle := by
    rw [hphase] at hend
    rw [hpass] at hidle
    obtain ⟨hpending, hquiescing, hcrc, hinFlight⟩ := h.idle hend hidle
    exact ⟨by rwa [hqueues], by rwa [hqueues], by rwa [hqueues], by rwa [hpass]⟩
  parked := by rw [hphase, hqueues]; exact h.parked
  disconnected hdisconnected := by
    rw [hpass] at hdisconnected
    have hdropped := (h.disconnected hdisconnected).1
    rw [hserving] at hdropped
    cases hdropped
  submitting := hsubmitting
  starting hstarts := by
    rw [hphase] at hstarts
    have hstarting := h.starting hstarts
    rw [hserving] at hstarting
    cases hstarting
  quiet hloops := by
    rw [hphase] at hloops
    exact absurd hserving (h.quiet hloops).service

/-- A move of the worker from one phase of the loop to another, before the idle test. -/
theorem loop (h : Settled s) (hloops : s'.phase.loops = true) (hend : s'.phase.atEnd = false)
    (hinFlight : s'.pass.inFlight = s'.wire.posts.length)
    (hreaped : s'.phase ≠ .dispatching → s'.queues.reaped = [])
    (hpass : s'.pass.disconnected = s.pass.disconnected)
    (hchannel : s.callers.channel = [] → s'.callers.channel = [])
    (hservice : s'.callers.service = s.callers.service)
    (hsubmitting : s'.callers.submitting = s.callers.submitting) : Settled s' where
  inFlight := hinFlight
  reaped := hreaped
  idle hend' := by
    rw [hend] at hend'
    cases hend'
  parked hparking := by
    rw [hparking] at hend
    cases hend
  disconnected hdisconnected := by
    rw [hpass] at hdisconnected
    rw [hservice]
    exact ⟨(h.disconnected hdisconnected).1, hchannel (h.disconnected hdisconnected).2⟩
  submitting := by rw [hservice, hsubmitting]; exact h.submitting
  starting hstarts := by
    rw [Phase.startsUp_of_loops hloops] at hstarts
    cases hstarts
  quiet hloops' := by
    rw [hloops] at hloops'
    cases hloops'

/-- Outside the loop the worker only tears down. -/
theorem tearDown (h : Settled s) (hloops : s.phase.loops = false) (hend : s'.phase.atEnd = false)
    (hphase : s'.phase ≠ .parking) (hstarts : s'.phase.startsUp = true → s.phase.startsUp = true)
    (hcallers : s'.callers = s.callers)
    (hpending : s'.queues.pending = []) (hcrcPending : s'.queues.crcPending = [])
    (hquiescing : s'.queues.quiescing = s.queues.quiescing)
    (hcompletions : s'.queues.completions = s.queues.completions)
    (hreaped : s'.queues.reaped = s.queues.reaped) (hpass : s'.pass = s.pass)
    (hwire : s'.wire = s.wire) : Settled s' where
  inFlight := by rw [hpass, hwire]; exact h.inFlight
  reaped _ := by
    rw [hreaped]
    refine h.reaped fun hdispatching => ?_
    rw [hdispatching] at hloops
    cases hloops
  idle hend' := by
    rw [hend] at hend'
    cases hend'
  parked hparking := absurd hparking hphase
  disconnected := by rw [hpass, hcallers]; exact h.disconnected
  submitting := by rw [hcallers]; exact h.submitting
  starting hstarts' := by rw [hcallers]; exact h.starting (hstarts hstarts')
  quiet _ := by
    obtain ⟨⟨_, hquiescing', _, hinFlight⟩, hservice, hchannel, hcompletions'⟩ := h.quiet hloops
    exact ⟨⟨hpending, by rwa [hquiescing], hcrcPending, by rwa [hpass]⟩, by rwa [hcallers],
      by rwa [hcallers], by rwa [hcompletions]⟩

/-- A change of phase that moves nothing keeps what the phases promise. -/
theorem turn (h : Settled s) {phase : Phase T} {pass : Pass} (hturn : Turn setup s phase pass) :
    Settled { s with phase := phase, pass := pass } := by
  have hinFlight := h.inFlight
  cases hturn with
  | begin hphase | giveUp hphase =>
    have hquiet := h.quiet (by rw [hphase]; rfl)
    exact h.tearDown (by rw [hphase]; rfl) rfl nofun (fun _ => by rw [hphase]; rfl) rfl
      hquiet.pending hquiet.crcPending rfl rfl rfl rfl rfl
  | startPosting hphase hchannel disconnected hdisconnected =>
    -- Only a dropped service with an empty channel disconnects the worker.
    have hreaped := h.reaped (by rw [hphase]; nofun)
    refine ⟨hinFlight, fun _ => hreaped, nofun, nofun, fun hd => ?_, h.submitting, nofun, nofun⟩
    rcases hdisconnected hd with hd | hdropped
    · exact h.disconnected hd
    · exact ⟨hdropped, hchannel⟩
  | leavePosting hphase attempts | leaveQuiescing hphase attempts | spin hphase
  | again hphase hidle =>
    have hreaped := h.reaped (by rw [hphase]; nofun)
    exact h.loop rfl rfl hinFlight (fun _ => hreaped) rfl id rfl rfl
  | leaveDispatching hphase hreaped =>
    exact h.loop rfl rfl hinFlight (fun _ => hreaped) rfl id rfl rfl
  | skipFlush hphase hflush =>
    have hreaped := h.reaped (by rw [hphase]; nofun)
    refine ⟨hinFlight, fun _ => hreaped, fun _ hidle => ?_, nofun, h.disconnected, h.submitting,
      nofun, nofun⟩
    -- An idle pass flushes any batch there is.
    change s.isIdle = true at hidle
    obtain ⟨hpending, hquiescing, hzero⟩ := isIdle_iff.mp hidle
    rw [hidle] at hflush
    exact ⟨hpending, hquiescing, List.length_eq_zero_iff.mp (batched_eq_zero hflush), hzero⟩
  | park hphase hcompletions =>
    have hreaped := h.reaped (by rw [hphase]; nofun)
    have hidle := h.idle (by rw [hphase]; rfl)
    refine ⟨hinFlight, fun _ => hreaped, fun _ hi => ?_, fun _ => hcompletions, h.disconnected,
      h.submitting, nofun, nofun⟩
    obtain ⟨hpending, hquiescing, hcrc, hzero⟩ := hidle hi
    exact ⟨hpending, hquiescing, hcrc, hzero⟩
  | exit hphase hidle hend =>
    have hreaped := h.reaped (by rw [hphase]; nofun)
    obtain ⟨hpending, hquiescing, hcrc, hzero⟩ := h.idle (by rw [hphase]; rfl) hidle
    have hdropped : s.callers.service = .dropped ∧ s.callers.channel = [] := by
      rcases hend with hdisconnected | ⟨hchannel, hdropped⟩
      · exact h.disconnected hdisconnected
      · exact ⟨hdropped, hchannel⟩
    refine ⟨hinFlight, fun _ => hreaped, nofun, nofun, h.disconnected, h.submitting, nofun,
      fun _ => ?_⟩
    refine ⟨⟨hpending, hquiescing, hcrc, hzero⟩, ?_, hdropped.2, h.parked hphase⟩
    show s.callers.service ≠ .serving
    rw [hdropped.1]
    nofun

end Settled

/-- Every pointer the worker owns points to a box. -/
structure Backed (s : State T) : Prop where
  prepared : ∀ prepared ∈ s.phase.prepared, s.queues.raw.lookup prepared.context ≠ none
  reaped : ∀ reaped ∈ s.queues.reaped, s.queues.raw.lookup reaped.1 ≠ none

/-- No pointer dangles. -/
theorem Backed.not_dangling {s : State T} (h : Backed s) {context : Nat}
    (hraw : s.queues.raw.lookup context = none)
    (howned : (∃ prepared ∈ s.phase.prepared, prepared.context = context) ∨
      (∃ reaped ∈ s.queues.reaped, reaped.1 = context)) : False := by
  rcases howned with ⟨prepared, hprepared, rfl⟩ | ⟨reaped, hreaped, rfl⟩
  · exact h.prepared prepared hprepared hraw
  · exact h.reaped reaped hreaped hraw

/-- The shutdown finds nothing that was never posted. -/
theorem Settled.not_danglingPending {s : State T} (h : Settled s) (hphase : s.phase = .exiting)
    (hreclaim : State.reclaimAll s.queues.raw s.queues.pending = none) : False := by
  rw [(h.quiet (by rw [hphase]; rfl)).pending] at hreclaim
  cases hreclaim

/-- No pointer the worker owns points to nothing. -/
theorem MovesIn.not_dangling [Operands T] {setup : Setup} {s s' : State T} {m : Move T}
    (hmove : MovesIn setup s .dangling m s') (hs : Settled s) (hbacked : Backed s) : False := by
  cases hmove with
  | dangling context hraw howned => exact hbacked.not_dangling hraw howned
  | danglingPending hphase hreclaim => exact hs.not_danglingPending hphase hreclaim

/-- Nor is there anything to finish. -/
theorem Settled.leftover {s : State T} (h : Settled s) (hphase : s.phase = .exiting)
    {ops : List (InFlight T)} {raw : Assoc Nat (InFlight T)}
    (hreclaim : State.reclaimAll s.queues.raw s.queues.pending = some (ops, raw)) :
    ops = [] ∧ raw = s.queues.raw ∧ s.queues.pending = [] ∧ s.queues.crcPending = [] := by
  have hquiet := h.quiet (by rw [hphase]; rfl)
  rw [hquiet.pending] at hreclaim
  cases hreclaim
  exact ⟨rfl, rfl, hquiet.pending, hquiet.crcPending⟩

/-- The worker takes messages only in its loop, with nothing reaped in hand. -/
theorem Takes.not_dispatching {s : State T} (h : Takes s) : s.phase ≠ .dispatching := by
  intro hphase
  cases h with
  | intake h => rw [hphase] at h; cases h
  | parking h => rw [hphase] at h; cases h

namespace Settled

variable [Operands T] {setup : Setup} {s s' : State T} {m : Move T}

/-- Callers come only while the service serves. -/
theorem step_callers (h : Settled s) (hmove : MovesIn setup s .callers m s') : Settled s' := by
  cases hmove with
  | submit request hserving | message message hserving hmessage =>
    exact h.of_callers hserving rfl rfl rfl rfl fun hne => absurd hserving hne
  | send i request hi hphase =>
    by_cases hserving : s.callers.service = .serving
    · exact h.of_callers hserving rfl rfl rfl rfl fun hne => absurd hserving hne
    · -- Nobody is about to send once the service is gone.
      rw [h.submitting hserving] at hi
      cases hi
  | sendFails i request hi hphase =>
    by_cases hserving : s.callers.service = .serving
    · exact h.of_callers hserving rfl rfl rfl rfl fun hne => absurd hserving hne
    · rw [h.submitting hserving] at hi
      cases hi
  | refused => exact h
  | dropService hserving hsubmitting =>
    exact h.of_callers hserving rfl rfl rfl rfl fun _ => hsubmitting

/-- Before the worker serves nothing is queued, and a pin in the loop queues nothing. -/
theorem step_pinning (h : Settled s) (hmove : MovesIn setup s .pinning m s') : Settled s' := by
  have hinFlight := h.inFlight
  cases hmove with
  | serve hphase =>
    have hreaped := h.reaped (by rw [hphase]; nofun)
    refine ⟨hinFlight, fun _ => hreaped, nofun, nofun, fun hdisconnected => ?_,
      fun hne => absurd rfl hne, nofun, nofun⟩
    -- A worker that has not served yet was not disconnected.
    have hdropped := (h.disconnected hdisconnected).1
    rw [h.starting (by rw [hphase]; rfl)] at hdropped
    cases hdropped
  | pinQuiesce hphase hlocal =>
    have hquiet := h.quiet (by rw [hphase]; rfl)
    exact h.tearDown (by rw [hphase]; rfl) rfl nofun (fun _ => by rw [hphase]; rfl) rfl
      hquiet.pending hquiet.crcPending rfl rfl rfl rfl rfl
  | pin purpose base limit call call' c region hphase hstep =>
    have hreaped := h.reaped (by rw [hphase]; nofun)
    cases purpose with
    | quiesce =>
      have hquiet := h.quiet (by rw [hphase]; rfl)
      exact h.tearDown (by rw [hphase]; rfl) rfl nofun (fun _ => by rw [hphase]; rfl) rfl
        hquiet.pending hquiet.crcPending rfl rfl rfl rfl rfl
    | message number => exact h.loop rfl rfl hinFlight (fun _ => hreaped) rfl id rfl rfl
  | pinnedQuiesce base limit result phase hphase hnext =>
    have hquiet := h.quiet (by rw [hphase]; rfl)
    rcases hnext with rfl | rfl
    · exact h.tearDown (by rw [hphase]; rfl) rfl nofun (fun _ => by rw [hphase]; rfl) rfl
        hquiet.pending hquiet.crcPending rfl rfl rfl rfl rfl
    · exact h.tearDown (by rw [hphase]; rfl) rfl nofun nofun rfl
        hquiet.pending hquiet.crcPending rfl rfl rfl rfl rfl
  | pinned number base limit result hphase =>
    have hreaped := h.reaped (by rw [hphase]; nofun)
    exact h.loop rfl rfl hinFlight (fun _ => hreaped) rfl id rfl rfl

/-- The intake takes a message before anything is reaped. -/
theorem step_intake (h : Settled s) (hmove : MovesIn setup s .intake m s') : Settled s' := by
  have hinFlight := h.inFlight
  cases hmove with
  | accept number request channel op prepared htakes hchannel hprepare
  | refuse number request channel completion htakes hchannel hprepare
  | addPeer number client address inserted entry channel books htakes hchannel hinsert
  | addPeerFails number client address inserted error channel books htakes hchannel hinsert
  | removePeer number client channel htakes hchannel
  | pinMessage number base length channel htakes hchannel
  | nothingToPin number base length channel htakes hchannel =>
    have hreaped := h.reaped htakes.not_dispatching
    exact h.loop rfl rfl hinFlight (fun _ => hreaped) rfl (fun h => by simp [hchannel] at h) rfl rfl

/-- An attempt moves one op, and stays in the loop. -/
theorem step_posting (h : Settled s) (hmove : MovesIn setup s .posting m s') : Settled s' := by
  have hinFlight := h.inFlight
  cases hmove with
  | posted prepared entry operand now op hphase hclock hraw =>
    have hreaped := h.reaped (by rw [hphase]; nofun)
    exact h.loop rfl rfl (by simp [Wire.post, hinFlight]) (fun _ => hreaped) rfl id rfl rfl
  | _ =>
    have hreaped := h.reaped (by rw [‹s.phase = _›]; nofun)
    exact h.loop rfl rfl hinFlight (fun _ => hreaped) rfl id rfl rfl

/-- A reap takes off the wire what it puts in the batch. -/
theorem step_reaping (h : Settled s) (hmove : MovesIn setup s .reaping m s') : Settled s' := by
  have hinFlight := h.inFlight
  cases hmove with
  | reap reaped wire hphase htake =>
    -- As many posts leave libfabric as were reaped.
    obtain ⟨claimed, hcontexts, hperm, -⟩ := Wire.take_spec htake
    have hclaimed : claimed.length = reaped.length := by
      simpa using congrArg List.length hcontexts
    have hlength := hperm.length_eq
    rw [List.length_append] at hlength
    refine h.loop rfl rfl ?_ (fun hne => absurd rfl hne) rfl id rfl rfl
    show s.pass.inFlight - reaped.length = wire.posts.length
    omega
  | toQuiescing context reaped op read hphase hreaped hraw hquiesce
  | toCrc context result reaped op hphase hreaped hraw hquiesce
  | toCompletion context result reaped op hphase hreaped hraw hquiesce =>
    exact h.loop (by rw [hphase]; rfl) (by rw [hphase]; rfl) hinFlight
      (fun hne => absurd hphase hne) rfl id rfl rfl

/-- So does an attempt at a read. -/
theorem step_quiescing (h : Settled s) (hmove : MovesIn setup s .quiescing m s') : Settled s' := by
  have hinFlight := h.inFlight
  cases hmove with
  | quiesced waiting entry operand now hphase hclock =>
    have hreaped := h.reaped (by rw [hphase]; nofun)
    exact h.loop rfl rfl (by simp [Wire.post, hinFlight]) (fun _ => hreaped) rfl id rfl rfl
  | _ =>
    have hreaped := h.reaped (by rw [‹s.phase = _›]; nofun)
    exact h.loop rfl rfl hinFlight (fun _ => hreaped) rfl id rfl rfl

/-- At the end of a pass the queues are emptied, and past the loop they stay empty. -/
theorem step_ending (h : Settled s) (hmove : MovesIn setup s .ending m s') : Settled s' := by
  have hinFlight := h.inFlight
  cases hmove with
  | flush hphase =>
    have hreaped := h.reaped (by rw [hphase]; nofun)
    refine ⟨hinFlight, fun _ => hreaped, fun _ hidle => ?_, nofun, h.disconnected, h.submitting,
      nofun, nofun⟩
    obtain ⟨hpending, hquiescing, hzero⟩ := isIdle_iff.mp hidle
    exact ⟨hpending, hquiescing, rfl, hzero⟩
  | deliver hphase =>
    have hreaped := h.reaped (by rw [hphase]; nofun)
    refine ⟨hinFlight, fun _ => hreaped, fun _ hidle => ?_, fun _ => rfl, h.disconnected,
      h.submitting, nofun, nofun⟩
    obtain ⟨hpending, hquiescing, hcrc, hzero⟩ := h.idle (by rw [hphase]; rfl) hidle
    exact ⟨hpending, hquiescing, hcrc, hzero⟩
  | leftover ops raw hphase hreclaim =>
    exact h.tearDown (by rw [hphase]; rfl) rfl nofun nofun rfl rfl rfl rfl rfl rfl rfl rfl
  | clear hphase | drop cleared hphase | close hphase | leave hphase hpool =>
    have hquiet := h.quiet (by rw [hphase]; rfl)
    exact h.tearDown (by rw [hphase]; rfl) rfl nofun nofun rfl hquiet.pending hquiet.crcPending rfl
      rfl rfl rfl rfl

/-- Every move keeps what the phases promise, as long as no pointer dangles. -/
theorem step (h : Settled s) (hbacked : Backed s) (hmove : Moves setup s m s') : Settled s' := by
  obtain ⟨part, hmove⟩ := hmove
  cases part with
  | callers => exact h.step_callers hmove
  | others => cases hmove <;> exact h.of_same rfl rfl rfl rfl rfl
  | turning =>
    cases hmove with
    | turn hturn => exact h.turn hturn
  | pinning => exact h.step_pinning hmove
  | intake => exact h.step_intake hmove
  | posting => exact h.step_posting hmove
  | reaping => exact h.step_reaping hmove
  | quiescing => exact h.step_quiescing hmove
  | ending => exact h.step_ending hmove
  | dangling => exact (hmove.not_dangling h hbacked).elim

end Settled

end Vdma.Fabric
