import Vdma.Lib.Fairness
import Vdma.Proofs.OperandContract
import Vdma.Proofs.Worker.Completion
import Vdma.Proofs.Worker.Passes

/-!
# `Vdma.Proofs.Worker.Progress`: the worker always has a move, and few before it is back

`State.effort` bounds the moves the worker can make before it takes a message or begins another
pass. Each of its moves goes down it, by `effort_lt`, and nobody else touches it. So no answer from
outside and no interleaving keeps the worker from its channel: `pass_bounded`.

`never_stuck` is the other half: a worker that has not exited has a move, unless it blocks in
`recv` on an empty channel, or waits for the jobs of a pool that it is the last to hold.

The count is one of the worker's moves here. A move may hold several calls into libfabric: all
the reads of one reap, or the eviction of an old entry and the insertion of the new one.
-/

set_option autoImplicit false

namespace Vdma.Fabric

open Vdma.Lib

variable {T : Type}

/-- A move of the worker. -/
def Move.isWorker : Move T → Bool
  | .worker _ => true
  | _ => false

/-- What is no move of the worker is none of its moves. -/
theorem Move.ne_worker {m : Move T} (hm : m.isWorker = false) (answer : Answer) :
    m ≠ .worker answer := by
  rintro rfl
  cases hm

/-! ### Effort -/

/-- The most sections a call of `operand` has before it returns. -/
def OperandCall.effort : OperandCall → Nat
  | .lookup _ _ => 6
  | .ask _ _ => 5
  | .register start stop base limit _ => if (base, limit) ≠ (start, stop) then 4 else 3
  | .track _ _ _ => 2
  | .superseded _ _ => 1
  | .done _ => 0
  | .failed _ => 0

/-- A call of `operand` has at most six sections to go. -/
theorem OperandCall.effort_le (call : OperandCall) : call.effort ≤ 6 := by
  cases call with
  | register start stop base limit cacheable =>
    simp only [OperandCall.effort]
    split <;> omega
  | _ => simp [OperandCall.effort]

/-- A section brings the call nearer to its return. -/
theorem OperandCall.effort_step {lib : Libfabric} {domain : Domain} {c c' : Cache}
    {call call' : OperandCall} {answer : RegionAnswer}
    (h : call.step lib domain c answer = some (c', call')) : call'.effort < call.effort := by
  cases call with
  | lookup start stop =>
    cases answer <;> simp only [OperandCall.step, reduceCtorEq] at h
    split at h <;> cases h <;> simp [OperandCall.effort]
  | ask start stop =>
    cases answer <;> simp only [OperandCall.step, reduceCtorEq] at h
    split at h <;> cases h
    · simp only [OperandCall.effort]
      split <;> omega
    · simp [OperandCall.effort]
  | register start stop base limit cacheable =>
    cases answer <;> simp only [OperandCall.step, reduceCtorEq] at h
    split at h
    · cases h
      have hleast : 3 ≤ (OperandCall.register start stop base limit cacheable).effort := by
        simp only [OperandCall.effort]
        split <;> omega
      cases cacheable with
      | false => exact Nat.lt_of_lt_of_le (Nat.succ_pos 2) hleast
      | true => exact Nat.lt_of_lt_of_le (Nat.lt_succ_self 2) hleast
    · cases h
      -- The span's registration failed: the operand's own extent is the last try.
      by_cases hwidened : (base, limit) ≠ (start, stop)
      · rw [if_pos hwidened]
        simp only [OperandCall.effort, if_pos hwidened, ne_eq, not_true_eq_false, if_false]
        exact Nat.lt_succ_self 3
      · rw [if_neg hwidened]
        simp only [OperandCall.effort, if_neg hwidened]
        exact Nat.succ_pos 2
  | track base limit lease =>
    cases answer <;> simp only [OperandCall.step, reduceCtorEq] at h
    cases h
    exact Nat.lt_succ_self 1
  | superseded replaced lease =>
    cases answer <;> simp only [OperandCall.step, reduceCtorEq] at h
    cases h
    exact Nat.one_pos
  | done operand => cases answer <;> cases h
  | failed error => cases answer <;> cases h

/-- The sections a call of `pin` has before it returns. -/
def PinCall.effort : PinCall → Nat
  | .register => 4
  | .track _ => 3
  | .superseded _ _ => 2
  | .release _ => 1
  | .done _ => 0

/-- A section of a pin brings it nearer to its end. -/
theorem PinCall.effort_step {lib : Libfabric} {domain : Domain} {base limit : Nat} {c c' : Cache}
    {call call' : PinCall} {answer : RegionAnswer}
    (h : call.step lib domain base limit c answer = some (c', call')) :
    call'.effort < call.effort := by
  cases call with
  | register =>
    cases answer <;> simp only [PinCall.step, reduceCtorEq] at h
    split at h <;> cases h <;> simp [PinCall.effort]
  | track lease | superseded replaced lease | release lease =>
    cases answer <;> simp only [PinCall.step, reduceCtorEq] at h
    cases h
    simp [PinCall.effort]
  | done result => cases answer <;> cases h

/-- A pin has at most four sections to go. -/
theorem PinCall.effort_begin (base length : Nat) : (PinCall.begin base length).effort ≤ 4 := by
  unfold PinCall.begin
  split <;> simp [PinCall.effort]

/-- The head of the loop. -/
def Phase.atHead : Phase T → Bool
  | .intake => true
  | _ => false

namespace State

/-- The moves of the worker from the head of its loop to the end of the pass: an attempt takes at
most nine, and so does a quiesce read, and a reap brings at most ten ops to dispatch. -/
def passEffort (s : State T) : Nat :=
  113 + 9 * (s.queues.pending.length + s.queues.quiescing.length)

/-- The most moves the worker has before it takes a message or begins another pass. -/
def effort (s : State T) : Nat :=
  match s.phase with
  | .starting => s.passEffort + 7
  | .pinning _ _ _ call => s.passEffort + 2 + call.effort
  | .announcing => s.passEffort + 1
  | .intake => s.passEffort
  | .posting => 112 + 9 * s.queues.quiescing.length + 9 * s.pass.attempts
  | .operand _ _ call =>
    112 + 9 * s.queues.quiescing.length + 9 * s.pass.attempts + 2 + call.effort
  | .failing _ _ => 112 + 9 * s.queues.quiescing.length + 9 * s.pass.attempts + 1
  | .reaping => 111 + 9 * s.queues.quiescing.length
  | .dispatching => 10 + 9 * s.queues.quiescing.length + 10 * s.queues.reaped.length
  | .quiescing => 9 + 9 * s.pass.attempts
  | .quiesceOperand _ _ call => 9 + 9 * s.pass.attempts + 2 + call.effort
  | .failingQuiesce _ _ => 9 + 9 * s.pass.attempts + 1
  | .flushing => 8
  | .completing => 7
  | .parking => 6
  | .exiting => 5
  | .clearing => 4
  | .dropping _ => 3
  | .closing => 2
  | .leaving => 1
  | .exited => 0
  | .faulted => 0

/-- The worker takes a message. -/
def Intakes (s s' : State T) : Prop := s'.callers.channel.length < s.callers.channel.length

/-- The worker begins another pass. -/
def Restarts (s s' : State T) : Prop := s.phase.atEnd = true ∧ s'.phase.atHead = true

end State

section
variable {setup : Setup} {s s' : State T} {answer : Answer}

/-- A change of phase leaves less to do, unless it begins another pass. -/
theorem Turn.effort_lt {phase : Phase T} {pass : Pass} (hturn : Turn setup s phase pass) :
    s.Restarts { s with phase := phase, pass := pass } ∨
      ({ s with phase := phase, pass := pass } : State T).effort < s.effort := by
  cases hturn with
  | spin h => exact .inl ⟨by rw [h]; rfl, rfl⟩
  | again h hidle => exact .inl ⟨by rw [h]; rfl, rfl⟩
  | begin h | giveUp h | startPosting h hchannel disconnected hdisconnected | leavePosting h
  | leaveDispatching h hreaped | leaveQuiescing h | skipFlush h hflush | park h hcompletions
  | exit h hidle hend =>
    refine .inr ?_
    simp only [State.effort, State.passEffort, h]
    omega

/-- Taking a message shortens the channel. -/
theorem State.Intakes.of_cons {number : Nat} {message : WorkerMessage (Tagged T)}
    {channel : List (Nat × WorkerMessage (Tagged T))}
    (hchannel : s.callers.channel = (number, message) :: channel)
    (hchannel' : s'.callers.channel = channel) : s.Intakes s' := by
  rw [State.Intakes, hchannel, hchannel']
  exact Nat.lt_succ_self _

/-- Each move of the worker takes a message, begins another pass, or leaves it less to do before it
does one of the two. -/
theorem effort_lt [Operands T] (hs : Settled s) (ho : Owned s)
    (hmove : Moves setup s (.worker answer) s') :
    s.Intakes s' ∨ s.Restarts s' ∨ s'.effort < s.effort := by
  obtain ⟨part, hmove⟩ := hmove
  cases hmove with
  | message message hserving hmessage hm | refused hm => cases hm
  | dangling context hraw howned => exact (ho.backed.not_dangling hraw howned).elim
  | danglingPending hphase hreclaim => exact (hs.not_danglingPending hphase hreclaim).elim
  | turn hturn => exact .inr hturn.effort_lt
  | accept number request channel op prepared htakes hchannel hprepare
  | refuse number request channel completion htakes hchannel hprepare
  | addPeer number client address inserted entry channel books htakes hchannel hinsert
  | addPeerFails number client address inserted error channel books htakes hchannel hinsert
  | removePeer number client channel htakes hchannel
  | pinMessage number base length channel htakes hchannel hlocal
  | nothingToPin number base length channel htakes hchannel =>
    exact .inl (.of_cons hchannel rfl)
  | pinQuiesce hphase hlocal =>
    have hbegin := PinCall.effort_begin setup.quiescePointer 8
    refine .inr (.inr ?_)
    simp only [State.effort, State.passEffort, hphase]
    omega
  | pin purpose base limit call call' c region hphase hstep =>
    have hcall := PinCall.effort_step hstep
    refine .inr (.inr ?_)
    simp only [State.effort, State.passEffort, hphase]
    omega
  | pinnedQuiesce base limit result phase hphase hnext =>
    refine .inr (.inr ?_)
    rcases hnext with rfl | rfl <;> simp only [State.effort, State.passEffort, hphase] <;> omega
  | attempt prepared pending inserted entry books hphase hpending hinsert hcap hattempts =>
    have hcall := (State.operandCall setup prepared.pointer prepared.length).effort_le
    refine .inr (.inr ?_)
    simp only [State.effort, hphase]
    omega
  | operand prepared entry call call' c region hphase hstep
  | quiesceOperand waiting entry call call' c region hphase hstep =>
    have hcall := OperandCall.effort_step hstep
    refine .inr (.inr ?_)
    simp only [State.effort, hphase]
    omega
  | quiesce waiting quiescing inserted entry books hphase hquiescing hinsert hattempts =>
    have hcall := (State.operandCall setup setup.quiescePointer 1).effort_le
    refine .inr (.inr ?_)
    simp only [State.effort, hphase]
    omega
  | reap reaped wire hphase htake hmax =>
    simp only [targetCompletions] at hmax
    refine .inr (.inr ?_)
    simp only [State.effort, hphase]
    omega
  | toQuiescing context reaped op read hphase hreaped hraw hquiesce =>
    -- A write that goes on to its quiesce read is dispatched no more.
    refine .inr (.inr ?_)
    simp only [State.effort, hphase, hreaped, List.length_append, List.length_cons, List.length_nil]
    omega
  | toCrc context result reaped op hphase hreaped hraw hquiesce
  | toCompletion context result reaped op hphase hreaped hraw hquiesce =>
    refine .inr (.inr ?_)
    simp only [State.effort, hphase, hreaped, List.length_cons]
    omega
  | _ =>
    refine .inr (.inr ?_)
    simp only [State.effort, State.passEffort, State.answered, ‹s.phase = _›]
    omega

end

/-! ### A worker has a move -/

/-- A pin that has not returned goes on, whatever its question is answered. -/
theorem PinCall.goes_on (lib : Libfabric) (domain : Domain) (base limit : Nat) (c : Cache)
    (call : PinCall) :
    (∃ result, call = .done result) ∨
      ∃ answer, (call.step lib domain base limit c answer).isSome := by
  cases call with
  | register =>
    refine .inr ⟨.mrReg 0, ?_⟩
    simp only [PinCall.step]
    split <;> rfl
  | track lease | superseded replaced lease | release lease => exact .inr ⟨.none, rfl⟩
  | done result => exact .inl ⟨result, rfl⟩

/-- An operand's call that has not returned goes on, and needs no span for it. -/
theorem OperandCall.next (lib : Libfabric) (domain : Domain) (c : Cache) (call : OperandCall) :
    (∃ operand, call = .done operand) ∨ (∃ error, call = .failed error) ∨
      ∃ answer, (∀ span, answer ≠ .span (some span)) ∧ (call.step lib domain c answer).isSome := by
  rcases call.goes_on lib domain c with hdone | hfailed | hnone | hspan | hcode
  · exact .inl hdone
  · exact .inr (.inl hfailed)
  · exact .inr (.inr ⟨.none, by simp, hnone⟩)
  · exact .inr (.inr ⟨.span none, by simp, hspan none⟩)
  · exact .inr (.inr ⟨.mrReg 0, by simp, hcode 0⟩)

namespace State

/-- The worker blocks in `recv`. -/
structure Blocked (s : State T) : Prop where
  phase : s.phase = .parking
  idle : s.pass.idle = true
  channel : s.callers.channel = []
  service : s.callers.service ≠ .dropped

/-- The worker waits in `Pool::drop`: its clone of the pool is the last, and the pool has jobs. -/
structure Joining (s : State T) : Prop where
  phase : s.phase = .leaving
  last : s.poolShared = false
  pool : s.pool ≠ []

section
variable {setup : Setup} {s : State T}

/-- The posting loop goes on, whatever is pending. -/
theorem stepPosting_enabled : ∃ answer, (s.stepPosting setup answer).isSome = true := by
  unfold stepPosting
  split
  · dsimp only
    cases s.queues.pending with
    | nil => exact ⟨.none, rfl⟩
    | cons prepared pending =>
      refine ⟨.avInsert 0, ?_⟩
      dsimp only
      split <;> rfl
  · exact ⟨.none, rfl⟩

/-- The quiesce loop goes on, whatever is waiting. -/
theorem stepQuiescing_enabled : ∃ answer, (s.stepQuiescing setup answer).isSome = true := by
  unfold stepQuiescing
  split
  · dsimp only
    cases s.queues.quiescing with
    | nil => exact ⟨.none, rfl⟩
    | cons waiting quiescing =>
      refine ⟨.avInsert 0, ?_⟩
      dsimp only
      split <;> rfl
  · exact ⟨.none, rfl⟩

/-- A registered operand is posted, whatever the post returns. -/
theorem stepOperand_enabled (prepared : Prepared) (entry : Nat) (call : OperandCall) :
    ∃ answer, (s.stepOperand setup prepared entry call answer).isSome = true := by
  rcases call.next setup.lib setup.device.domain s.cache with
    ⟨operand, rfl⟩ | ⟨error, rfl⟩ | ⟨answer, -, hsome⟩
  · refine ⟨.rma 0 s.clock s.clock, ?_⟩
    simp only [stepOperand, le_refl, and_self, if_true, Option.isSome_some]
  · exact ⟨.none, rfl⟩
  · refine ⟨.region answer, ?_⟩
    have hregion : s.stepOperand setup prepared entry call (.region answer)
        = (call.step setup.lib setup.device.domain s.cache answer).map fun next =>
          { s with cache := next.1, phase := .operand prepared entry next.2 } := by
      cases call <;> rfl
    rw [hregion, Option.isSome_map]
    exact hsome

/-- So does the posting of a quiesce read. -/
theorem stepQuiesceOperand_enabled (waiting : Quiescing T) (entry : Nat) (call : OperandCall) :
    ∃ answer, (s.stepQuiesceOperand setup waiting entry call answer).isSome = true := by
  rcases call.next setup.lib setup.device.domain s.cache with
    ⟨operand, rfl⟩ | ⟨error, rfl⟩ | ⟨answer, hspan, hsome⟩
  · refine ⟨.rma 0 s.clock s.clock, ?_⟩
    simp only [stepQuiesceOperand, le_refl, and_self, if_true, Option.isSome_some]
  · exact ⟨.none, rfl⟩
  · refine ⟨.region answer, ?_⟩
    -- The landing of a quiesce read is no span's.
    have hregion : s.stepQuiesceOperand setup waiting entry call (.region answer)
        = (call.step setup.lib setup.device.domain s.cache answer).map fun next =>
          { s with cache := next.1, phase := .quiesceOperand waiting entry next.2 } := by
      rcases answer with _ | (_ | span) | code
      · cases call <;> rfl
      · cases call <;> rfl
      · exact absurd rfl (hspan span)
      · cases call <;> rfl
    rw [hregion, Option.isSome_map]
    exact hsome

/-- A pin goes on, whatever it is for. -/
theorem stepPinning_enabled (purpose : Pinning) (base limit : Nat) (call : PinCall) :
    ∃ answer, (s.stepPinning setup purpose base limit call answer).isSome = true := by
  rcases call.goes_on setup.lib setup.device.domain base limit s.cache with
    ⟨result, rfl⟩ | ⟨answer, hsome⟩
  · exact ⟨.none, rfl⟩
  · refine ⟨.region answer, ?_⟩
    have hregion : s.stepPinning setup purpose base limit call (.region answer)
        = (call.step setup.lib setup.device.domain base limit s.cache answer).map fun next =>
          { s with cache := next.1, phase := .pinning purpose base limit next.2 } := by
      cases call <;> rfl
    rw [hregion, Option.isSome_map]
    exact hsome

/-- A dispatch asks nothing. -/
theorem stepDispatching_enabled : (s.stepDispatching setup .none).isSome = true := by
  unfold stepDispatching
  dsimp only
  split
  · rfl
  · split <;> rfl

/-- A worker that need not wait for the pool ends. -/
theorem stepLeaving_enabled (hjoining : ¬s.Joining) (h : s.phase = .leaving) :
    s.stepLeaving.isSome = true := by
  unfold stepLeaving
  by_cases hpool : s.poolShared = true ∨ s.pool = []
  · rw [if_pos hpool]
    rfl
  · obtain ⟨hlast, hjobs⟩ := not_or.mp hpool
    exact absurd ⟨h, Bool.eq_false_iff.mpr hlast, hjobs⟩ hjoining

end

variable [Operands T] {setup : Setup} {s : State T}

/-- A message can be taken. -/
theorem takeMessage_enabled (hchannel : s.callers.channel ≠ []) :
    ∃ answer, (s.takeMessage setup answer).isSome = true := by
  obtain ⟨⟨number, message⟩, channel, hcons⟩ := List.exists_cons_of_ne_nil hchannel
  unfold takeMessage
  rw [hcons]
  cases message with
  | transfer request | removePeer client => exact ⟨.none, rfl⟩
  | addPeer client address => exact ⟨.avInsert 0, rfl⟩
  | register base length =>
    refine ⟨.none, ?_⟩
    simp only [receive]
    split <;> rfl

/-- At the head of the loop the worker takes a message, or starts posting. -/
theorem stepIntake_enabled : ∃ answer, (s.stepIntake setup answer).isSome = true := by
  by_cases hchannel : s.callers.channel = []
  · refine ⟨.none, ?_⟩
    simp only [stepIntake, if_pos hchannel]
    split <;> rfl
  · obtain ⟨answer, h⟩ : ∃ answer, (s.takeMessage setup answer).isSome = true :=
      takeMessage_enabled hchannel
    refine ⟨answer, ?_⟩
    unfold stepIntake
    rwa [if_neg hchannel]

/-- At the end of a pass the worker goes on, unless it blocks. -/
theorem stepParking_enabled (hblocked : ¬s.Blocked) (h : s.phase = .parking) :
    ∃ answer, (s.stepParking setup answer).isSome = true := by
  by_cases hend : s.pass.disconnected ∧ s.pass.idle
  · exact ⟨.none, by rw [stepParking, if_pos hend]; rfl⟩
  by_cases hidle : s.pass.idle = true
  · by_cases hchannel : s.callers.channel = []
    · -- The channel of a dropped service is closed, so `recv` returns.
      have hdropped : s.callers.service = .dropped := by
        by_contra hservice
        exact hblocked ⟨h, hidle, hchannel, hservice⟩
      refine ⟨.none, ?_⟩
      simp only [stepParking, if_neg hend, if_pos hidle, if_pos hchannel, if_pos hdropped]
      rfl
    · obtain ⟨answer, hsome⟩ : ∃ answer, (s.takeMessage setup answer).isSome = true :=
        takeMessage_enabled hchannel
      refine ⟨answer, ?_⟩
      unfold stepParking
      rwa [if_neg hend, if_pos hidle, if_neg hchannel]
  · exact ⟨.none, by rw [stepParking, if_neg hend, if_neg hidle]; rfl⟩

/-- Some answer lets the worker move. -/
abbrev WorkerCanMove (setup : Setup) (s : State T) : Prop :=
  (service T setup).CanMove (fun m => m.isWorker = true) s

end State

section
variable [Operands T] {setup : Setup} {s s' : State T}

/-- A worker that has not exited has a move where it neither blocks in `recv` nor waits for the
pool. -/
theorem never_stuck (h : (service T setup).Reachable s) (hexited : s.phase ≠ .exited)
    (hblocked : ¬s.Blocked) (hjoining : ¬s.Joining) : s.WorkerCanMove setup := by
  suffices hsome : ∃ answer, (s.stepWorker setup answer).isSome = true by
    obtain ⟨answer, hsome⟩ := hsome
    exact ⟨.worker answer, rfl, hsome⟩
  have hfaulted := not_faulted h
  unfold State.stepWorker
  cases hphase : s.phase with
  | starting =>
    refine ⟨.none, ?_⟩
    dsimp only
    split <;> rfl
  | pinning purpose base limit call => exact State.stepPinning_enabled purpose base limit call
  | announcing => exact ⟨.address (.ok []), rfl⟩
  | intake => exact State.stepIntake_enabled
  | posting => exact State.stepPosting_enabled
  | operand prepared entry call => exact State.stepOperand_enabled prepared entry call
  -- An empty completion queue can always be read.
  | reaping => exact ⟨.cq [.code (-fiEagain)], rfl⟩
  | dispatching => exact ⟨.none, State.stepDispatching_enabled⟩
  | quiescing => exact State.stepQuiescing_enabled
  | quiesceOperand waiting entry call => exact State.stepQuiesceOperand_enabled waiting entry call
  | parking => exact State.stepParking_enabled hblocked hphase
  | leaving => exact ⟨.none, State.stepLeaving_enabled hjoining hphase⟩
  | exited => exact absurd hphase hexited
  | faulted => exact absurd hphase hfaulted
  | failing | failingQuiesce | flushing | completing | exiting | clearing | dropping | closing =>
    exact ⟨.none, rfl⟩

/-- A move of somebody else, or one of the worker that neither takes a message nor begins another
pass. -/
def State.Inside (setup : Setup) (s : State T) : Move T → Prop
  | .worker answer =>
    match s.stepWorker setup answer with
    | none => True
    | some s' => ¬s.Intakes s' ∧ ¬s.Restarts s'
  | _ => True

instance (s : State T) (m : Move T) : Decidable (s.Inside setup m) := by
  unfold State.Inside State.Intakes State.Restarts
  split
  · split <;> infer_instance
  · infer_instance

/-- Nobody else touches what the worker has left to do. -/
theorem effort_others {m : Move T} (hmove : Moves setup s m s') (hs : Settled s) (ho : Owned s)
    (hm : m.isWorker = false) : s'.effort = s.effort := by
  obtain ⟨hphase, hpass, hqueues, -⟩ := Moves.others hs ho hmove (Move.ne_worker hm)
  simp only [State.effort, State.passEffort, hphase, hqueues, hpass]

/-- The moves inside a pass go down what the worker has left to do. -/
theorem inside_count_le {moves : List (Move T)} (h : (service T setup).Reachable s)
    (hinside : (service T setup).Obeys (State.Inside setup) s moves)
    (hrun : (service T setup).run s moves = some s') :
    (moves.filter Move.isWorker).length + s'.effort ≤ s.effort := by
  have hcount := Machine.run_count_le (fun m : Move T => m.isWorker = true) State.effort h hinside
    hrun ?_ ?_
  · simpa only [Bool.decide_eq_true] using hcount
  · intro s m s' hs _ hm hstep
    obtain ⟨hsettled, howned⟩ := owned_reach hs
    exact (effort_others (moves_of_step hstep) hsettled howned (Bool.eq_false_iff.mpr hm)).le
  · intro s m s' hs hok hm hstep
    obtain ⟨hsettled, howned⟩ := owned_reach hs
    cases m with
    | worker answer =>
      have hworker : s.stepWorker setup answer = some s' := hstep
      simp only [State.Inside, hworker] at hok
      rcases effort_lt hsettled howned (moves_of_step hstep) with hintakes | hrestarts | hless
      · exact absurd hintakes hok.1
      · exact absurd hrestarts hok.2
      · exact hless
    | _ => cases hm

/-- From the head of its loop the worker makes at most nine moves for each transfer that is
pending and each write that is quiescing, and 113 more, before it takes a message or begins
another pass, whatever it is answered and whatever the others do meanwhile. On the way it always
has a move, unless it has exited, blocks in `recv`, or waits for the pool that it is the last to
hold. -/
theorem pass_bounded {moves : List (Move T)} (h : (service T setup).Reachable s)
    (hhead : s.phase = .intake) (hinside : (service T setup).Obeys (State.Inside setup) s moves)
    (hrun : (service T setup).run s moves = some s') :
    (moves.filter Move.isWorker).length
        ≤ 113 + 9 * (s.queues.pending.length + s.queues.quiescing.length) ∧
      (s'.phase = .exited ∨ s'.Blocked ∨ s'.Joining ∨ s'.WorkerCanMove setup) := by
  refine ⟨?_, ?_⟩
  · have hcount := inside_count_le h hinside hrun
    simp only [State.effort, State.passEffort, hhead] at hcount
    omega
  · by_cases hexited : s'.phase = .exited
    · exact .inl hexited
    · by_cases hblocked : s'.Blocked
      · exact .inr (.inl hblocked)
      · by_cases hjoining : s'.Joining
        · exact .inr (.inr (.inl hjoining))
        · have hreach := h.run (Machine.obeys_true s moves) hrun
          exact .inr (.inr (.inr (never_stuck hreach hexited hblocked hjoining)))

/-- A pass that posts one write and reaps nothing, from the head of the loop to its end. -/
def postAndReap : List (Move Buffer) :=
  [.worker .none, .worker (.avInsert 1), .worker (.region .none), .worker (.region (.span none)),
    .worker (.region (.mrReg 0)), .worker (.rma 0 0 0), .worker .none, .worker (.cq [.code (-11)]),
    .worker .none, .worker .none, .worker .none, .worker .none]

/-- A pass over one pending write takes twelve moves, well within the bound. -/
theorem pass_bounded_post :
    ∃ s s', (service Buffer bufferSetup).Reachable s ∧ s.phase = .intake ∧
      s.queues.pending.length = 1 ∧
      (service Buffer bufferSetup).run s postAndReap = some s' ∧
      (postAndReap.filter Move.isWorker).length
        ≤ 113 + 9 * (s.queues.pending.length + s.queues.quiescing.length) := by
  obtain ⟨s, s', hrun, hphase, hpending, hinside, hpass⟩ :
      ∃ s s', (service Buffer bufferSetup).run (State.start bufferSetup)
          (startUp ++ [.submit (writeTo 1 (List.replicate 32 254) false 4096), .send 0,
            .worker .none]) = some s ∧
        s.phase = .intake ∧ s.queues.pending.length = 1 ∧
        (service Buffer bufferSetup).Obeys (State.Inside bufferSetup) s postAndReap ∧
        (service Buffer bufferSetup).run s postAndReap = some s' :=
    ⟨_, _, rfl, rfl, rfl, by decide +kernel, rfl⟩
  have hs := Machine.reach_run rfl _ hrun
  exact ⟨s, s', hs, hphase, hpending, hpass, (pass_bounded hs hphase hinside hpass).1⟩

end

end Vdma.Fabric
