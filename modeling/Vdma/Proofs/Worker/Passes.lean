import Vdma.Lib.Retry
import Vdma.Proofs.Worker.Traced

/-!
# `Vdma.Proofs.Worker.Passes`: the passes over the worker's queues

The worker has two queues of ops that libfabric may refuse with `-FI_EAGAIN`: the transfers that
are yet to be posted, and the completed writes that are yet to be read back. `Backlog` names them.
Each has a loop of `worker_main`, and one run of the loop is a pass over the queue.

`Backlog.observe` is what is seen of a queue when the service makes a move: the states before and
after it, and the answer libfabric gave. `passes_fair` is about every run, however long. What is
seen of a queue are the fair passes and the timely attempts of `Vdma.Lib.Retry`.

The proof follows the rules of `Retry.Run`. `Agrees` is what the service and the abstract queue
have in common, and `follows_step` takes both over one move.
-/

set_option autoImplicit false

namespace Vdma.Fabric

open Vdma.Lib

variable {T : Type}

/-! ### What is seen of a queue -/

/-- The queues that are tried in passes. -/
inductive Backlog where
  /-- The transfers that are yet to be posted. -/
  | pending
  /-- The completed writes that wait for their quiesce read. -/
  | quiescing
  deriving DecidableEq, Repr

/-- Where the worker stands in the loop over a queue. -/
inductive Place where
  | outside
  /-- About to take the next op, or to leave the loop. -/
  | head
  /-- In the call that posts an op. -/
  | trying (number : Nat) (since : Option Nat) (call : OperandCall)
  /-- About to call `finish_unreaped` for an op. -/
  | failing (number : Nat) (error : DmaError)

namespace Backlog

/-- The ops of a queue, and the time of their first refusal. -/
def entries : Backlog → State T → List (Nat × Option Nat)
  | .pending, s =>
    s.queues.pending.map fun prepared => (prepared.context, prepared.stalledSince)
  | .quiescing, s =>
    s.queues.quiescing.map fun waiting => (waiting.inflight.number, waiting.stalledSince)

/-- The ops of a queue, by number. -/
def numbers (q : Backlog) (s : State T) : List Nat := (q.entries s).map Prod.fst

/-- Where the worker stands in the loop over a queue. -/
def place : Backlog → Phase T → Place
  | .pending, .posting => .head
  | .pending, .operand prepared _ call => .trying prepared.context prepared.stalledSince call
  | .pending, .failing prepared error => .failing prepared.context error
  | .quiescing, .quiescing => .head
  | .quiescing, .quiesceOperand waiting _ call =>
    .trying waiting.inflight.number waiting.stalledSince call
  | .quiescing, .failingQuiesce op error => .failing op.number error
  | _, _ => .outside

/-- Transfers are posted up to the cap. Quiesce reads have none. -/
def isFull (setup : Setup) : Backlog → State T → Bool
  | .pending, s =>
    decide (inFlightCap setup.device setup.configuration.maxInFlight ≤ s.pass.inFlight)
  | .quiescing, _ => false

/-- The error of an op that made no progress. -/
def stuck (setup : Setup) : Backlog → DmaError
  | .pending => noProgress setup.configuration.progressDeadline
  | .quiescing => noQuiesceProgress setup.configuration.progressDeadline

/-- The ops that libfabric took, that went back to the queue, or that were completed with an error
in a move. -/
def outcomes (q : Backlog) (s s' : State T) : List (Retry.Event Nat DmaError) :=
  ((s'.wire.posts.drop s.wire.posts.length).map fun op => .posted op.context)
    ++ (((q.numbers s').drop (q.numbers s).length).map fun number => .requeued number)
    ++ (s'.queues.completions.drop s.queues.completions.length).filterMap fun completion =>
      match completion.outcome with
      | .error error => some (.failed completion.callerContext.number error)
      | .ok _ => none

/-- The `-FI_EAGAIN` in the answer of a move, for the op in hand. -/
def refusals (number : Nat) : Move T → List (Retry.Event Nat DmaError)
  | .worker (.rma code first now) =>
    if code = -fiEagain then [.refused number first now] else []
  | _ => []

/-- What is seen of a queue in a move. -/
def observe (setup : Setup) (q : Backlog) (s : State T) (m : Move T) (s' : State T) :
    List (Retry.Event Nat DmaError) :=
  match q.place s.phase, q.place s'.phase with
  | .outside, .outside => []
  | .outside, _ => [.begun (q.numbers s')]
  | .head, .head => []
  | .head, .outside => [.ended (q.isFull setup s) (q.numbers s')]
  -- An op was taken off the queue.
  | .head, _ => (q.numbers s).head?.toList.map fun number => .taken number
  | .trying number _ _, _ => refusals number m ++ q.outcomes s s'
  | .failing _ _, _ => q.outcomes s s'

end Backlog

/-! ### No op comes back -/

/-- The op was in a queue, and does not enter it again: it has left the channel, and its box has
no read for the queue of reads. -/
structure Backlog.Past (q : Backlog) (s : State T) (number : Nat) : Prop where
  sent : number < s.callers.arrivals
  taken : ∀ request ∈ transfers s.callers.channel, request.number ≠ number
  read : q = .quiescing → ∀ op, s.queues.raw.lookup number = some op → op.quiesce = none

namespace Backlog.Past

variable {setup : Setup} {q : Backlog} {s s' : State T} {m : Move T} {number : Nat}

/-- A move that takes nothing in and leaves no box with a read that it did not have. -/
theorem of_raw (h : q.Past s number) (harrivals : s.callers.arrivals ≤ s'.callers.arrivals)
    (hchannel : ∀ request ∈ transfers s'.callers.channel, request ∈ transfers s.callers.channel ∨
      request.number = s.callers.arrivals)
    (hraw : ∀ op, s'.queues.raw.lookup number = some op → op.quiesce = none ∨
      ∃ op', s.queues.raw.lookup number = some op' ∧ (op'.quiesce = none → op.quiesce = none)) :
    q.Past s' number where
  sent := h.sent.trans_le harrivals
  taken request hrequest := by
    rcases hchannel request hrequest with hold | hnew
    · exact h.taken request hold
    · rw [hnew]
      exact Nat.ne_of_gt h.sent
  read hq op hop := by
    rcases hraw op hop with hnone | ⟨op', hop', himp⟩
    · exact hnone
    · exact himp (h.read hq op' hop')

/-- Taking a message that opens no box. -/
theorem of_message (h : q.Past s number) {number' : Nat} {message : WorkerMessage (Tagged T)}
    {channel : List (Nat × WorkerMessage (Tagged T))}
    (hchannel : s.callers.channel = (number', message) :: channel)
    (harrivals : s'.callers.arrivals = s.callers.arrivals)
    (hchannel' : s'.callers.channel = channel) (hraw : s'.queues.raw = s.queues.raw) :
    q.Past s' number := by
  refine h.of_raw (Nat.le_of_eq harrivals.symm) ?_ ?_
  · intro request hrequest
    rw [hchannel'] at hrequest
    rw [hchannel]
    refine .inl ?_
    cases message with
    | transfer request' => exact .tail _ hrequest
    | addPeer client address => exact hrequest
    | removePeer client => exact hrequest
    | register base length => exact hrequest
  · intro op hop
    rw [hraw] at hop
    exact .inr ⟨op, hop, id⟩

/-- A move that takes no message and keeps the boxes. -/
theorem of_same (h : q.Past s number) (hcallers : s'.callers.arrivals = s.callers.arrivals)
    (hchannel : s'.callers.channel = s.callers.channel) (hraw : s'.queues.raw = s.queues.raw) :
    q.Past s' number := by
  refine h.of_raw (Nat.le_of_eq hcallers.symm) ?_ ?_
  · intro request hrequest
    rw [hchannel] at hrequest
    exact .inl hrequest
  · intro op hop
    rw [hraw] at hop
    exact .inr ⟨op, hop, id⟩

/-- A box leaves. -/
theorem of_erase (h : q.Past s number) {context : Nat}
    (hcallers : s'.callers = s.callers) (hraw : s'.queues.raw = s.queues.raw.erase context) :
    q.Past s' number := by
  refine h.of_raw (by rw [hcallers]) ?_ ?_
  · intro request hrequest
    rw [hcallers] at hrequest
    exact .inl hrequest
  · intro op hop
    rw [hraw] at hop
    refine .inr ⟨op, ?_, id⟩
    by_cases heq : number = context
    · rw [heq, AList.lookup_erase] at hop
      cases hop
    · rwa [AList.lookup_erase_ne heq] at hop

/-- A box with no more of a read than the op's had is put behind its pointer. -/
theorem of_insert (h : q.Past s number) {context : Nat} {op : InFlight T}
    (hcallers : s'.callers = s.callers) (hraw : s'.queues.raw = s.queues.raw.insert context op)
    (hop : op.quiesce = none ∨
      ∃ op', s.queues.raw.lookup context = some op' ∧ (op'.quiesce = none → op.quiesce = none)) :
    q.Past s' number := by
  refine h.of_raw (by rw [hcallers]) ?_ ?_
  · intro request hrequest
    rw [hcallers] at hrequest
    exact .inl hrequest
  · intro op' hop'
    rw [hraw] at hop'
    by_cases heq : number = context
    · rw [heq, AList.lookup_insert] at hop'
      cases hop'
      rw [heq]
      exact hop
    · rw [AList.lookup_insert_ne heq] at hop'
      exact .inr ⟨op', hop', id⟩

/-- Every move keeps the past. -/
theorem step [Operands T] (h : q.Past s number) (hs : Settled s) (ho : Owned s) (hb : Boxed setup s)
    (hmove : Moves setup s m s') : q.Past s' number := by
  obtain ⟨part, hmove⟩ := hmove
  cases hmove with
  | submit | sendFails | refused | dropService | thread | write | hash | finish | releasePool =>
    exact h.of_same rfl rfl rfl
  | send i request hi hphase =>
    refine h.of_raw (Nat.le_succ _) ?_ fun op hop => .inr ⟨op, hop, id⟩
    intro request' hrequest
    rw [transfers_append] at hrequest
    rcases List.mem_append.mp hrequest with hold | hnew
    · exact .inl hold
    · rw [List.mem_singleton.mp hnew]
      exact .inr rfl
  | message message hserving hmessage =>
    refine h.of_raw (Nat.le_succ _) ?_ fun op hop => .inr ⟨op, hop, id⟩
    intro request hrequest
    rw [State.enqueue, transfers_append, transfers_other hmessage] at hrequest
    exact .inl (by simpa [transfers] using hrequest)
  | accept number' request channel op prepared htakes hchannel hprepare =>
    obtain ⟨-, -, -, hcontext, -, -⟩ := prepare_ok hprepare
    -- The new box is that of an op that was in the channel.
    have hne : number ≠ prepared.context := by
      rw [hcontext]
      exact (h.taken request (by rw [hchannel]; exact .head _)).symm
    refine h.of_raw (Nat.le_refl _) ?_ ?_
    · intro request' hrequest
      rw [hchannel]
      exact .inl (.tail _ hrequest)
    · intro op' hop'
      change (s.queues.raw.insert prepared.context op).lookup number = some op' at hop'
      rw [AList.lookup_insert_ne hne] at hop'
      exact .inr ⟨op', hop', id⟩
  | refuse number' request channel completion htakes hchannel =>
    exact h.of_message hchannel rfl rfl rfl
  | addPeer number' client address inserted entry channel books htakes hchannel
  | addPeerFails number' client address inserted error channel books htakes hchannel
  | removePeer number' client channel htakes hchannel
  | pinMessage number' base length channel htakes hchannel
  | nothingToPin number' base length channel htakes hchannel =>
    exact h.of_message hchannel rfl rfl rfl
  | posted prepared entry operand now op hphase hclock hraw =>
    refine h.of_insert rfl rfl (.inr ⟨op, hraw, fun hnone => ?_⟩)
    rw [State.posted, hnone, Option.map_none]
  | quiesced waiting entry operand now hphase hclock =>
    have hhand : waiting.inflight ∈ s.phase.inHand := by rw [hphase]; exact .head _
    have hnone : waiting.inflight.quiesce = none := hb.waiting _ (List.mem_append_right _ hhand)
    exact h.of_insert rfl rfl (.inl hnone)
  | requiesce waiting entry operand since now hphase hclock
  | quiescePostFails waiting entry operand now error hphase hclock =>
    have hhand : waiting.inflight ∈ s.phase.inHand := by rw [hphase]; exact .head _
    exact h.of_same rfl rfl (Assoc.erase_insert_of_none (ho.lookup_of_inHand hhand) _)
  | failed prepared error op hphase hraw => exact h.of_erase rfl rfl
  | toQuiescing context reaped op read hphase hreaped hraw hquiesce => exact h.of_erase rfl rfl
  | toCrc context result reaped op hphase hreaped hraw hquiesce => exact h.of_erase rfl rfl
  | toCompletion context result reaped op hphase hreaped hraw hquiesce => exact h.of_erase rfl rfl
  | leftover ops raw hphase hreclaim =>
    obtain ⟨rfl, rfl, -, -⟩ := hs.leftover hphase hreclaim
    exact h.of_same rfl rfl rfl
  | dangling context hraw howned => exact (ho.backed.not_dangling hraw howned).elim
  | danglingPending hphase hreclaim => exact (hs.not_danglingPending hphase hreclaim).elim
  | _ => exact h.of_same rfl rfl rfl

end Backlog.Past

/-! ### An op enters a queue once -/

namespace Owned

variable [Operands T] {s : State T}

/-- The op of any place was sent. -/
theorem lt_arrivals (h : Owned s) {number : Nat}
    (hpos : 0 < s.owners fun context => indicator number context.number) :
    number < s.callers.arrivals := by
  rw [h.tickets] at hpos
  change 0 < (s.callers.sent.map fun request => indicator number request.number).sum at hpos
  rw [sum_map_indicator, List.count_pos_iff] at hpos
  obtain ⟨request, hrequest, rfl⟩ := List.mem_map.mp hpos
  exact h.numbered request hrequest

/-- A transfer that is taken from the channel had not been in the queue, and is in the channel no
more. -/
theorem enters_pending (h : Owned s) {number : Nat} {request : TransferRequest (Tagged T)}
    {channel : List (Nat × WorkerMessage (Tagged T))}
    (hchannel : s.callers.channel = (number, .transfer request) :: channel) :
    ¬ Backlog.Past .pending s request.number ∧ request.number < s.callers.arrivals ∧
      ∀ request' ∈ transfers channel, request'.number ≠ request.number := by
  have hle := h.owners_le request.number
  have hpos : 0 < s.owners (fun context => indicator request.number context.number) →
      request.number < s.callers.arrivals := h.lt_arrivals
  have hone : indicator request.number (returned request).number = 1 := if_pos rfl
  simp only [State.owners, hchannel, transfers_cons_transfer, List.map_cons, List.sum_cons, hone]
    at hle hpos
  refine ⟨fun hpast => ?_, hpos (by omega), fun request' hrequest heq => ?_⟩
  · exact hpast.taken request (by rw [hchannel]; exact .head _) rfl
  · have hsum := le_sum_map hrequest fun r => indicator request.number (returned r).number
    rw [show indicator request.number (returned request').number = 1 from if_pos heq] at hsum
    omega

/-- A write that is taken to its quiesce read had not been there, and is not in the channel. -/
theorem enters_quiescing (h : Owned s) {context : Nat} {op : InFlight T} {read : QuiesceRead}
    (hraw : s.queues.raw.lookup context = some op) (hquiesce : op.quiesce = some read) :
    ¬ Backlog.Past .quiescing s context ∧ context < s.callers.arrivals ∧
      ∀ request ∈ transfers s.callers.channel, request.number ≠ context := by
  have hle := h.owners_le context
  have hpos : 0 < s.owners (fun c => indicator context c.number) →
      context < s.callers.arrivals := h.lt_arrivals
  have hweight := h.le_weight hraw
  simp only [State.owners, State.live] at hle hpos
  simp only [InFlight.number] at hweight
  refine ⟨fun hpast => ?_, hpos (by omega), fun request hrequest heq => ?_⟩
  · rw [hpast.read rfl op hraw] at hquiesce
    cases hquiesce
  · have hsum := le_sum_map hrequest fun r => indicator context (returned r).number
    rw [show indicator context (returned request).number = 1 from if_pos heq] at hsum
    omega

end Owned

/-! ### Between two passes -/

section
variable [Operands T] {setup : Setup} {s s' : State T} {m : Move T}

/-- The clock does not go backwards. -/
theorem Moves.clock_le (hs : Settled s) (ho : Owned s) (hmove : Moves setup s m s') :
    s.clock ≤ s'.clock := by
  obtain ⟨part, hmove⟩ := hmove
  cases hmove with
  | posted prepared entry operand now op hphase hclock
  | requeued prepared entry operand since now hphase hclock
  | postFails prepared entry operand now error hphase hclock
  | quiesced waiting entry operand now hphase hclock
  | requiesce waiting entry operand since now hphase hclock
  | quiescePostFails waiting entry operand now error hphase hclock => exact hclock
  | dangling context hraw howned => exact (ho.backed.not_dangling hraw howned).elim
  | danglingPending hphase hreclaim => exact (hs.not_danglingPending hphase hreclaim).elim
  | _ => exact Nat.le_refl _

/-- Nobody but the worker touches what it owns. -/
theorem Moves.others (hs : Settled s) (ho : Owned s) (hmove : Moves setup s m s')
    (hm : ∀ answer, m ≠ .worker answer) :
    s'.phase = s.phase ∧ s'.pass = s.pass ∧ s'.queues = s.queues ∧ s'.wire = s.wire := by
  obtain ⟨part, hmove⟩ := hmove
  cases hmove with
  | submit | send | sendFails | message | refused | dropService | thread | write | hash | finish
  | releasePool =>
    exact ⟨rfl, rfl, rfl, rfl⟩
  | dangling context hraw howned => exact (ho.backed.not_dangling hraw howned).elim
  | danglingPending hphase hreclaim => exact (hs.not_danglingPending hphase hreclaim).elim
  | _ => exact absurd rfl (hm _)

end

/-- What a move does to a queue when the worker is not in the loop over it. -/
inductive Backlog.Rests (q : Backlog) (s s' : State T) : Prop
  | still (hentries : q.entries s' = q.entries s) (hplace : q.place s'.phase = .outside)
  | enters (number : Nat) (hnew : ¬ q.Past s number) (hpast : q.Past s' number)
      (hentries : q.entries s' = q.entries s ++ [(number, none)])
      (hplace : q.place s'.phase = .outside)
  | begins (hentries : q.entries s' = q.entries s) (hplace : q.place s'.phase = .head)
      (hattempts : s'.pass.attempts = (q.entries s).length)

namespace Backlog

variable [Operands T] {setup : Setup} {s s' : State T} {m : Move T}

/-- Transfers enter the queue in the intake. A pass over all of them follows it. -/
theorem rests_pending (hs : Settled s) (ho : Owned s) (hmove : Moves setup s m s')
    (hplace : place .pending s.phase = .outside) : Rests .pending s s' := by
  obtain ⟨part, hmove⟩ := hmove
  cases hmove with
  -- A transfer arrives: its number is new to the backlog.
  | accept number request channel op prepared htakes hchannel hprepare =>
    obtain ⟨-, -, -, hcontext, -, -⟩ := prepare_ok hprepare
    obtain ⟨hnew, hsent, htaken⟩ := ho.enters_pending hchannel
    rw [← hcontext] at hnew hsent htaken
    refine .enters prepared.context hnew ⟨hsent, htaken, ?_⟩ ?_ rfl
    · intro hq
      cases hq
    · show (s.queues.pending ++ [prepared]).map _ = _
      rw [List.map_append, List.map_singleton, stalledSince_of_prepare hprepare]
      rfl
  | turn hturn =>
    cases hturn with
    -- The pass has one attempt for each entry that is in the queue now.
    | startPosting hphase hchannel disconnected hdisconnected =>
      exact .begins rfl rfl (List.length_map _).symm
    -- That is the end of the pass, which the hypothesis excludes.
    | leavePosting hphase attempts =>
      rw [hphase] at hplace
      cases hplace
    | _ => exact .still rfl rfl
  | pinnedQuiesce base limit result phase hphase hnext =>
    rcases hnext with rfl | rfl
    · exact .still rfl rfl
    · exact .still rfl rfl
  -- At the end of the service nothing is pending.
  | leftover ops raw hphase hreclaim =>
    obtain ⟨-, -, hpending, -⟩ := hs.leftover hphase hreclaim
    refine .still ?_ rfl
    show [] = s.queues.pending.map _
    rw [hpending]
    rfl
  | dangling context hraw howned => exact (ho.backed.not_dangling hraw howned).elim
  | danglingPending hphase hreclaim => exact (hs.not_danglingPending hphase hreclaim).elim
  | submit | send | sendFails | message | refused | dropService | thread | write | hash | finish
  | releasePool =>
    exact .still rfl hplace
  | toQuiescing context reaped op read hphase | toCrc context result reaped op hphase
  | toCompletion context result reaped op hphase => exact .still rfl hplace
  -- These moves belong to an entry that is being tried.
  | attempt prepared pending inserted entry books hphase
  | attemptFails prepared pending inserted error books hphase
  | operand prepared entry call call' c region hphase
  | operandFails prepared entry error hphase
  | posted prepared entry operand now op hphase
  | requeued prepared entry operand since now hphase
  | postFails prepared entry operand now error hphase
  | failed prepared error op hphase =>
    rw [hphase] at hplace
    cases hplace
  | _ => exact .still rfl rfl

/-- Writes enter the queue when they are dispatched. A pass over all of them follows it. -/
theorem rests_quiescing (hs : Settled s) (ho : Owned s) (hmove : Moves setup s m s')
    (hplace : place .quiescing s.phase = .outside) : Rests .quiescing s s' := by
  obtain ⟨part, hmove⟩ := hmove
  cases hmove with
  -- A write's read arrives, with no refusal before it.
  | toQuiescing context reaped op read hphase hreaped hraw hquiesce =>
    obtain ⟨hnew, hsent, htaken⟩ := ho.enters_quiescing hraw hquiesce
    refine .enters context hnew ⟨hsent, htaken, ?_⟩ ?_ hplace
    · -- Its box is in the queue, and behind no pointer.
      intro _ op' hop'
      change (s.queues.raw.erase context).lookup context = some op' at hop'
      rw [AList.lookup_erase] at hop'
      cases hop'
    · show (s.queues.quiescing ++ [_]).map _ = _
      rw [List.map_append, List.map_singleton]
      show _ ++ [(op.number, none)] = _
      rw [ho.named context op hraw]
      rfl
  | turn hturn =>
    cases hturn with
    -- As for the pending entries, with the reads.
    | leaveDispatching hphase hreaped => exact .begins rfl rfl (List.length_map _).symm
    | leaveQuiescing hphase attempts =>
      rw [hphase] at hplace
      cases hplace
    | _ => exact .still rfl rfl
  | pinnedQuiesce base limit result phase hphase hnext =>
    rcases hnext with rfl | rfl
    · exact .still rfl rfl
    · exact .still rfl rfl
  | dangling context hraw howned => exact (ho.backed.not_dangling hraw howned).elim
  | danglingPending hphase hreclaim => exact (hs.not_danglingPending hphase hreclaim).elim
  | submit | send | sendFails | message | refused | dropService | thread | write | hash | finish
  | releasePool =>
    exact .still rfl hplace
  | toCrc context result reaped op hphase | toCompletion context result reaped op hphase =>
    exact .still rfl hplace
  -- These moves belong to a read that is being tried.
  | quiesce waiting quiescing inserted entry books hphase
  | quiesceFails waiting quiescing inserted error books hphase
  | quiesceOperand waiting entry call call' c region hphase
  | quiesceOperandFails waiting entry error hphase
  | quiesced waiting entry operand now hphase
  | requiesce waiting entry operand since now hphase
  | quiescePostFails waiting entry operand now error hphase
  | failedQuiesce op error hphase =>
    rw [hphase] at hplace
    cases hplace
  | _ => exact .still rfl rfl

end Backlog

/-! ### The errors of an attempt -/

/-- The error of a control operation, unlike the one of an op that made no progress. -/
def DmaError.IsControl (error : DmaError) : Prop := ∃ message, error = .fabric message

/-- A control error is not what a deadline says. -/
theorem Backlog.ne_stuck {error : DmaError} (h : error.IsControl) (setup : Setup) (q : Backlog) :
    error ≠ q.stuck setup := by
  obtain ⟨message, rfl⟩ := h
  cases q with
  | pending =>
    intro heq
    cases heq
  | quiescing =>
    intro heq
    cases heq

/-- Resolving a peer fails with a control error. -/
theorem control_insertPeer {b books : Books} {number : Nat} {client : ClientId} {address : Bytes}
    {inserted : Int} {error : DmaError}
    (h : b.insertPeer number client address inserted = (books, .error error)) :
    error.IsControl := by
  have hhandle : (b.peers.handle client address inserted).2 = .error error := congrArg Prod.snd h
  unfold PeerAddresses.handle at hhandle
  split at hhandle
  · next error' hlength =>
    cases hhandle
    unfold AddressFormat.identityLen at hlength
    split at hlength
    · split at hlength <;> cases hlength
      exact ⟨_, rfl⟩
    · cases hlength
  · dsimp only at hhandle
    split at hhandle
    · cases hhandle
    · unfold PeerAddresses.enroll at hhandle
      split at hhandle <;> cases hhandle
      exact ⟨_, rfl⟩

/-- So does resolving an operand. -/
theorem control_operandCall {setup : Setup} {pointer length : Nat} {error : DmaError}
    (h : State.operandCall setup pointer length = .failed error) : error.IsControl := by
  unfold State.operandCall OperandCall.begin at h
  split at h
  · split at h <;> cases h
    exact ⟨_, rfl⟩
  · cases h

/-- An operand fails with a control error only. -/
theorem control_step {lib : Libfabric} {domain : Domain} {c c' : Cache} {call : OperandCall}
    {answer : RegionAnswer} {error : DmaError}
    (h : call.step lib domain c answer = some (c', .failed error)) : error.IsControl := by
  unfold OperandCall.step at h
  split at h
  · split at h <;> cases h
  · split at h <;> cases h
  · next code =>
    split at h
    · split at h <;> cases h
    · next error' hcheck =>
      split at h
      · cases h
      · cases h
        unfold check at hcheck
        split at hcheck <;> cases hcheck
        exact ⟨_, rfl⟩
  · cases h
  · cases h
  · cases h

/-! ### The service and the rules -/

namespace Backlog

/-- What the worker's place says about the stage. -/
def Placed (setup : Setup) (q : Backlog) (s : State T) (stage : Retry.Stage Nat) : Prop :=
  match q.place s.phase with
  | .outside => stage = .resting
  | .head => stage = .passing s.pass.attempts none
  | .trying number since call =>
    stage = .passing s.pass.attempts (some ⟨number, since, none⟩) ∧
      ∀ error, call = .failed error → error.IsControl
  | .failing number error =>
    (∃ since, stage = .passing s.pass.attempts (some ⟨number, since, none⟩) ∧
      error ≠ q.stuck setup) ∨
    ∃ since first now,
      stage = .passing s.pass.attempts (some ⟨number, some since, some (first, now)⟩) ∧
        setup.configuration.progressDeadline ≤ now - since ∧ error = q.stuck setup

/-- What a queue of the worker has in common with a queue under the rules. -/
structure Agrees (setup : Setup) (q : Backlog) (s : State T) (a : Retry.State Nat) : Prop where
  entries : a.entries = q.entries s
  seen : ∀ number ∈ a.seen, q.Past s number
  clock : a.clock ≤ s.clock
  placed : q.Placed setup s a.stage

/-- A queue of the worker goes by the rules, with what was seen of it. -/
def Follows (setup : Setup) (q : Backlog) (s : State T) (log : List (Retry.Event Nat DmaError)) :
    Prop :=
  ∃ a, Retry.Run setup.configuration.progressDeadline (q.stuck setup) log a ∧ q.Agrees setup s a

/-- At the start no pass has begun. -/
theorem follows_start (setup : Setup) (q : Backlog) :
    q.Follows setup (State.start setup : State T) [] := by
  refine ⟨_, .start 0, ?_⟩
  cases q with
  | pending => exact ⟨rfl, fun number h => absurd h List.not_mem_nil, Nat.le_refl 0, rfl⟩
  | quiescing => exact ⟨rfl, fun number h => absurd h List.not_mem_nil, Nat.le_refl 0, rfl⟩

section
variable {setup : Setup} {q : Backlog} {s s' : State T} {log : List (Retry.Event Nat DmaError)}

/-- Nothing is seen of a move that leaves the queue, the posts and the completions as they are. -/
theorem outcomes_same (hentries : q.entries s' = q.entries s) (hwire : s'.wire = s.wire)
    (hcompletions : s'.queues.completions = s.queues.completions) : q.outcomes s s' = [] := by
  simp [outcomes, numbers, hentries, hwire, hcompletions]

/-- A move of somebody else is not seen. -/
theorem Follows.still (h : q.Follows setup s log) {m : Move T} (hm : ∀ answer, m ≠ .worker answer)
    (hphase : s'.phase = s.phase) (hpass : s'.pass = s.pass) (hqueues : s'.queues = s.queues)
    (hwire : s'.wire = s.wire) (hclock : s.clock ≤ s'.clock)
    (hpast : ∀ number, q.Past s number → q.Past s' number) :
    q.Follows setup s' (log ++ q.observe setup s m s') := by
  -- Nothing of what the log is read from changes.
  have hentries : q.entries s' = q.entries s := by
    cases q with
    | pending => rw [entries, entries, hqueues]
    | quiescing => rw [entries, entries, hqueues]
  have hrefusals : ∀ number, refusals number m = [] := by
    intro number
    cases m with
    | worker answer => exact absurd rfl (hm answer)
    | _ => rfl
  have hobserve : q.observe setup s m s' = [] := by
    rw [observe, hphase]
    cases q.place s.phase with
    | outside => rfl
    | head => rfl
    | trying number since call =>
      simp [hrefusals, outcomes_same hentries hwire (by rw [hqueues])]
    | failing number error => exact outcomes_same hentries hwire (by rw [hqueues])
  obtain ⟨a, hrun, hagrees⟩ := h
  rw [hobserve, List.append_nil]
  refine ⟨a, hrun, hagrees.entries.trans hentries.symm, fun number hnumber => ?_,
    hagrees.clock.trans hclock, ?_⟩
  · exact hpast number (hagrees.seen number hnumber)
  · have hplaced := hagrees.placed
    unfold Placed at hplaced ⊢
    rw [hphase, hpass]
    exact hplaced

/-- A move between two passes. -/
theorem Follows.rests (h : q.Follows setup s log) {m : Move T}
    (hplace : q.place s.phase = .outside) (hrests : q.Rests s s') (hclock : s.clock ≤ s'.clock)
    (hpast : ∀ number, q.Past s number → q.Past s' number) :
    q.Follows setup s' (log ++ q.observe setup s m s') := by
  obtain ⟨a, hrun, hagrees⟩ := h
  have hstage : a.stage = .resting := by
    have hplaced := hagrees.placed
    rw [Placed, hplace] at hplaced
    exact hplaced
  -- Outside a pass the backlog is left alone, takes a new entry, or begins a pass.
  cases hrests with
  | still hentries hplace' =>
    rw [observe, hplace, hplace', List.append_nil]
    refine ⟨a, hrun, hagrees.entries.trans hentries.symm,
      fun number hnumber => hpast number (hagrees.seen number hnumber),
      hagrees.clock.trans hclock, ?_⟩
    rw [Placed, hplace']
    exact hstage
  | enters number hnew hjoins hentries hplace' =>
    rw [observe, hplace, hplace', List.append_nil]
    refine ⟨_, hrun.arrive number hstage fun hseen => hnew (hagrees.seen number hseen), ?_, ?_,
      hagrees.clock.trans hclock, ?_⟩
    · rw [hentries, ← hagrees.entries]
    · intro number' hnumber'
      rcases List.mem_cons.mp hnumber' with rfl | hold
      · exact hjoins
      · exact hpast number' (hagrees.seen number' hold)
    · rw [Placed, hplace']
      exact hstage
  | begins hentries hplace' hattempts =>
    -- The pass counts the entries that are there as it begins.
    have hkeys : q.numbers s' = a.keys := by
      rw [numbers, hentries, ← hagrees.entries]
      rfl
    rw [observe, hplace, hplace']
    dsimp only
    rw [hkeys]
    refine ⟨_, hrun.begin hstage, hagrees.entries.trans hentries.symm,
      fun number hnumber => hpast number (hagrees.seen number hnumber),
      hagrees.clock.trans hclock, ?_⟩
    rw [Placed, hplace', hattempts, ← hagrees.entries]

/-! ### The rules of a pass -/

/-- The next op is taken. Its peer is resolved or not. -/
theorem Follows.take (h : q.Follows setup s log) {m : Move T} {number n : Nat}
    {since : Option Nat} {entries : List (Nat × Option Nat)} (hplace : q.place s.phase = .head)
    (hentries : q.entries s = (number, since) :: entries) (hattempts : s.pass.attempts = n + 1)
    (hplace' : (∃ call, q.place s'.phase = .trying number since call ∧
        ∀ error, call = .failed error → error.IsControl) ∨
      ∃ error, q.place s'.phase = .failing number error ∧ error.IsControl)
    (hentries' : q.entries s' = entries) (hattempts' : s'.pass.attempts = n)
    (hclock : s.clock ≤ s'.clock) (hpast : ∀ number, q.Past s number → q.Past s' number) :
    q.Follows setup s' (log ++ q.observe setup s m s') := by
  obtain ⟨a, hrun, hagrees⟩ := h
  have hstage : a.stage = .passing (n + 1) none := by
    have hplaced := hagrees.placed
    rw [Placed, hplace, hattempts] at hplaced
    exact hplaced
  have hhead : (q.numbers s).head? = some number := by
    rw [numbers, hentries]
    rfl
  -- What is seen is that the entry was taken, whether or not its attempt goes on.
  have hobserve : q.observe setup s m s' = [.taken number] := by
    rcases hplace' with ⟨call, hplace', -⟩ | ⟨error, hplace', -⟩
    · rw [observe, hplace, hplace']
      dsimp only
      rw [hhead]
      rfl
    · rw [observe, hplace, hplace']
      dsimp only
      rw [hhead]
      rfl
  rw [hobserve]
  refine ⟨_, hrun.take hstage (hagrees.entries.trans hentries), hentries'.symm,
    fun number hnumber => hpast number (hagrees.seen number hnumber),
    hagrees.clock.trans hclock, ?_⟩
  rcases hplace' with ⟨call, hplace', hcontrol⟩ | ⟨error, hplace', hcontrol⟩
  · rw [Placed, hplace', hattempts']
    exact ⟨rfl, hcontrol⟩
  · rw [Placed, hplace', hattempts']
    exact .inl ⟨since, rfl, ne_stuck hcontrol setup q⟩

/-- The loop is left. -/
theorem Follows.leave (h : q.Follows setup s log) {m : Move T} (hplace : q.place s.phase = .head)
    (hwhy : s.pass.attempts = 0 ∨ q.entries s = [] ∨ q.isFull setup s = true)
    (hplace' : q.place s'.phase = .outside) (hentries' : q.entries s' = q.entries s)
    (hclock : s.clock ≤ s'.clock) (hpast : ∀ number, q.Past s number → q.Past s' number) :
    q.Follows setup s' (log ++ q.observe setup s m s') := by
  obtain ⟨a, hrun, hagrees⟩ := h
  have hstage : a.stage = .passing s.pass.attempts none := by
    have hplaced := hagrees.placed
    rw [Placed, hplace] at hplaced
    exact hplaced
  -- An empty queue is no third reason to leave.
  have hfull : s.pass.attempts = 0 ∨ q.isFull setup s = true := by
    rcases hwhy with hzero | hnil | hfull
    · exact .inl hzero
    · -- The queue has as many ops as the pass may still take.
      have hle := hrun.attempts_le hstage
      rw [hagrees.entries, hnil] at hle
      exact .inl (Nat.le_zero.mp hle)
    · exact .inr hfull
  have hkeys : q.numbers s' = a.keys := by
    rw [numbers, hentries', ← hagrees.entries]
    rfl
  rw [observe, hplace, hplace']
  dsimp only
  rw [hkeys]
  refine ⟨_, hrun.finish hstage hfull, hagrees.entries.trans hentries'.symm,
    fun number hnumber => hpast number (hagrees.seen number hnumber),
    hagrees.clock.trans hclock, ?_⟩
  rw [Placed, hplace']

/-- The operand of the op in hand is a section further. -/
theorem Follows.goesOn (h : q.Follows setup s log) {m : Move T} {number : Nat}
    {since : Option Nat} {call call' : OperandCall}
    (hplace : q.place s.phase = .trying number since call) (hm : refusals number m = [])
    (hplace' : q.place s'.phase = .trying number since call')
    (hcontrol : ∀ error, call' = .failed error → error.IsControl)
    (hentries' : q.entries s' = q.entries s) (hwire : s'.wire = s.wire)
    (hcompletions : s'.queues.completions = s.queues.completions)
    (hattempts' : s'.pass.attempts = s.pass.attempts) (hclock : s.clock ≤ s'.clock)
    (hpast : ∀ number, q.Past s number → q.Past s' number) :
    q.Follows setup s' (log ++ q.observe setup s m s') := by
  obtain ⟨a, hrun, hagrees⟩ := h
  rw [observe, hplace]
  dsimp only
  rw [hm, outcomes_same hentries' hwire hcompletions, List.append_nil, List.append_nil]
  refine ⟨a, hrun, hagrees.entries.trans hentries'.symm,
    fun number hnumber => hpast number (hagrees.seen number hnumber),
    hagrees.clock.trans hclock, ?_⟩
  have hplaced := hagrees.placed
  rw [Placed, hplace] at hplaced
  rw [Placed, hplace', hattempts']
  exact ⟨hplaced.1, hcontrol⟩

/-- The op in hand cannot be posted, and was not refused. -/
theorem Follows.fails (h : q.Follows setup s log) {m : Move T} {number : Nat}
    {since : Option Nat} {call : OperandCall} {error : DmaError}
    (hplace : q.place s.phase = .trying number since call) (hm : refusals number m = [])
    (hplace' : q.place s'.phase = .failing number error)
    (herror : call = .failed error ∨ error.IsControl)
    (hentries' : q.entries s' = q.entries s) (hwire : s'.wire = s.wire)
    (hcompletions : s'.queues.completions = s.queues.completions)
    (hattempts' : s'.pass.attempts = s.pass.attempts) (hclock : s.clock ≤ s'.clock)
    (hpast : ∀ number, q.Past s number → q.Past s' number) :
    q.Follows setup s' (log ++ q.observe setup s m s') := by
  obtain ⟨a, hrun, hagrees⟩ := h
  have hplaced := hagrees.placed
  rw [Placed, hplace] at hplaced
  rw [observe, hplace]
  dsimp only
  -- A failure is not seen before its completion is staged.
  rw [hm, outcomes_same hentries' hwire hcompletions, List.append_nil, List.append_nil]
  refine ⟨a, hrun, hagrees.entries.trans hentries'.symm,
    fun number hnumber => hpast number (hagrees.seen number hnumber),
    hagrees.clock.trans hclock, ?_⟩
  rw [Placed, hplace', hattempts']
  have hcontrol : error.IsControl := by
    rcases herror with hfailed | hcontrol
    · exact hplaced.2 error hfailed
    · exact hcontrol
  exact .inl ⟨since, hplaced.1, ne_stuck hcontrol setup q⟩

/-- libfabric takes the op in hand. -/
theorem Follows.posts (h : q.Follows setup s log) {number first now : Nat} {since : Option Nat}
    {call : OperandCall} {op : PostedOp} (hplace : q.place s.phase = .trying number since call)
    (hplace' : q.place s'.phase = .head) (hentries' : q.entries s' = q.entries s)
    (hwire : s'.wire = s.wire.post op) (hop : op.context = number)
    (hcompletions : s'.queues.completions = s.queues.completions)
    (hattempts' : s'.pass.attempts = s.pass.attempts) (hclock : s.clock ≤ s'.clock)
    (hpast : ∀ number, q.Past s number → q.Past s' number) :
    q.Follows setup s' (log ++ q.observe setup s (.worker (.rma 0 first now)) s') := by
  obtain ⟨a, hrun, hagrees⟩ := h
  have hplaced := hagrees.placed
  rw [Placed, hplace] at hplaced
  have hobserve : q.observe setup s (.worker (.rma 0 first now)) s' = [.posted number] := by
    rw [observe, hplace]
    simp [refusals, outcomes, numbers, hentries', hwire, hcompletions, Wire.post, hop, fiEagain]
  rw [hobserve]
  refine ⟨_, hrun.post hplaced.1, hagrees.entries.trans hentries'.symm,
    fun number hnumber => hpast number (hagrees.seen number hnumber),
    hagrees.clock.trans hclock, ?_⟩
  rw [Placed, hplace', hattempts']

/-- libfabric refuses the op in hand, before its deadline. -/
theorem Follows.requeues (h : q.Follows setup s log) {number first now : Nat}
    {since : Option Nat} {call : OperandCall}
    (hplace : q.place s.phase = .trying number since call) (hfirst : s.clock ≤ first)
    (hnow : first ≤ now)
    (hearly : now - since.getD first < setup.configuration.progressDeadline)
    (hplace' : q.place s'.phase = .head)
    (hentries' : q.entries s' = q.entries s ++ [(number, some (since.getD first))])
    (hwire : s'.wire = s.wire) (hcompletions : s'.queues.completions = s.queues.completions)
    (hattempts' : s'.pass.attempts = s.pass.attempts) (hclock' : s'.clock = now)
    (hpast : ∀ number, q.Past s number → q.Past s' number) :
    q.Follows setup s' (log ++ q.observe setup s (.worker (.rma (-fiEagain) first now)) s') := by
  obtain ⟨a, hrun, hagrees⟩ := h
  have hplaced := hagrees.placed
  rw [Placed, hplace] at hplaced
  -- One refusal, then the entry at the end of the queue.
  have hobserve : q.observe setup s (.worker (.rma (-fiEagain) first now)) s'
      = [.refused number first now] ++ [.requeued number] := by
    rw [observe, hplace]
    simp [refusals, outcomes, numbers, hentries', hwire, hcompletions]
  rw [hobserve, ← List.append_assoc]
  have hrefuse := hrun.refuse hplaced.1 (hagrees.clock.trans hfirst) hnow
  refine ⟨_, hrefuse.requeue rfl hearly, ?_,
    fun number hnumber => hpast number (hagrees.seen number hnumber), Nat.le_of_eq hclock'.symm, ?_⟩
  · rw [hentries', ← hagrees.entries]
  · rw [Placed, hplace', hattempts']

/-- libfabric refuses the op in hand, past its deadline. -/
theorem Follows.givesUp (h : q.Follows setup s log) {number first now : Nat}
    {since : Option Nat} {call : OperandCall}
    (hplace : q.place s.phase = .trying number since call) (hfirst : s.clock ≤ first)
    (hnow : first ≤ now)
    (hlate : setup.configuration.progressDeadline ≤ now - since.getD first)
    (hplace' : q.place s'.phase = .failing number (q.stuck setup))
    (hentries' : q.entries s' = q.entries s) (hwire : s'.wire = s.wire)
    (hcompletions : s'.queues.completions = s.queues.completions)
    (hattempts' : s'.pass.attempts = s.pass.attempts) (hclock' : s'.clock = now)
    (hpast : ∀ number, q.Past s number → q.Past s' number) :
    q.Follows setup s' (log ++ q.observe setup s (.worker (.rma (-fiEagain) first now)) s') := by
  obtain ⟨a, hrun, hagrees⟩ := h
  have hplaced := hagrees.placed
  rw [Placed, hplace] at hplaced
  -- The refusal alone is seen; the completion comes with the next move.
  have hobserve : q.observe setup s (.worker (.rma (-fiEagain) first now)) s'
      = [.refused number first now] := by
    rw [observe, hplace]
    dsimp only
    rw [outcomes_same hentries' hwire hcompletions, List.append_nil, refusals, if_pos rfl]
  rw [hobserve]
  refine ⟨_, hrun.refuse hplaced.1 (hagrees.clock.trans hfirst) hnow,
    hagrees.entries.trans hentries'.symm,
    fun number hnumber => hpast number (hagrees.seen number hnumber), Nat.le_of_eq hclock'.symm, ?_⟩
  rw [Placed, hplace', hattempts']
  exact .inr ⟨since.getD first, first, now, rfl, hlate, rfl⟩

/-- `finish_unreaped` completes the op in hand with its error. -/
theorem Follows.finishUnreaped (h : q.Follows setup s log) {m : Move T} {number : Nat}
    {error : DmaError} {completion : Completion (Tagged T)}
    (hplace : q.place s.phase = .failing number error) (hplace' : q.place s'.phase = .head)
    (hentries' : q.entries s' = q.entries s) (hwire : s'.wire = s.wire)
    (hcompletions : s'.queues.completions = s.queues.completions ++ [completion])
    (hnumber : completion.number = number) (houtcome : completion.outcome = .error error)
    (hattempts' : s'.pass.attempts = s.pass.attempts) (hclock : s.clock ≤ s'.clock)
    (hpast : ∀ number, q.Past s number → q.Past s' number) :
    q.Follows setup s' (log ++ q.observe setup s m s') := by
  obtain ⟨a, hrun, hagrees⟩ := h
  have hplaced := hagrees.placed
  rw [Placed, hplace] at hplaced
  have hobserve : q.observe setup s m s' = [.failed number error] := by
    rw [observe, hplace]
    simp [outcomes, numbers, hentries', hwire, hcompletions, houtcome, ← hnumber, Completion.number]
  rw [hobserve]
  -- Either the attempt failed, or the deadline was over.
  rcases hplaced with ⟨since, hstage, hne⟩ | ⟨since, first, now, hstage, hlate, rfl⟩
  · refine ⟨_, hrun.fail hstage hne, hagrees.entries.trans hentries'.symm,
      fun number hnumber => hpast number (hagrees.seen number hnumber),
      hagrees.clock.trans hclock, ?_⟩
    rw [Placed, hplace', hattempts']
  · refine ⟨_, hrun.giveUp hstage hlate, hagrees.entries.trans hentries'.symm,
      fun number hnumber => hpast number (hagrees.seen number hnumber),
      hagrees.clock.trans hclock, ?_⟩
    rw [Placed, hplace', hattempts']

/-! ### The posting loop -/

variable {answer : Answer}

/-- The posting loop begins a pass, takes an entry of it, or leaves it. -/
theorem follows_posting (h : Follows setup .pending s log) (hphase : s.phase = .posting)
    (hclock : s.clock ≤ s'.clock)
    (hpast : ∀ number, Past .pending s number → Past .pending s' number)
    (hstep : s.stepPosting setup answer = some s') :
    Follows setup .pending s' (log ++ observe setup .pending s (.worker answer) s') := by
  have hplace : place .pending s.phase = .head := by rw [hphase]; rfl
  unfold State.stepPosting at hstep
  split at hstep
  · next hroom =>
    have hattempts : s.pass.attempts = s.pass.attempts - 1 + 1 := by omega
    dsimp only at hstep
    split at hstep
    · next hpending =>
      -- `pop_front` finds nothing.
      cases hstep
      refine h.leave hplace (.inr (.inl ?_)) rfl rfl hclock hpast
      rw [entries, hpending]
      rfl
    · next prepared pending inserted hpending =>
      have hentries : entries .pending s = (prepared.context, prepared.stalledSince)
          :: pending.map fun prepared => (prepared.context, prepared.stalledSince) := by
        rw [entries, hpending]
        rfl
      cases hinsert : s.books.insertPeer prepared.context prepared.clientId prepared.peerAddress
          inserted with
      | mk books result =>
        cases result with
        | ok entry =>
          simp only [hinsert] at hstep
          cases hstep
          exact h.take hplace hentries hattempts
            (.inl ⟨_, rfl, fun error => control_operandCall⟩) rfl rfl hclock hpast
        | error error =>
          simp only [hinsert] at hstep
          cases hstep
          exact h.take hplace hentries hattempts
            (.inr ⟨error, rfl, control_insertPeer hinsert⟩) rfl rfl hclock hpast
    · cases hstep
  · next hroom =>
    -- The attempts are used up, or `max_in_flight` ops are.
    split at hstep <;> cases hstep
    refine h.leave hplace ?_ rfl rfl hclock hpast
    by_cases hzero : s.pass.attempts = 0
    · exact .inl hzero
    · refine .inr (.inr ?_)
      rw [isFull, decide_eq_true_eq]
      omega

/-- An attempt at posting is refused, gives up, fails for good or settles its entry. -/
theorem follows_operand (h : Follows setup .pending s log) (hb : Backed s) {prepared : Prepared}
    {entry : Nat} {call : OperandCall} (hphase : s.phase = .operand prepared entry call)
    (hclock : s.clock ≤ s'.clock)
    (hpast : ∀ number, Past .pending s number → Past .pending s' number)
    (hstep : s.stepOperand setup prepared entry call answer = some s') :
    Follows setup .pending s' (log ++ observe setup .pending s (.worker answer) s') := by
  have hplace : place .pending s.phase
      = .trying prepared.context prepared.stalledSince call := by rw [hphase]; rfl
  unfold State.stepOperand at hstep
  split at hstep
  · next operand code first now =>
    split at hstep
    · next hreadings =>
      have hpost := Option.some.inj hstep
      unfold State.postOperand at hpost
      split at hpost
      · next hcode =>
        subst hcode
        split at hpost
        · next hraw =>
          -- The box of a prepared op is there.
          refine absurd hraw (hb.prepared prepared ?_)
          rw [hphase]
          exact List.mem_singleton_self _
        · next op hraw =>
          subst hpost
          exact h.posts hplace rfl rfl rfl rfl rfl rfl hclock hpast
      · next hcode =>
        dsimp only at hpost
        split at hpost
        · next hagain =>
          subst hagain
          split at hpost
          · next hearly =>
            subst hpost
            refine h.requeues hplace hreadings.1 hreadings.2 hearly rfl ?_ rfl rfl rfl rfl hpast
            show (s.queues.pending ++ [_]).map _ = _
            rw [List.map_append]
            rfl
          · next hlate =>
            subst hpost
            exact h.givesUp hplace hreadings.1 hreadings.2 (Nat.le_of_not_lt hlate) rfl rfl rfl rfl
              rfl rfl hpast
        · next hother =>
          subst hpost
          exact h.fails hplace (if_neg hother) rfl (.inr ⟨_, rfl⟩) rfl rfl rfl rfl hclock hpast
    · cases hstep
  · next error =>
    cases hstep
    exact h.fails hplace rfl rfl (.inl rfl) rfl rfl rfl rfl hclock hpast
  · next region =>
    rw [Option.map_eq_some_iff] at hstep
    obtain ⟨⟨c, call'⟩, hcall, rfl⟩ := hstep
    refine h.goesOn hplace rfl rfl ?_ rfl rfl rfl rfl hclock hpast
    -- An operand fails with an error of its own, never with the deadline's.
    intro error herror
    change call' = .failed error at herror
    rw [herror] at hcall
    exact control_step hcall
  · cases hstep

/-- An attempt that fails is the last of its entry. -/
theorem follows_failing (h : Follows setup .pending s log) (hb : Backed s)
    (hnamed : ∀ context op, s.queues.raw.lookup context = some op → op.number = context)
    {prepared : Prepared} {error : DmaError} (hphase : s.phase = .failing prepared error)
    (hclock : s.clock ≤ s'.clock)
    (hpast : ∀ number, Past .pending s number → Past .pending s' number)
    (hstep : s.stepFailing setup prepared error = s') :
    Follows setup .pending s' (log ++ observe setup .pending s (.worker answer) s') := by
  have hplace : place .pending s.phase = .failing prepared.context error := by rw [hphase]; rfl
  unfold State.stepFailing reclaim at hstep
  cases hraw : s.queues.raw.lookup prepared.context with
  | none =>
    refine absurd hraw (hb.prepared prepared ?_)
    rw [hphase]
    exact List.mem_singleton_self _
  | some op =>
    rw [hraw] at hstep
    subst hstep
    exact h.finishUnreaped hplace rfl rfl rfl rfl (hnamed _ op hraw) rfl rfl hclock hpast

/-! ### The quiesce loop -/

/-- The quiesce loop begins a pass, takes an entry of it, or leaves it. -/
theorem follows_quiescing (h : Follows setup .quiescing s log) (hphase : s.phase = .quiescing)
    (hclock : s.clock ≤ s'.clock)
    (hpast : ∀ number, Past .quiescing s number → Past .quiescing s' number)
    (hstep : s.stepQuiescing setup answer = some s') :
    Follows setup .quiescing s' (log ++ observe setup .quiescing s (.worker answer) s') := by
  have hplace : place .quiescing s.phase = .head := by rw [hphase]; rfl
  unfold State.stepQuiescing at hstep
  split at hstep
  · next hroom =>
    have hattempts : s.pass.attempts = s.pass.attempts - 1 + 1 := by omega
    dsimp only at hstep
    split at hstep
    · next hquiescing =>
      cases hstep
      refine h.leave hplace (.inr (.inl ?_)) rfl rfl hclock hpast
      rw [entries, hquiescing]
      rfl
    · next waiting quiescing inserted hquiescing =>
      have hentries : entries .quiescing s = (waiting.inflight.number, waiting.stalledSince)
          :: quiescing.map fun waiting => (waiting.inflight.number, waiting.stalledSince) := by
        rw [entries, hquiescing]
        rfl
      cases hinsert : s.books.insertPeer waiting.inflight.number waiting.inflight.clientId
          waiting.read.peerAddress inserted with
      | mk books result =>
        cases result with
        | ok entry =>
          simp only [hinsert] at hstep
          cases hstep
          exact h.take hplace hentries hattempts
            (.inl ⟨_, rfl, fun error => control_operandCall⟩) rfl rfl hclock hpast
        | error error =>
          simp only [hinsert] at hstep
          cases hstep
          exact h.take hplace hentries hattempts
            (.inr ⟨error, rfl, control_insertPeer hinsert⟩) rfl rfl hclock hpast
    · cases hstep
  · next hroom =>
    split at hstep <;> cases hstep
    -- No cap: the loop ends with its attempts.
    exact h.leave hplace (.inl (by omega)) rfl rfl hclock hpast

/-- An attempt at a quiesce read ends as an attempt at posting does. -/
theorem follows_quiesceOperand (h : Follows setup .quiescing s log) {waiting : Quiescing T}
    {entry : Nat} {call : OperandCall} (hphase : s.phase = .quiesceOperand waiting entry call)
    (hclock : s.clock ≤ s'.clock)
    (hpast : ∀ number, Past .quiescing s number → Past .quiescing s' number)
    (hstep : s.stepQuiesceOperand setup waiting entry call answer = some s') :
    Follows setup .quiescing s' (log ++ observe setup .quiescing s (.worker answer) s') := by
  have hplace : place .quiescing s.phase
      = .trying waiting.inflight.number waiting.stalledSince call := by rw [hphase]; rfl
  unfold State.stepQuiesceOperand at hstep
  split at hstep
  · next operand code first now =>
    split at hstep
    · next hreadings =>
      have hpost := Option.some.inj hstep
      unfold State.postQuiesce at hpost
      dsimp only at hpost
      split at hpost
      · next hcode =>
        subst hcode
        subst hpost
        exact h.posts hplace rfl rfl rfl rfl rfl rfl hclock hpast
      · next hcode =>
        -- The box that comes back is the one that went behind its pointer.
        rw [show InFlight.number { waiting.inflight with localLease := operand.lease }
          = waiting.inflight.number from rfl, reclaim_insert] at hpost
        dsimp only at hpost
        split at hpost
        · next hagain =>
          subst hagain
          split at hpost
          · next hearly =>
            subst hpost
            refine h.requeues hplace hreadings.1 hreadings.2 hearly rfl ?_ rfl rfl rfl rfl hpast
            show (s.queues.quiescing ++ [_]).map _ = _
            rw [List.map_append]
            rfl
          · next hlate =>
            subst hpost
            exact h.givesUp hplace hreadings.1 hreadings.2 (Nat.le_of_not_lt hlate) rfl rfl rfl rfl
              rfl rfl hpast
        · next hother =>
          subst hpost
          exact h.fails hplace (if_neg hother) rfl (.inr ⟨_, rfl⟩) rfl rfl rfl rfl hclock hpast
    · cases hstep
  · next error =>
    cases hstep
    exact h.fails hplace rfl rfl (.inl rfl) rfl rfl rfl rfl hclock hpast
  · cases hstep
  · next region hnone =>
    rw [Option.map_eq_some_iff] at hstep
    obtain ⟨⟨c, call'⟩, hcall, rfl⟩ := hstep
    refine h.goesOn hplace rfl rfl ?_ rfl rfl rfl rfl hclock hpast
    intro error herror
    change call' = .failed error at herror
    rw [herror] at hcall
    exact control_step hcall
  · cases hstep

/-! ### A move, and a run -/

end

/-- Every move of the service goes by the rules. -/
theorem Follows.step [Operands T] {setup : Setup} {q : Backlog} {s s' : State T} {m : Move T}
    {log : List (Retry.Event Nat DmaError)} (h : q.Follows setup s log) (hs : Settled s)
    (ho : Owned s) (hb : Boxed setup s) (hstep : (service T setup).step s m = some s') :
    q.Follows setup s' (log ++ q.observe setup s m s') := by
  have hmove := moves_of_step hstep
  have hclock := hmove.clock_le hs ho
  have hpast : ∀ number, q.Past s number → q.Past s' number :=
    fun number hnumber => hnumber.step hs ho hb hmove
  cases m with
  -- Only the worker looks at a backlog: outside a pass, or at one of its own phases.
  | worker answer =>
    change s.stepWorker setup answer = some s' at hstep
    by_cases hplace : q.place s.phase = .outside
    · cases q with
      | pending => exact h.rests hplace (rests_pending hs ho hmove hplace) hclock hpast
      | quiescing => exact h.rests hplace (rests_quiescing hs ho hmove hplace) hclock hpast
    · unfold State.stepWorker at hstep
      cases q with
      | pending =>
        cases hphase : s.phase with
        -- The phases of a pass over the pending entries.
        | posting =>
          rw [hphase] at hstep
          exact follows_posting h hphase hclock hpast hstep
        | operand prepared entry call =>
          rw [hphase] at hstep
          exact follows_operand h ho.backed hphase hclock hpast hstep
        | failing prepared error =>
          rw [hphase] at hstep
          dsimp only at hstep
          split at hstep
          · exact follows_failing h ho.backed ho.named hphase hclock hpast (Option.some.inj hstep)
          · cases hstep
        | _ =>
          rw [hphase] at hplace
          exact absurd rfl hplace
      | quiescing =>
        cases hphase : s.phase with
        -- The phases of a pass over the reads.
        | quiescing =>
          rw [hphase] at hstep
          exact follows_quiescing h hphase hclock hpast hstep
        | quiesceOperand waiting entry call =>
          rw [hphase] at hstep
          exact follows_quiesceOperand h hphase hclock hpast hstep
        | failingQuiesce op error =>
          rw [hphase] at hstep
          dsimp only at hstep
          split at hstep
          · cases hstep
            exact h.finishUnreaped (by rw [hphase]; rfl) rfl rfl rfl rfl rfl rfl rfl hclock hpast
          · cases hstep
        | _ =>
          rw [hphase] at hplace
          exact absurd rfl hplace
  | _ =>
    -- The pool, the callers and the other threads leave both backlogs alone.
    obtain ⟨hphase, hpass, hqueues, hwire⟩ := hmove.others hs ho (by intro answer heq; cases heq)
    exact h.still (by intro answer heq; cases heq) hphase hpass hqueues hwire hclock hpast

/-- In every run the queues go by the rules. -/
theorem Follows.reach [Operands T] {setup : Setup} {q : Backlog}
    {s : State T × List (Retry.Event Nat DmaError)}
    (h : ((service T setup).observing (q.observe setup)).Reachable s) :
    q.Follows setup s.1 s.2 := by
  refine h.invariant_observed (J := fun s => Settled s ∧ Owned s ∧ Boxed setup s)
    (I := fun s => q.Follows setup s.1 s.2) ?_ ?_ ?_
  · intro s hs
    obtain ⟨hsettled, howned⟩ := owned_reach hs
    exact ⟨hsettled, howned, boxed_reach hs⟩
  · intro s hinit
    rw [show s = State.start setup from hinit]
    exact follows_start setup q
  · intro s log m s' hs hstep hfollows
    exact hfollows.step hs.1 hs.2.1 hs.2.2 hstep

end Backlog

/-- A stalled op neither blocks the others nor outlives its deadline. What is seen of either queue
in a run are passes: each attempts the ops it began with once, in order, and all of them unless the
transfers reach the cap, and it leaves the rest in the old order before those that were refused.
Each attempt is posted, put off, or completed with an error, and it is put off or given up for lack
of progress just as its answer came before or after the deadline. -/
theorem passes_fair [Operands T] (setup : Setup) (q : Backlog)
    {s : State T × List (Retry.Event Nat DmaError)}
    (h : ((service T setup).observing (q.observe setup)).Reachable s) :
    ∃ passes, s.2 = passes.flatMap Retry.Pass.events ∧
      Retry.Lawful setup.configuration.progressDeadline (q.stuck setup) passes := by
  obtain ⟨a, hrun, -⟩ := Backlog.Follows.reach h
  obtain ⟨passes, hlog, htells⟩ := hrun.lawful
  exact ⟨passes, hlog, htells.lawful⟩

/-- One attempt at a write, refused at a reading of the clock. -/
def refuseWrite (now : Nat) : List (Move Buffer) :=
  [.worker .none, .worker (.avInsert 1), .worker (.region .none), .worker (.region (.span none)),
    .worker (.region (.mrReg 0)), .worker (.rma (-11) now now)]

/-- A write is refused, and refused again a deadline later. The first pass puts it off, and the
second one fails it. -/
theorem passes_fair_stalled :
    ∃ s, ((service Buffer bufferSetup).observing (Backlog.observe bufferSetup .pending)).run
        (State.start bufferSetup, [])
        (startUp ++ [.submit (writeTo 1 (List.replicate 32 254) false 4096), .send 0, .worker .none]
          ++ refuseWrite 5 ++ reapNothing ++ refuseWrite 1000000005
          ++ [.worker .none, .worker .none])
        = some s ∧
      s.2 = [.begun [0], .taken 0, .refused 0 5 5, .requeued 0, .ended false [0], .begun [0],
        .taken 0, .refused 0 1000000005 1000000005, .failed 0 (noProgress 1000000000),
        .ended false []] ∧
      ∃ passes, s.2 = passes.flatMap Retry.Pass.events ∧
        Retry.Lawful 1000000000 (noProgress 1000000000) passes := by
  obtain ⟨s, hrun, hlog⟩ :
      ∃ s, ((service Buffer bufferSetup).observing (Backlog.observe bufferSetup .pending)).run
          (State.start bufferSetup, [])
          (startUp ++
            [.submit (writeTo 1 (List.replicate 32 254) false 4096), .send 0, .worker .none]
            ++ refuseWrite 5 ++ reapNothing ++ refuseWrite 1000000005
            ++ [.worker .none, .worker .none]) = some s ∧
        s.2 = [.begun [0], .taken 0, .refused 0 5 5, .requeued 0, .ended false [0], .begun [0],
          .taken 0, .refused 0 1000000005 1000000005, .failed 0 (noProgress 1000000000),
          .ended false []] :=
    ⟨_, rfl, rfl⟩
  have hinit : ((service Buffer bufferSetup).observing (Backlog.observe bufferSetup .pending)).init
      (State.start bufferSetup, []) := ⟨rfl, rfl⟩
  exact ⟨s, hrun, hlog, passes_fair bufferSetup .pending (Machine.reach_run hinit _ hrun)⟩

end Vdma.Fabric
