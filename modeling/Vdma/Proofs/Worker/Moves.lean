import Vdma.Fabric.System

/-!
# `Vdma.Proofs.Worker.Moves`: everything a move can do

`Moves setup s m s'` lists the transitions of the service machine, one constructor for
each outcome of a move, with the facts that single it out. `moves_of_step` shows that
every step is in the list. The invariants are proved by cases on it, and none of them
looks into the step function.

A constructor with several similar origins takes what differs as an argument: `turn`
is a change of phase that moves nothing, and its origins are the constructors of
`Turn`.

A phase may have something in hand: a prepared op (`Phase.prepared`), a reclaimed box
(`Phase.inHand`), leases (`Phase.held`), and a clone of a peer's entry (`Phase.peer`).
-/

set_option autoImplicit false

namespace Vdma.Fabric

open Vdma.Lib

variable {T : Type}

namespace Phase

/-- The prepared op in hand. -/
def prepared : Phase T → List Prepared
  | .operand prepared _ _ => [prepared]
  | .failing prepared _ => [prepared]
  | _ => []

/-- The box in hand. -/
def inHand : Phase T → List (InFlight T)
  | .quiesceOperand waiting _ _ => [waiting.inflight]
  | .failingQuiesce op _ => [op]
  | _ => []

/-- The leases in hand, on `r`, beside the one of the box. -/
def held (r : Nat) : Phase T → Nat
  | .pinning _ _ _ call => call.held r
  | .operand _ _ call => call.held r
  | .quiesceOperand _ _ call => call.held r
  | .dropping cleared => cleared.count r
  | _ => 0

/-- The entry the worker has a clone of. -/
def peer : Phase T → Option Nat
  | .operand _ entry _ => some entry
  | .quiesceOperand _ entry _ => some entry
  | _ => none

/-- What the worker posts against: the entry it has a clone of, for a client, at an
address. -/
def target : Phase T → Option (Nat × ClientId × Bytes)
  | .operand prepared entry _ => some (entry, prepared.clientId, prepared.peerAddress)
  | .quiesceOperand waiting entry _ =>
    some (entry, waiting.inflight.clientId, waiting.read.peerAddress)
  | _ => none

/-- The entry in hand is the one of the target. -/
theorem peer_eq (phase : Phase T) : phase.peer = phase.target.map Prod.fst := by
  cases phase <;> rfl

/-- Nothing in hand. -/
structure Rests (phase : Phase T) : Prop where
  prepared : phase.prepared = []
  inHand : phase.inHand = []
  held : ∀ r, phase.held r = 0
  peer : phase.peer = none

/-- A worker with nothing in hand posts for nobody. -/
theorem Rests.target {phase : Phase T} (h : phase.Rests) : phase.target = none := by
  have hpeer := h.peer
  rw [peer_eq, Option.map_eq_none_iff] at hpeer
  exact hpeer

/-- The head of the loop has nothing in hand. -/
theorem rests_intake : (intake : Phase T).Rests := ⟨rfl, rfl, fun _ => rfl, rfl⟩

end Phase

namespace State

/-- What a worker move resolves: the message, the client and the address. -/
def resolves (s : State T) : Move T → Option (Nat × ClientId × Bytes)
  | .worker (.avInsert _) =>
    match s.phase with
    | .posting =>
      match s.queues.pending with
      | prepared :: _ => some (prepared.context, prepared.clientId, prepared.peerAddress)
      | [] => none
    | .quiescing =>
      match s.queues.quiescing with
      | waiting :: _ =>
        some (waiting.inflight.number, waiting.inflight.clientId, waiting.read.peerAddress)
      | [] => none
    | _ =>
      match s.callers.channel with
      | (number, .addPeer client address) :: _ => some (number, client, address)
      | _ => none
  | _ => none

/-- The channel after its head was taken. -/
def popped (s : State T) (channel : List (Nat × WorkerMessage (Tagged T))) : State T :=
  { s with callers := { s.callers with channel := channel } }

/-- A message was answered. -/
def answered (s : State T) (number : Nat) (result : Except DmaError Unit) : State T :=
  { s with callers := { s.callers with answers := s.callers.answers ++ [(number, result)] } }

end State

/-- The phases in which the worker takes a message. -/
inductive Takes (s : State T) : Prop
  | intake (h : s.phase = .intake)
  | parking (h : s.phase = .parking) (hidle : s.pass.idle = true)

/-- A message is taken with nothing in hand. -/
theorem Takes.rests {s : State T} (h : Takes s) : s.phase.Rests := by
  cases h with
  | intake h =>
    rw [h]
    exact ⟨rfl, rfl, fun _ => rfl, rfl⟩
  | parking h hidle =>
    rw [h]
    exact ⟨rfl, rfl, fun _ => rfl, rfl⟩

/-- A move of a caller. -/
def Move.isCaller : Move T → Bool
  | .submit _ => true
  | .send _ => true
  | .addPeer _ _ => true
  | .removePeer _ => true
  | .register _ _ => true
  | .dropService => true
  | _ => false

/-- A refused post of an entry that was first refused at `stalledSince`. `since` is kept with it,
and the deadline is not up at `now`. -/
def Answer.Refuses (setup : Setup) (stalledSince : Option Nat) (since now : Nat) (answer : Answer) :
    Prop :=
  ∃ code first, answer = .rma code first now ∧ since = stalledSince.getD first ∧
    now - since < setup.configuration.progressDeadline

/-- A change of phase and pass that moves nothing. -/
inductive Turn (setup : Setup) (s : State T) : Phase T → Pass → Prop
  | begin (h : s.phase = .starting) : Turn setup s .announcing s.pass
  | giveUp (h : s.phase = .announcing) : Turn setup s .clearing s.pass
  | startPosting (h : s.phase = .intake) (hchannel : s.callers.channel = []) (disconnected : Bool)
      (hdisconnected : disconnected = true →
        s.pass.disconnected = true ∨ s.callers.service = .dropped) :
      Turn setup s .posting
        { s.pass with
          posted := 0, attempts := s.queues.pending.length, disconnected := disconnected }
  | leavePosting (h : s.phase = .posting) (attempts : Nat)
      (hleave : s.pass.inFlight < inFlightCap setup.device setup.configuration.maxInFlight →
        0 < s.pass.attempts → s.queues.pending = []) :
      Turn setup s .reaping { s.pass with attempts := attempts }
  | leaveDispatching (h : s.phase = .dispatching) (hreaped : s.queues.reaped = []) :
      Turn setup s .quiescing { s.pass with attempts := s.queues.quiescing.length }
  | leaveQuiescing (h : s.phase = .quiescing) (attempts : Nat)
      (hleave : 0 < s.pass.attempts → s.queues.quiescing = []) :
      Turn setup s .flushing { s.pass with attempts := attempts }
  | skipFlush (h : s.phase = .flushing)
      (hflush : shouldFlushCrc s.queues.crcPending.length s.pass.posted s.pass.reapedAny s.isIdle
        = false) :
      Turn setup s .completing { s.pass with idle := s.isIdle }
  | spin (h : s.phase = .completing) (hspins : s.pass.drainSpins < 10) :
      Turn setup s .intake { s.pass with drainSpins := s.pass.drainSpins + 1 }
  | park (h : s.phase = .completing) (hcompletions : s.queues.completions = []) :
      Turn setup s .parking s.pass
  | again (h : s.phase = .parking) (hidle : s.pass.idle = false) : Turn setup s .intake s.pass
  | exit (h : s.phase = .parking) (hidle : s.pass.idle = true)
      (hend : s.pass.disconnected = true ∨
        s.callers.channel = [] ∧ s.callers.service = .dropped) :
      Turn setup s .exiting s.pass

/-- Both ends of a change of phase have nothing in hand, and it leaves what is in flight. -/
theorem Turn.rests {setup : Setup} {s : State T} {phase : Phase T} {pass : Pass}
    (h : Turn setup s phase pass) :
    s.phase.Rests ∧ phase.Rests ∧ pass.inFlight = s.pass.inFlight := by
  cases h
  all_goals
    refine ⟨?_, ⟨rfl, rfl, fun _ => rfl, rfl⟩, rfl⟩
    rw [‹s.phase = _›]
    exact ⟨rfl, rfl, fun _ => rfl, rfl⟩

/-- The parts of the machine. Each has its moves. -/
inductive Part where
  | callers
  /-- The other threads, memory, and the pool. -/
  | others
  /-- The worker changes its phase, and moves nothing. -/
  | turning
  /-- The worker starts up, or is in a pin. -/
  | pinning
  | intake
  | posting
  | reaping
  | quiescing
  /-- The end of a pass, and of the worker. -/
  | ending
  /-- A pointer the worker owns points to nothing. -/
  | dangling

/-- The outcomes of a move of a part. -/
inductive MovesIn [Operands T] (setup : Setup) (s : State T) : Part → Move T → State T → Prop
  | submit (request : TransferRequest T) (hserving : s.callers.service = .serving) :
      MovesIn setup s .callers (.submit request)
        { s with
          books := { s.books with outstanding := s.books.outstanding + 1 }
          callers := { s.callers with submitting := s.callers.submitting ++ [request] } }
  | send (i : Nat) (request : TransferRequest T) (hi : s.callers.submitting[i]? = some request)
      (hphase : s.phase ≠ .exited) :
      MovesIn setup s .callers (.send i)
        { s with
          callers :=
            { s.callers with
              submitting := s.callers.submitting.eraseIdx i
              sent := s.callers.sent ++ [State.tagRequest s.callers.arrivals request]
              arrivals := s.callers.arrivals + 1
              channel :=
                s.callers.channel ++
                  [(s.callers.arrivals,
                    .transfer (State.tagRequest s.callers.arrivals request))] } }
  | sendFails (i : Nat) (request : TransferRequest T)
      (hi : s.callers.submitting[i]? = some request) (hphase : s.phase = .exited) :
      MovesIn setup s .callers (.send i)
        { s with
          callers := { s.callers with submitting := s.callers.submitting.eraseIdx i }
          books := s.books.releaseOutstanding }
  | message {m : Move T} (message : WorkerMessage (Tagged T))
      (hserving : s.callers.service = .serving)
      (hmessage : ∀ request, message ≠ .transfer request) (hm : m.isCaller = true) :
      MovesIn setup s .callers m (s.enqueue message)
  | refused {m : Move T} (hm : m.isCaller = true) : MovesIn setup s .callers m s
  | dropService (hserving : s.callers.service = .serving)
      (hsubmitting : s.callers.submitting = []) :
      MovesIn setup s .callers .dropService
        { s with callers := { s.callers with service := .dropped } }
  | thread (step : ThreadStep) (c : Cache) (threads : List Nat)
      (hstep : step.run setup.device.domain s.cache s.threads = some (c, threads)) :
      MovesIn setup s .others (.thread step) { s with cache := c, threads := threads }
  | write (memory : Nat → UInt8) :
      MovesIn setup s .others (.write memory) { s with memory := memory }
  | hash (before after : List (Job T)) (op : InFlight T) (result : Except DmaError Unit)
      (batch : List (ReapedOp T)) (done : List (Completion (Tagged T)))
      (hpool : s.pool = before ++ ⟨(op, result) :: batch, done⟩ :: after) :
      MovesIn setup s .others (.hash before.length)
        { s with
          cache := s.cache.dropLease op.localLease
          pool :=
            before ++ ⟨batch, done ++ [op.intoCompletion (s.crc setup) result]⟩ :: after }
  | finish (before after : List (Job T)) (done : List (Completion (Tagged T)))
      (hpool : s.pool = before ++ ⟨[], done⟩ :: after) :
      MovesIn setup s .others (.finish before.length)
        { s with pool := before ++ after, delivered := s.delivered ++ done }
  | releasePool (hshared : s.poolShared = true) :
      MovesIn setup s .others .releasePool { s with poolShared := false }
  | turn {answer : Answer} {phase : Phase T} {pass : Pass} (h : Turn setup s phase pass) :
      MovesIn setup s .turning (.worker answer) { s with phase := phase, pass := pass }
  | serve {answer : Answer} (h : s.phase = .announcing) :
      MovesIn setup s .pinning (.worker answer)
        { s with callers := { s.callers with service := .serving }, phase := .intake }
  | pinQuiesce {answer : Answer} (h : s.phase = .starting)
      (hlocal : setup.device.requiresLocalMr = true) :
      MovesIn setup s .pinning (.worker answer)
        { s with
          phase :=
            .pinning .quiesce setup.quiescePointer (setup.quiescePointer + 8)
              (.begin setup.quiescePointer 8) }
  | pin {answer : Answer} (purpose : Pinning) (base limit : Nat) (call call' : PinCall) (c : Cache)
      (region : RegionAnswer) (h : s.phase = .pinning purpose base limit call)
      (hstep :
        call.step setup.lib setup.device.domain base limit s.cache region = some (c, call')) :
      MovesIn setup s .pinning (.worker answer)
        { s with cache := c, phase := .pinning purpose base limit call' }
  | pinnedQuiesce {answer : Answer} (base limit : Nat) (result : Except DmaError Unit)
      (phase : Phase T) (h : s.phase = .pinning .quiesce base limit (.done result))
      (hphase : phase = .announcing ∨ phase = .clearing) :
      MovesIn setup s .pinning (.worker answer) { s with phase := phase }
  | pinned {answer : Answer} (number base limit : Nat) (result : Except DmaError Unit)
      (h : s.phase = .pinning (.message number) base limit (.done result)) :
      MovesIn setup s .pinning (.worker answer) { s.answered number result with phase := .intake }
  | accept {answer : Answer} (number : Nat) (request : TransferRequest (Tagged T))
      (channel : List (Nat × WorkerMessage (Tagged T))) (op : InFlight T) (prepared : Prepared)
      (htakes : Takes s) (hchannel : s.callers.channel = (number, .transfer request) :: channel)
      (hprepare : prepare request setup.configuration.quiesceWrites = .ok (op, prepared)) :
      MovesIn setup s .intake (.worker answer)
        { s.popped channel with
          books := s.books.countOp prepared.clientId
          queues :=
            { s.queues with
              raw := s.queues.raw.insert prepared.context op
              pending := s.queues.pending ++ [prepared] }
          phase := .intake }
  | refuse {answer : Answer} (number : Nat) (request : TransferRequest (Tagged T))
      (channel : List (Nat × WorkerMessage (Tagged T))) (completion : Completion (Tagged T))
      (htakes : Takes s) (hchannel : s.callers.channel = (number, .transfer request) :: channel)
      (hprepare : prepare request setup.configuration.quiesceWrites = .error completion) :
      MovesIn setup s .intake (.worker answer)
        { s.popped channel with
          books := s.books.releaseOutstanding
          queues := { s.queues with completions := s.queues.completions ++ [completion] }
          phase := .intake }
  | addPeer (number : Nat) (client : ClientId) (address : Bytes) (inserted : Int) (entry : Nat)
      (channel : List (Nat × WorkerMessage (Tagged T))) (books : Books) (htakes : Takes s)
      (hchannel : s.callers.channel = (number, .addPeer client address) :: channel)
      (hinsert : s.books.insertPeer number client address inserted = (books, .ok entry)) :
      MovesIn setup s .intake (.worker (.avInsert inserted))
        { (s.popped channel).answered number (.ok ()) with
          books := books.dropPeer entry
          phase := .intake }
  | addPeerFails (number : Nat) (client : ClientId) (address : Bytes) (inserted : Int)
      (error : DmaError) (channel : List (Nat × WorkerMessage (Tagged T))) (books : Books)
      (htakes : Takes s)
      (hchannel : s.callers.channel = (number, .addPeer client address) :: channel)
      (hinsert : s.books.insertPeer number client address inserted = (books, .error error)) :
      MovesIn setup s .intake (.worker (.avInsert inserted))
        { (s.popped channel).answered number (.error error) with
          books := books
          phase := .intake }
  | removePeer {answer : Answer} (number : Nat) (client : ClientId)
      (channel : List (Nat × WorkerMessage (Tagged T))) (htakes : Takes s)
      (hchannel : s.callers.channel = (number, .removePeer client) :: channel) :
      MovesIn setup s .intake (.worker answer)
        { s.popped channel with books := s.books.removeOrDefer client, phase := .intake }
  | pinMessage {answer : Answer} (number base length : Nat)
      (channel : List (Nat × WorkerMessage (Tagged T))) (htakes : Takes s)
      (hchannel : s.callers.channel = (number, .register base length) :: channel)
      (hlocal : setup.device.requiresLocalMr = true) :
      MovesIn setup s .intake (.worker answer)
        { s.popped channel with
          phase := .pinning (.message number) base (base + length) (.begin base length) }
  | nothingToPin {answer : Answer} (number base length : Nat)
      (channel : List (Nat × WorkerMessage (Tagged T))) (htakes : Takes s)
      (hchannel : s.callers.channel = (number, .register base length) :: channel) :
      MovesIn setup s .intake (.worker answer)
        { (s.popped channel).answered number (.ok ()) with phase := .intake }
  | attempt (prepared : Prepared) (pending : List Prepared) (inserted : Int) (entry : Nat)
      (books : Books) (h : s.phase = .posting) (hpending : s.queues.pending = prepared :: pending)
      (hinsert :
        s.books.insertPeer prepared.context prepared.clientId prepared.peerAddress inserted
          = (books, .ok entry))
      (hcap : s.pass.inFlight < inFlightCap setup.device setup.configuration.maxInFlight)
      (hattempts : 0 < s.pass.attempts) :
      MovesIn setup s .posting (.worker (.avInsert inserted))
        { s with
          books := books
          queues := { s.queues with pending := pending }
          pass := { s.pass with attempts := s.pass.attempts - 1 }
          phase :=
            .operand prepared entry (State.operandCall setup prepared.pointer prepared.length) }
  | attemptFails (prepared : Prepared) (pending : List Prepared) (inserted : Int)
      (error : DmaError) (books : Books) (h : s.phase = .posting)
      (hpending : s.queues.pending = prepared :: pending)
      (hinsert :
        s.books.insertPeer prepared.context prepared.clientId prepared.peerAddress inserted
          = (books, .error error))
      (hattempts : 0 < s.pass.attempts) :
      MovesIn setup s .posting (.worker (.avInsert inserted))
        { s with
          books := books
          queues := { s.queues with pending := pending }
          pass := { s.pass with attempts := s.pass.attempts - 1 }
          phase := .failing prepared error }
  | operand {answer : Answer} (prepared : Prepared) (entry : Nat) (call call' : OperandCall)
      (c : Cache) (region : RegionAnswer) (h : s.phase = .operand prepared entry call)
      (hstep : call.step setup.lib setup.device.domain s.cache region = some (c, call')) :
      MovesIn setup s .posting (.worker answer)
        { s with cache := c, phase := .operand prepared entry call' }
  | operandFails {answer : Answer} (prepared : Prepared) (entry : Nat) (error : DmaError)
      (h : s.phase = .operand prepared entry (.failed error)) :
      MovesIn setup s .posting (.worker answer)
        { s with books := s.books.dropPeer entry, phase := .failing prepared error }
  | posted {answer : Answer} (prepared : Prepared) (entry : Nat) (operand : LocalOperand)
      (now : Nat) (op : InFlight T) (h : s.phase = .operand prepared entry (.done operand))
      (hclock : s.clock ≤ now) (hraw : s.queues.raw.lookup prepared.context = some op) :
      MovesIn setup s .posting (.worker answer)
        { s with
          books := s.books.dropPeer entry
          clock := now
          cache := s.cache.dropLease op.localLease
          queues :=
            { s.queues with
              raw :=
                s.queues.raw.insert prepared.context (State.posted op prepared operand.lease) }
          wire :=
            s.wire.post
              (State.postedOp prepared entry operand.descriptor op.quiesce.isSome)
          pass := { s.pass with inFlight := s.pass.inFlight + 1, posted := s.pass.posted + 1 }
          phase := .posting }
  | requeued {answer : Answer} (prepared : Prepared) (entry : Nat) (operand : LocalOperand)
      (since now : Nat) (h : s.phase = .operand prepared entry (.done operand))
      (hclock : s.clock ≤ now)
      (hrefusal : answer.Refuses setup prepared.stalledSince since now) :
      MovesIn setup s .posting (.worker answer)
        { s with
          books := s.books.dropPeer entry
          clock := now
          cache := s.cache.dropLease operand.lease
          queues :=
            { s.queues with
              pending := s.queues.pending ++ [{ prepared with stalledSince := some since }] }
          phase := .posting }
  | postFails {answer : Answer} (prepared : Prepared) (entry : Nat) (operand : LocalOperand)
      (now : Nat) (error : DmaError) (h : s.phase = .operand prepared entry (.done operand))
      (hclock : s.clock ≤ now) :
      MovesIn setup s .posting (.worker answer)
        { s with
          books := s.books.dropPeer entry
          clock := now
          cache := s.cache.dropLease operand.lease
          phase := .failing prepared error }
  | failed {answer : Answer} (prepared : Prepared) (error : DmaError) (op : InFlight T)
      (h : s.phase = .failing prepared error)
      (hraw : s.queues.raw.lookup prepared.context = some op) :
      MovesIn setup s .posting (.worker answer)
        { s with
          cache := s.cache.dropLease op.localLease
          queues :=
            { s.queues with
              raw := s.queues.raw.erase prepared.context
              completions :=
                s.queues.completions ++ [op.intoCompletion (s.crc setup) (.error error)] }
          books := s.books.finishOp op.clientId
          phase := .posting }
  | reap {answer : Answer} (reaped : List Reaped) (wire : Wire) (h : s.phase = .reaping)
      (htake : s.wire.take reaped = some wire) (hmax : reaped.length ≤ targetCompletions) :
      MovesIn setup s .reaping (.worker answer)
        { s with
          wire := wire
          queues := { s.queues with reaped := reaped }
          books :=
            { s.books with
              wrapped := s.books.wrapped || decide (s.pass.inFlight < reaped.length) }
          pass :=
            { s.pass with
              inFlight := s.pass.inFlight - reaped.length
              reapedAny := !reaped.isEmpty }
          phase := .dispatching }
  | toQuiescing {answer : Answer} (context : Nat) (reaped : List Reaped) (op : InFlight T)
      (read : QuiesceRead) (h : s.phase = .dispatching)
      (hreaped : s.queues.reaped = (context, .ok ()) :: reaped)
      (hraw : s.queues.raw.lookup context = some op) (hquiesce : op.quiesce = some read) :
      MovesIn setup s .reaping (.worker answer)
        { s with
          queues :=
            { s.queues with
              raw := s.queues.raw.erase context
              reaped := reaped
              quiescing := s.queues.quiescing ++ [⟨{ op with quiesce := none }, read, none⟩] } }
  | toCrc {answer : Answer} (context : Nat) (result : Except DmaError Unit) (reaped : List Reaped)
      (op : InFlight T) (h : s.phase = .dispatching)
      (hreaped : s.queues.reaped = (context, result) :: reaped)
      (hraw : s.queues.raw.lookup context = some op)
      (hquiesce : result = .ok () → op.quiesce = none) :
      MovesIn setup s .reaping (.worker answer)
        { s with
          books := s.books.finishOp op.clientId
          queues :=
            { s.queues with
              raw := s.queues.raw.erase context
              reaped := reaped
              crcPending := s.queues.crcPending ++ [(op, result)] } }
  | toCompletion {answer : Answer} (context : Nat) (result : Except DmaError Unit)
      (reaped : List Reaped) (op : InFlight T) (h : s.phase = .dispatching)
      (hreaped : s.queues.reaped = (context, result) :: reaped)
      (hraw : s.queues.raw.lookup context = some op)
      (hquiesce : result = .ok () → op.quiesce = none) :
      MovesIn setup s .reaping (.worker answer)
        { s with
          books := s.books.finishOp op.clientId
          cache := s.cache.dropLease op.localLease
          queues :=
            { s.queues with
              raw := s.queues.raw.erase context
              reaped := reaped
              completions :=
                s.queues.completions ++ [op.intoCompletion (s.crc setup) result] } }
  | quiesce (waiting : Quiescing T) (quiescing : List (Quiescing T)) (inserted : Int)
      (entry : Nat) (books : Books) (h : s.phase = .quiescing)
      (hquiescing : s.queues.quiescing = waiting :: quiescing)
      (hinsert :
        s.books.insertPeer waiting.inflight.number waiting.inflight.clientId
            waiting.read.peerAddress inserted = (books, .ok entry))
      (hattempts : 0 < s.pass.attempts) :
      MovesIn setup s .quiescing (.worker (.avInsert inserted))
        { s with
          books := books
          queues := { s.queues with quiescing := quiescing }
          pass := { s.pass with attempts := s.pass.attempts - 1 }
          phase := .quiesceOperand waiting entry (State.operandCall setup setup.quiescePointer 1) }
  | quiesceFails (waiting : Quiescing T) (quiescing : List (Quiescing T)) (inserted : Int)
      (error : DmaError) (books : Books) (h : s.phase = .quiescing)
      (hquiescing : s.queues.quiescing = waiting :: quiescing)
      (hinsert :
        s.books.insertPeer waiting.inflight.number waiting.inflight.clientId
            waiting.read.peerAddress inserted = (books, .error error))
      (hattempts : 0 < s.pass.attempts) :
      MovesIn setup s .quiescing (.worker (.avInsert inserted))
        { s with
          books := books
          queues := { s.queues with quiescing := quiescing }
          pass := { s.pass with attempts := s.pass.attempts - 1 }
          phase := .failingQuiesce waiting.inflight error }
  | quiesceOperand {answer : Answer} (waiting : Quiescing T) (entry : Nat)
      (call call' : OperandCall) (c : Cache) (region : RegionAnswer)
      (h : s.phase = .quiesceOperand waiting entry call)
      (hstep : call.step setup.lib setup.device.domain s.cache region = some (c, call')) :
      MovesIn setup s .quiescing (.worker answer)
        { s with cache := c, phase := .quiesceOperand waiting entry call' }
  | quiesceOperandFails {answer : Answer} (waiting : Quiescing T) (entry : Nat) (error : DmaError)
      (h : s.phase = .quiesceOperand waiting entry (.failed error)) :
      MovesIn setup s .quiescing (.worker answer)
        { s with
          books := s.books.dropPeer entry
          phase := .failingQuiesce waiting.inflight error }
  | quiesced (waiting : Quiescing T) (entry : Nat) (operand : LocalOperand)
      (now : Nat) (h : s.phase = .quiesceOperand waiting entry (.done operand))
      (hclock : s.clock ≤ now) (first : Nat) :
      MovesIn setup s .quiescing (.worker (.rma 0 first now))
        { s with
          books := s.books.dropPeer entry
          clock := now
          cache := s.cache.dropLease waiting.inflight.localLease
          queues :=
            { s.queues with
              raw :=
                s.queues.raw.insert waiting.inflight.number
                  { waiting.inflight with localLease := operand.lease } }
          wire :=
            s.wire.post
              (State.quiesceOp setup waiting.inflight waiting.read entry operand.descriptor)
          pass := { s.pass with inFlight := s.pass.inFlight + 1, posted := s.pass.posted + 1 }
          phase := .quiescing }
  | requiesce {answer : Answer} (waiting : Quiescing T) (entry : Nat) (operand : LocalOperand)
      (since now : Nat) (h : s.phase = .quiesceOperand waiting entry (.done operand))
      (hclock : s.clock ≤ now)
      (hrefusal : answer.Refuses setup waiting.stalledSince since now) :
      MovesIn setup s .quiescing (.worker answer)
        { s with
          books := s.books.dropPeer entry
          clock := now
          cache := s.cache.dropLease waiting.inflight.localLease
          queues :=
            { s.queues with
              raw :=
                (s.queues.raw.insert waiting.inflight.number
                  { waiting.inflight with localLease := operand.lease }).erase
                    waiting.inflight.number
              quiescing :=
                s.queues.quiescing ++
                  [⟨{ waiting.inflight with localLease := operand.lease }, waiting.read,
                    some since⟩] }
          phase := .quiescing }
  | quiescePostFails {answer : Answer} (waiting : Quiescing T) (entry : Nat)
      (operand : LocalOperand) (now : Nat) (error : DmaError)
      (h : s.phase = .quiesceOperand waiting entry (.done operand)) (hclock : s.clock ≤ now) :
      MovesIn setup s .quiescing (.worker answer)
        { s with
          books := s.books.dropPeer entry
          clock := now
          cache := s.cache.dropLease waiting.inflight.localLease
          queues :=
            { s.queues with
              raw :=
                (s.queues.raw.insert waiting.inflight.number
                  { waiting.inflight with localLease := operand.lease }).erase
                    waiting.inflight.number }
          phase :=
            .failingQuiesce { waiting.inflight with localLease := operand.lease } error }
  | failedQuiesce {answer : Answer} (op : InFlight T) (error : DmaError)
      (h : s.phase = .failingQuiesce op error) :
      MovesIn setup s .quiescing (.worker answer)
        { s with
          cache := s.cache.dropLease op.localLease
          queues :=
            { s.queues with
              completions :=
                s.queues.completions ++ [op.intoCompletion (s.crc setup) (.error error)] }
          books := s.books.finishOp op.clientId
          phase := .quiescing }
  | flush {answer : Answer} (h : s.phase = .flushing)
      (hflush : shouldFlushCrc s.queues.crcPending.length s.pass.posted s.pass.reapedAny s.isIdle
        = true) :
      MovesIn setup s .ending (.worker answer)
        { s with
          queues := { s.queues with crcPending := [] }
          pool := s.pool ++ [⟨s.queues.crcPending, []⟩]
          pass := { s.pass with idle := s.isIdle }
          phase := .completing }
  | deliver {answer : Answer} (h : s.phase = .completing)
      (hcompletions : s.queues.completions ≠ []) :
      MovesIn setup s .ending (.worker answer)
        { s with
          pass := { s.pass with drainSpins := 0 }
          queues := { s.queues with completions := [] }
          delivered := s.delivered ++ s.queues.completions
          phase := .parking }
  | leftover {answer : Answer} (ops : List (InFlight T)) (raw : Assoc Nat (InFlight T))
      (h : s.phase = .exiting)
      (hreclaim : State.reclaimAll s.queues.raw s.queues.pending = some (ops, raw)) :
      MovesIn setup s .ending (.worker answer)
        { s with
          cache :=
            s.cache.dropLeases
              (ops.flatMap (fun op => op.localLease.toList)
                ++ s.queues.crcPending.flatMap fun op => op.1.localLease.toList)
          queues := { s.queues with raw := raw, pending := [], crcPending := [] }
          delivered :=
            s.delivered ++
              ((ops.map fun op =>
                  op.intoCompletion (s.crc setup) (.error (.fabric "fabric worker is gone")))
                ++ s.queues.crcPending.map fun op => op.1.intoCompletion (s.crc setup) op.2)
          phase := .clearing }
  | clear {answer : Answer} (h : s.phase = .clearing) :
      MovesIn setup s .ending (.worker answer)
        { s with
          cache := (s.cache.clearDomain setup.device.domain).1
          phase := .dropping (s.cache.clearDomain setup.device.domain).2 }
  | drop {answer : Answer} (cleared : List Nat) (h : s.phase = .dropping cleared) :
      MovesIn setup s .ending (.worker answer)
        { s with
          cache := s.cache.dropLeases cleared
          books := { s.books with peers := s.books.peers.clear }
          phase := .closing }
  | close {answer : Answer} (h : s.phase = .closing) :
      MovesIn setup s .ending (.worker answer) { s with domainClosed := true, phase := .leaving }
  | leave {answer : Answer} (h : s.phase = .leaving)
      (hpool : s.poolShared = true ∨ s.pool = []) :
      MovesIn setup s .ending (.worker answer) { s with phase := .exited }
  | dangling {m : Move T} {s' : State T} (context : Nat)
      (hraw : s.queues.raw.lookup context = none)
      (howned : (∃ prepared ∈ s.phase.prepared, prepared.context = context) ∨
        (∃ reaped ∈ s.queues.reaped, reaped.1 = context)) : MovesIn setup s .dangling m s'
  | danglingPending {m : Move T} {s' : State T} (h : s.phase = .exiting)
      (hreclaim : State.reclaimAll s.queues.raw s.queues.pending = none) :
      MovesIn setup s .dangling m s'

/-- The outcomes of a move. -/
def Moves [Operands T] (setup : Setup) (s : State T) (m : Move T) (s' : State T) : Prop :=
  ∃ part, MovesIn setup s part m s'

/-! ### Every step is in the list -/

/-- A box just put behind its pointer is there to reclaim. -/
theorem reclaim_insert (raw : Assoc Nat (InFlight T)) (context : Nat) (op : InFlight T) :
    reclaim (raw.insert context op) context = some (op, (raw.insert context op).erase context) := by
  unfold reclaim
  rw [AList.lookup_insert]
  rfl

section
variable [Operands T] {setup : Setup} {s s' : State T} {answer : Answer}

/-- An element of a list, and what stands before and after it. -/
private theorem exists_append_cons {α : Type} {l : List α} {i : Nat} {a : α}
    (h : l[i]? = some a) : ∃ before after, l = before ++ a :: after ∧ before.length = i := by
  obtain ⟨hi, rfl⟩ := List.getElem?_eq_some_iff.mp h
  exact ⟨l.take i, l.drop (i + 1), by simp, by simp; omega⟩

/-- The message that is taken, kind by kind. -/
theorem Moves.of_receive {number : Nat} {message : WorkerMessage (Tagged T)}
    {channel : List (Nat × WorkerMessage (Tagged T))} (htakes : Takes s)
    (hchannel : s.callers.channel = (number, message) :: channel)
    (h : (s.popped channel).receive setup number message answer = some s') :
    Moves setup s (.worker answer) s' := by
  cases message with
  -- Each message waits for the answer its own handler needs; any other answer is no step.
  | transfer request =>
    cases answer <;> simp only [State.receive, reduceCtorEq] at h
    cases h
    -- The request is prepared, and its box goes behind a fresh pointer, or it is refused.
    cases hprepare : prepare request setup.configuration.quiesceWrites with
    | ok built =>
      have haccept : Vdma.Fabric.accept request setup.configuration.quiesceWrites s.books s.queues
          = (s.books.countOp built.2.clientId,
              { s.queues with
                raw := s.queues.raw.insert built.2.context built.1
                pending := s.queues.pending ++ [built.2] }) := by
        simp only [Vdma.Fabric.accept, hprepare]
      simp only [State.popped, haccept]
      exact ⟨_, .accept number request channel built.1 built.2 htakes hchannel hprepare⟩
    | error completion =>
      have haccept : Vdma.Fabric.accept request setup.configuration.quiesceWrites s.books s.queues
          = (s.books.releaseOutstanding,
              { s.queues with completions := s.queues.completions ++ [completion] }) := by
        simp only [Vdma.Fabric.accept, hprepare]
      simp only [State.popped, haccept]
      exact ⟨_, .refuse number request channel completion htakes hchannel hprepare⟩
  | addPeer client address =>
    cases answer <;> simp only [State.receive, reduceCtorEq] at h
    next inserted =>
    cases h
    -- The provider's answer goes through the address vector, which may refuse it.
    cases hinsert : s.books.insertPeer number client address inserted with
    | mk books result =>
      simp only [State.popped, hinsert]
      cases result with
      | ok entry =>
        exact ⟨_, .addPeer number client address inserted entry channel books htakes hchannel
          hinsert⟩
      | error error =>
        exact ⟨_, .addPeerFails number client address inserted error channel books htakes
          hchannel hinsert⟩
  | removePeer client =>
    cases answer <;> simp only [State.receive, reduceCtorEq] at h
    cases h
    exact ⟨_, .removePeer number client channel htakes hchannel⟩
  | register base length =>
    cases answer <;> simp only [State.receive, reduceCtorEq] at h
    -- Only a domain that asks for local registrations pins.
    split at h <;> cases h
    · next hlocal => exact ⟨_, .pinMessage number base length channel htakes hchannel hlocal⟩
    · exact ⟨_, .nothingToPin number base length channel htakes hchannel⟩

/-- The head of the channel is taken. -/
theorem Moves.of_takeMessage (htakes : Takes s) (h : s.takeMessage setup answer = some s') :
    Moves setup s (.worker answer) s' := by
  unfold State.takeMessage at h
  split at h
  · cases h
  · next number message channel hchannel => exact .of_receive htakes hchannel h

/-- At the head of the loop a message is taken, or posting starts. -/
theorem Moves.of_intake (hphase : s.phase = .intake) (h : s.stepIntake setup answer = some s') :
    Moves setup s (.worker answer) s' := by
  unfold State.stepIntake at h
  split at h
  · next hchannel =>
    split at h
    · split at h <;> cases h
      · next hdropped =>
        exact ⟨_, .turn (.startPosting hphase hchannel true fun _ => .inr hdropped)⟩
      · exact ⟨_, .turn (.startPosting hphase hchannel s.pass.disconnected .inl)⟩
    · cases h
  · exact .of_takeMessage (.intake hphase) h

/-- The posting loop makes an attempt, or is left. -/
theorem Moves.of_posting (hphase : s.phase = .posting) (h : s.stepPosting setup answer = some s') :
    Moves setup s (.worker answer) s' := by
  unfold State.stepPosting at h
  split at h
  · -- There is room on the wire, and the pass has attempts left.
    next hcap =>
    dsimp only at h
    split at h
    · cases h
      exact ⟨_, .turn (.leavePosting hphase _ fun _ _ => ‹s.queues.pending = []›)⟩
    · -- The next entry is taken, and its peer resolved.
      next prepared pending inserted hpending =>
      cases hinsert : s.books.insertPeer prepared.context prepared.clientId prepared.peerAddress
          inserted with
      | mk books result =>
        cases result with
        | ok entry =>
          simp only [hinsert] at h
          cases h
          exact ⟨_, .attempt prepared pending inserted entry books hphase hpending hinsert hcap.1
            hcap.2⟩
        | error error =>
          simp only [hinsert] at h
          cases h
          exact ⟨_, .attemptFails prepared pending inserted error books hphase hpending hinsert
            hcap.2⟩
    · cases h
  · -- The phase ends: with room and attempts left, only because nothing is pending.
    next hcap =>
    split at h <;> cases h
    exact ⟨_, .turn (.leavePosting hphase _ fun hroom hattempts =>
      absurd ⟨hroom, hattempts⟩ hcap)⟩

/-- With its operand in hand an op is posted, requeued or failed. -/
theorem Moves.of_operand {prepared : Prepared} {entry : Nat} {call : OperandCall}
    (hphase : s.phase = .operand prepared entry call)
    (h : s.stepOperand setup prepared entry call answer = some s') :
    Moves setup s (.worker answer) s' := by
  unfold State.stepOperand at h
  split at h
  · -- The post is made, unless the clock the answer shows is behind ours.
    next operand code first now =>
    split at h
    · next hclock =>
      have hnow : s.clock ≤ now := by omega
      cases h
      unfold State.postOperand
      split
      · -- The box behind the context: a run always has one.
        split
        · next hnone =>
          exact ⟨_, .dangling prepared.context hnone
            (.inl ⟨prepared, by rw [hphase]; exact List.mem_singleton_self _, rfl⟩)⟩
        · next op hraw => exact ⟨_, .posted prepared entry operand now op hphase hnow hraw⟩
      · -- A shortage is requeued before the deadline, and fails from the deadline on; any other
        -- code fails.
        dsimp only
        split
        · split
          · next hdeadline =>
            exact ⟨_, .requeued prepared entry operand _ now hphase hnow
              ⟨code, first, rfl, rfl, hdeadline⟩⟩
          · exact ⟨_, .postFails prepared entry operand now _ hphase hnow⟩
        · exact ⟨_, .postFails prepared entry operand now _ hphase hnow⟩
    · cases h
  · -- The operand was refused before any post.
    next error =>
    cases h
    exact ⟨_, .operandFails prepared entry error hphase⟩
  · -- A section of the operand's registration.
    next region =>
    rw [Option.map_eq_some_iff] at h
    obtain ⟨⟨c, call'⟩, hstep, rfl⟩ := h
    exact ⟨_, .operand prepared entry call call' c region hphase hstep⟩
  · cases h

/-- A failed attempt stages its completion. -/
theorem Moves.of_failing {prepared : Prepared} {error : DmaError}
    (hphase : s.phase = .failing prepared error) :
    Moves setup s (.worker answer) (s.stepFailing setup prepared error) := by
  unfold State.stepFailing reclaim
  cases hraw : s.queues.raw.lookup prepared.context with
  | none =>
    exact ⟨_, .dangling prepared.context hraw
      (.inl ⟨prepared, by rw [hphase]; exact List.mem_singleton_self _, rfl⟩)⟩
  | some op => exact ⟨_, .failed prepared error op hphase hraw⟩

/-- A reap takes what libfabric reports. -/
theorem Moves.of_reaping (hphase : s.phase = .reaping) (h : s.stepReaping setup answer = some s') :
    Moves setup s (.worker answer) s' := by
  unfold State.stepReaping at h
  split at h
  · split at h
    · split at h
      · cases h
      · next reaped _ hreap =>
        rw [Option.map_eq_some_iff] at h
        obtain ⟨wire, htake, rfl⟩ := h
        exact ⟨_, .reap reaped wire hphase htake (reap_length (Nat.zero_le _) hreap)⟩
    · cases h
  · cases h

/-- A reaped op goes to its quiesce read, to the batch or to its completion. -/
theorem Moves.of_dispatching (hphase : s.phase = .dispatching)
    (h : s.stepDispatching setup answer = some s') : Moves setup s (.worker answer) s' := by
  unfold State.stepDispatching reclaim at h
  split at h
  · split at h
    · next hreaped =>
      cases h
      exact ⟨_, .turn (.leaveDispatching hphase hreaped)⟩
    · next context result reaped hreaped =>
      cases hraw : s.queues.raw.lookup context with
      | none =>
        exact ⟨_, .dangling context hraw (.inr ⟨(context, result), by rw [hreaped]; simp, rfl⟩)⟩
      | some op =>
        rw [hraw] at h
        cases h
        -- Only a write that was reaped `Ok` and has a read to post goes on.
        cases hresult : result with
        | error error =>
          subst hresult
          simp only [State.dispatch]
          split
          · exact ⟨_, .toCrc context _ reaped op hphase hreaped hraw nofun⟩
          · exact ⟨_, .toCompletion context _ reaped op hphase hreaped hraw nofun⟩
        | ok u =>
          subst hresult
          cases hquiesce : op.quiesce with
          | some read =>
            simp only [State.dispatch, hquiesce]
            exact ⟨_, .toQuiescing context reaped op read hphase hreaped hraw hquiesce⟩
          | none =>
            simp only [State.dispatch, hquiesce]
            split
            · exact ⟨_, .toCrc context _ reaped op hphase hreaped hraw fun _ => hquiesce⟩
            · exact ⟨_, .toCompletion context _ reaped op hphase hreaped hraw fun _ => hquiesce⟩
  · cases h

/-- The quiesce loop makes an attempt, or is left. -/
theorem Moves.of_quiescing (hphase : s.phase = .quiescing)
    (h : s.stepQuiescing setup answer = some s') : Moves setup s (.worker answer) s' := by
  unfold State.stepQuiescing at h
  split at h
  · next hattempts =>
    -- The next read waits for its peer's entry as a transfer does.
    dsimp only at h
    split at h
    · cases h
      exact ⟨_, .turn (.leaveQuiescing hphase _ fun _ => ‹s.queues.quiescing = []›)⟩
    · next waiting quiescing inserted hquiescing =>
      cases hinsert : s.books.insertPeer waiting.inflight.number waiting.inflight.clientId
          waiting.read.peerAddress inserted with
      | mk books result =>
        cases result with
        | ok entry =>
          simp only [hinsert] at h
          cases h
          exact ⟨_, .quiesce waiting quiescing inserted entry books hphase hquiescing hinsert
            hattempts⟩
        | error error =>
          simp only [hinsert] at h
          cases h
          exact ⟨_, .quiesceFails waiting quiescing inserted error books hphase hquiescing hinsert
            hattempts⟩
    · cases h
  · -- The pass has no attempts left.
    next hattempts =>
    split at h <;> cases h
    exact ⟨_, .turn (.leaveQuiescing hphase _ fun hpos => absurd hpos hattempts)⟩

/-- With its operand in hand a quiesce read is posted, requeued or failed. -/
theorem Moves.of_quiesceOperand {waiting : Quiescing T} {entry : Nat} {call : OperandCall}
    (hphase : s.phase = .quiesceOperand waiting entry call)
    (h : s.stepQuiesceOperand setup waiting entry call answer = some s') :
    Moves setup s (.worker answer) s' := by
  unfold State.stepQuiesceOperand at h
  split at h
  · next operand code first now =>
    split at h
    · next hclock =>
      have hnow : s.clock ≤ now := by omega
      cases h
      unfold State.postQuiesce
      dsimp only
      split
      · next hcode =>
        rw [hcode]
        exact ⟨_, .quiesced waiting entry operand now hphase hnow first⟩
      -- The post failed: the box comes back from behind its pointer.
      · have hreclaim := reclaim_insert s.queues.raw waiting.inflight.number
          { waiting.inflight with localLease := operand.lease }
        split
        · next hnone => exact absurd (hreclaim.symm.trans hnone) nofun
        · next op raw hsome =>
          cases hreclaim.symm.trans hsome
          split
          · split
            · next hdeadline =>
              exact ⟨_, .requiesce waiting entry operand _ now hphase hnow
                ⟨code, first, rfl, rfl, hdeadline⟩⟩
            · exact ⟨_, .quiescePostFails waiting entry operand now _ hphase hnow⟩
          · exact ⟨_, .quiescePostFails waiting entry operand now _ hphase hnow⟩
    · cases h
  · next error =>
    cases h
    exact ⟨_, .quiesceOperandFails waiting entry error hphase⟩
  · cases h
  · next region _ =>
    rw [Option.map_eq_some_iff] at h
    obtain ⟨⟨c, call'⟩, hstep, rfl⟩ := h
    exact ⟨_, .quiesceOperand waiting entry call call' c region hphase hstep⟩
  · cases h

/-- The batch goes to the pool, or stays. -/
theorem Moves.of_flushing (hphase : s.phase = .flushing) :
    Moves setup s (.worker answer) s.stepFlushing := by
  unfold State.stepFlushing
  dsimp only
  split
  · next hflush => exact ⟨_, .flush hphase hflush⟩
  · next hflush => exact ⟨_, .turn (.skipFlush hphase (Bool.eq_false_iff.mpr hflush))⟩

/-- What is staged is delivered, or another pass comes first. -/
theorem Moves.of_completing (hphase : s.phase = .completing) :
    Moves setup s (.worker answer) s.stepCompleting := by
  unfold State.stepCompleting
  split
  · next hcompletions => exact ⟨_, .turn (.park hphase hcompletions)⟩
  · next hcompletions =>
    split
    · next hspins => exact ⟨_, .turn (.spin hphase hspins.2)⟩
    · exact ⟨_, .deliver hphase hcompletions⟩

/-- At the end of a pass the worker exits, takes a message or goes on. -/
theorem Moves.of_parking (hphase : s.phase = .parking) (h : s.stepParking setup answer = some s') :
    Moves setup s (.worker answer) s' := by
  unfold State.stepParking at h
  split at h
  · next hend =>
    split at h <;> cases h
    exact ⟨_, .turn (.exit hphase hend.2 (.inl hend.1))⟩
  · split at h
    · next hidle =>
      split at h
      · next hchannel =>
        split at h
        · split at h <;> cases h
          next hdropped => exact ⟨_, .turn (.exit hphase hidle (.inr ⟨hchannel, hdropped⟩))⟩
        · cases h
      · exact .of_takeMessage (.parking hphase hidle) h
    · next hidle =>
      split at h <;> cases h
      exact ⟨_, .turn (.again hphase (Bool.eq_false_iff.mpr hidle))⟩

/-- The shutdown completes what is left over. -/
theorem Moves.of_exiting (hphase : s.phase = .exiting) :
    Moves setup s (.worker answer) (s.stepExiting setup) := by
  unfold State.stepExiting
  split
  · next hreclaim => exact ⟨_, .danglingPending hphase hreclaim⟩
  · next ops raw hreclaim => exact ⟨_, .leftover ops raw hphase hreclaim⟩

/-- A pin runs a section, or ends. -/
theorem Moves.of_pinning {purpose : Pinning} {base limit : Nat} {call : PinCall}
    (hphase : s.phase = .pinning purpose base limit call)
    (h : s.stepPinning setup purpose base limit call answer = some s') :
    Moves setup s (.worker answer) s' := by
  unfold State.stepPinning at h
  split at h
  · next result =>
    cases h
    cases purpose with
    | quiesce =>
      cases result with
      | ok u => exact ⟨_, .pinnedQuiesce base limit _ _ hphase (.inl rfl)⟩
      | error error => exact ⟨_, .pinnedQuiesce base limit _ _ hphase (.inr rfl)⟩
    | message number => exact ⟨_, .pinned number base limit result hphase⟩
  · next region =>
    rw [Option.map_eq_some_iff] at h
    obtain ⟨⟨c, call'⟩, hstep, rfl⟩ := h
    exact ⟨_, .pin purpose base limit call call' c region hphase hstep⟩
  · cases h

/-- The worker returns once its clone of the pool's `Arc` is gone. -/
theorem Moves.of_leaving (hphase : s.phase = .leaving) (h : s.stepLeaving = some s') :
    Moves setup s (.worker answer) s' := by
  unfold State.stepLeaving at h
  split at h <;> cases h
  next hpool => exact ⟨_, .leave hphase hpool⟩

/-- Every step of the worker is a move, phase by phase. -/
theorem Moves.of_worker (h : s.stepWorker setup answer = some s') :
    Moves setup s (.worker answer) s' := by
  unfold State.stepWorker at h
  split at h
  · -- The thread starts: a domain that asks for it pins the read's buffer first.
    next hphase =>
    split at h
    · split at h <;> cases h
      · next hlocal => exact ⟨_, .pinQuiesce hphase hlocal.2⟩
      · exact ⟨_, .turn (.begin hphase)⟩
    · cases h
  · next hphase => exact .of_pinning hphase h
  · -- The start-up's outcome is handed to whoever opened the service.
    next hphase =>
    split at h
    · cases h
      exact ⟨_, .serve hphase⟩
    · cases h
      exact ⟨_, .turn (.giveUp hphase)⟩
    · cases h
  · next hphase => exact .of_intake hphase h
  · next hphase => exact .of_posting hphase h
  · next hphase => exact .of_operand hphase h
  · -- The phases with one step and one answer.
    next hphase =>
    split at h <;> cases h
    exact .of_failing hphase
  · next hphase => exact .of_reaping hphase h
  · next hphase => exact .of_dispatching hphase h
  · next hphase => exact .of_quiescing hphase h
  · next hphase => exact .of_quiesceOperand hphase h
  · next op error hphase =>
    split at h <;> cases h
    exact ⟨_, .failedQuiesce op error hphase⟩
  · next hphase =>
    split at h <;> cases h
    exact .of_flushing hphase
  · next hphase =>
    split at h <;> cases h
    exact .of_completing hphase
  · next hphase => exact .of_parking hphase h
  · next hphase =>
    split at h <;> cases h
    exact .of_exiting hphase
  · next hphase =>
    split at h <;> cases h
    exact ⟨_, .clear hphase⟩
  · next cleared hphase =>
    split at h <;> cases h
    exact ⟨_, .drop cleared hphase⟩
  · next hphase =>
    split at h <;> cases h
    exact ⟨_, .close hphase⟩
  · -- The pool's last owner waits for the pool.
    next hphase =>
    split at h
    · exact .of_leaving hphase h
    · cases h
  · -- The worker has exited.
    cases h
  · cases h

/-- The second half of `submit` sends, or finds the worker gone. -/
theorem Moves.of_send {i : Nat} (h : s.stepSend i = some s') : Moves setup s (.send i) s' := by
  unfold State.stepSend at h
  split at h
  · cases h
  · next request hi =>
    dsimp only at h
    split at h
    · next hphase =>
      cases h
      exact ⟨_, .sendFails i request hi hphase⟩
    · next hphase =>
      cases h
      exact ⟨_, .send i request hi hphase⟩

/-- The pool hashes the next op of a job. -/
theorem Moves.of_hash {i : Nat} (h : s.stepHash setup i = some s') :
    Moves setup s (.hash i) s' := by
  unfold State.stepHash at h
  split at h
  · next op result batch done hi =>
    cases h
    obtain ⟨before, after, hpool, rfl⟩ := exists_append_cons hi
    rw [hpool, List.set_append_right _ _ (Nat.le_refl _), Nat.sub_self, List.set_cons_zero]
    exact ⟨_, .hash before after op result batch done hpool⟩
  · cases h

/-- The pool delivers a job. -/
theorem Moves.of_finish {i : Nat} (h : s.stepFinish i = some s') :
    Moves setup s (.finish i) s' := by
  unfold State.stepFinish at h
  split at h
  · next done hi =>
    cases h
    obtain ⟨before, after, hpool, rfl⟩ := exists_append_cons hi
    rw [hpool, List.eraseIdx_append_of_length_le (Nat.le_refl _), Nat.sub_self,
      List.eraseIdx_cons_zero]
    exact ⟨_, .finish before after done hpool⟩
  · cases h

/-- Every step is in the list. -/
theorem moves_of_step {m : Move T} (h : (service T setup).step s m = some s') :
    Moves setup s m s' := by
  -- A caller's call is one move; the worker's is a move of its phase.
  change s.step setup m = some s' at h
  cases m with
  | submit request =>
    simp only [State.step] at h
    split at h <;> cases h
    next hserving => exact ⟨_, .submit request hserving⟩
  | send i => exact .of_send h
  | addPeer client address =>
    simp only [State.step] at h
    split at h <;> cases h
    next hserving => exact ⟨_, .message _ hserving nofun rfl⟩
  | removePeer client =>
    simp only [State.step] at h
    split at h <;> cases h
    next hserving => exact ⟨_, .message _ hserving nofun rfl⟩
  | register base length =>
    simp only [State.step] at h
    split at h
    · -- A span that is empty or overflows is refused before the worker hears of it.
      next hserving =>
      split at h <;> cases h
      · exact ⟨_, .message _ hserving nofun rfl⟩
      · exact ⟨_, .refused rfl⟩
    · cases h
  | dropService =>
    simp only [State.step] at h
    split at h <;> cases h
    next hserving => exact ⟨_, .dropService hserving.1 hserving.2⟩
  | worker answer => exact .of_worker h
  | hash i => exact .of_hash h
  | finish i => exact .of_finish h
  | releasePool =>
    simp only [State.step] at h
    split at h <;> cases h
    next hshared => exact ⟨_, .releasePool hshared⟩
  | thread step =>
    simp only [State.step, Option.map_eq_some_iff] at h
    obtain ⟨⟨c, threads⟩, hstep, rfl⟩ := h
    exact ⟨_, .thread step c threads hstep⟩
  | write memory =>
    simp only [State.step] at h
    cases h
    exact ⟨_, .write memory⟩

/-- The induction over a run of the service: what the start has and each move keeps holds in
every state reached. A move may use what is known of every state already, `J`. -/
theorem service_invariant {ok : State T → Move T → Prop} {I J : State T → Prop}
    (hJ : ∀ s, (service T setup).Reach ok s → J s) (hstart : I (State.start setup))
    (hkeep : ∀ s m s', J s → J s' → ok s m → Moves setup s m s' → I s → I s') {s : State T}
    (h : (service T setup).Reach ok s) : I s := by
  refine h.invariant_given hJ ?_ ?_
  · intro s hinit
    rw [show s = State.start setup from hinit]
    exact hstart
  · intro s m s' hs hs' hok hstep hI
    exact hkeep s m s' hs hs' hok (moves_of_step hstep) hI

end

end Vdma.Fabric
