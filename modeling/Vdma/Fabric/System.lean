import Vdma.Fabric.Worker
import Vdma.Lib.Machine

/-!
# `Vdma.Fabric.System`: a service, its worker and everybody around it

`service` is the machine of one `FabricService`: the callers that submit to it, its
worker thread, the shared pool, libfabric, and the other threads of the process on
the registration cache. A label is one move of one of them.

The worker's move is `worker answer`. Where `worker_main` stands is a `Phase`, and
each phase runs to the next call whose result comes from outside, or to the next
section of a lock. The answer is that result. Code of the worker thread that touches
only what the worker owns runs inside one move: nobody else sees the states in
between. So one move may make several calls in a row: a reap reads the completion queue
till it is empty, and a resolution takes stale entries out before it inserts.

The worker holds one clone of the pool's `Arc`, and drops it last. `poolShared` says whether
anybody else holds one. If nobody does, that drop is the drop of the pool, which waits for its
jobs on the worker's thread. Jobs of other services that wait there too are not in the machine.

An assumption about libfabric is a guard of the move that needs it. A completion
queue hands back only contexts that are posted and have not been handed back, and no
null one. Clock readings do not go backwards.

`Phase.faulted` is where a reclaim of a pointer to nothing leads. The run ends there.
-/

set_option autoImplicit false

namespace Vdma.Fabric

open Vdma.Lib

/-- The fields of `Configuration` that the worker reads. The deadline is in
nanoseconds. -/
structure Configuration where
  quiesceWrites : Bool
  maxInFlight : Option Nat
  progressDeadline : Nat

/-- What a service runs with: its configuration, its device, the texts of libfabric, the
CRC-32C of the checksum crate, and the address of the worker's quiesce buffer. -/
structure Setup where
  configuration : Configuration
  device : Device
  lib : Libfabric
  checksum : Bytes → UInt32
  quiescePointer : Nat

/-- Whether there is a `FabricService` to call. -/
inductive Service where
  /-- `FabricService::start` waits for the worker to be ready. -/
  | starting
  | serving
  | dropped
  deriving DecidableEq, Repr

/-- The callers' side. `submitting` has the transfers that were counted and are about to
be sent. `sent` has the transfers for which `submit` returned `Ok`, as they were sent, and
`answers` what the replies were sent. -/
structure Callers (T : Type) where
  service : Service
  submitting : List (TransferRequest T)
  arrivals : Nat
  channel : List (Nat × WorkerMessage (Tagged T))
  sent : List (TransferRequest (Tagged T))
  answers : List (Nat × Except DmaError Unit)

/-- The worker's locals of a pass. -/
structure Pass where
  inFlight : Nat
  posted : Nat
  attempts : Nat
  reapedAny : Bool
  idle : Bool
  disconnected : Bool
  drainSpins : Nat

/-- What a pin is for: the quiesce buffer, or the message that asked for it. -/
inductive Pinning where
  | quiesce
  | message (number : Nat)

/-- Where the worker stands. -/
inductive Phase (T : Type) where
  | starting
  | pinning (purpose : Pinning) (base limit : Nat) (call : PinCall)
  /-- About to ask for the local address and signal readiness. -/
  | announcing
  | intake
  | posting
  /-- In `post`, with a clone of the peer's entry. -/
  | operand (prepared : Prepared) (entry : Nat) (call : OperandCall)
  /-- About to call `finish_unreaped` for an op that was not posted. -/
  | failing (prepared : Prepared) (error : DmaError)
  | reaping
  | dispatching
  | quiescing
  /-- In `post_quiesce`, with a clone of the peer's entry. -/
  | quiesceOperand (waiting : Quiescing T) (entry : Nat) (call : OperandCall)
  /-- About to call `finish_unreaped` for a write that was not quiesced. -/
  | failingQuiesce (op : InFlight T) (error : DmaError)
  | flushing
  | completing
  | parking
  /-- Past the loop. -/
  | exiting
  /-- In `LibfabricEndpoint::drop`. -/
  | clearing
  | dropping (cleared : List Nat)
  | closing
  /-- About to drop the clone of the pool's `Arc`, the last local of the thread. -/
  | leaving
  | exited
  | faulted

/-- A pool job: the ops it has yet to hash, and the completions it has made. -/
structure Job (T : Type) where
  batch : List (ReapedOp T)
  done : List (Completion (Tagged T))

/-- A service and everybody around it. -/
structure State (T : Type) where
  callers : Callers T
  books : Books
  queues : Queues T
  pass : Pass
  phase : Phase T
  cache : Cache
  /-- The leases other threads hold. -/
  threads : List Nat
  wire : Wire
  pool : List (Job T)
  /-- Somebody besides the worker holds a clone of the pool's `Arc`. -/
  poolShared : Bool
  delivered : List (Completion (Tagged T))
  domainClosed : Bool
  clock : Nat
  memory : Nat → UInt8

/-- What the worker is told from outside. -/
inductive Answer where
  /-- A move that asks nothing. -/
  | none
  | region (answer : RegionAnswer)
  /-- `fi_av_insert` returns, should it be called. -/
  | avInsert (inserted : Int)
  /-- The post returns `code`. `first` and `now` are the clock readings that follow an
  `-FI_EAGAIN`. -/
  | rma (code : Int) (first now : Nat)
  | cq (answers : List CqAnswer)
  /-- `local_address` returns. -/
  | address (result : Except DmaError Bytes)

/-- What another thread does with the registration cache. -/
inductive ThreadStep where
  | register (domain : Domain) (base limit : Nat)
  | track (base limit : Nat) (domain : Domain) (lease : Nat)
  | covering (start stop : Nat) (domain : Domain)
  | invalidate (start stop : Nat)
  | clearDomain (domain : Domain)
  | drop (lease : Nat)

/-- One move. -/
inductive Move (T : Type) where
  /-- `submit` counts a transfer. -/
  | submit (request : TransferRequest T)
  /-- The caller of `submit` number `i` sends its transfer. -/
  | send (i : Nat)
  | addPeer (client : ClientId) (address : Bytes)
  | removePeer (client : ClientId)
  | register (base length : Nat)
  | dropService
  | worker (answer : Answer)
  /-- The pool takes the next op of a job through `into_completion`. -/
  | hash (job : Nat)
  /-- The pool calls `complete_batch` at the end of a job. -/
  | finish (job : Nat)
  /-- The last of the others drops its clone of the pool's `Arc`. -/
  | releasePool
  | thread (step : ThreadStep)
  /-- Memory changes: an RMA lands, or somebody writes. -/
  | write (memory : Nat → UInt8)

/-! ### The other threads -/

/-- One section of another thread on the cache. It works on the domains of other
endpoints and tracks what it registered. `invalidate` alone meets the extents of this
endpoint. -/
def ThreadStep.run (own : Domain) (c : Cache) (threads : List Nat) :
    ThreadStep → Option (Cache × List Nat)
  | .register domain base limit =>
    if domain = own then none
    else some (c.register domain base limit, c.handles.next :: threads)
  | .track base limit domain lease =>
    if domain = own ∨ lease ∉ threads ∨ c.handles.cells[lease]? ≠ some ⟨domain, base, limit⟩ then
      none
    else
      let tracked := c.track base limit domain lease
      some (tracked.1, tracked.2.toList ++ threads)
  | .covering start stop domain =>
    if domain = own then none
    else
      let found := c.covering start stop domain
      some (found.1, found.2.toList ++ threads)
  | .invalidate start stop =>
    let retired := c.invalidate start stop
    some (retired.1, retired.2 ++ threads)
  | .clearDomain domain =>
    if domain = own then none
    else
      let cleared := c.clearDomain domain
      some (cleared.1, cleared.2 ++ threads)
  | .drop lease =>
    if lease ∈ threads then some (c.dropLease (some lease), threads.erase lease) else none

namespace State

variable {T : Type}

/-! ### Finishing an op -/

/-- The CRC of the bytes now at a pointer. -/
def crc (setup : Setup) (s : State T) (pointer length : Nat) : UInt32 :=
  setup.checksum ((List.range length).map fun i => s.memory (pointer + i))

/-- `into_completion` of a box in hand, onto `completions`. -/
def complete (setup : Setup) (s : State T) (op : InFlight T) (result : Except DmaError Unit) :
    State T :=
  { s with
    cache := s.cache.dropLease op.localLease
    queues :=
      { s.queues with
        completions := s.queues.completions ++ [op.intoCompletion (s.crc setup) result] } }

/-- `finish_op`. -/
def finishOp (s : State T) (client : ClientId) : State T :=
  { s with books := s.books.finishOp client }

/-- Fail an orphaned op. -/
def finishUnreaped (setup : Setup) (s : State T) (op : InFlight T) (error : DmaError) : State T :=
  (s.complete setup op (.error error)).finishOp op.clientId

/-- A pointer to nothing was reclaimed. -/
def fault (s : State T) : State T := { s with phase := .faulted }

/-! ### Intake -/

/-- A message off the channel. The blocking receive of an idle worker treats it the same
way. -/
def receive [Operands T] (setup : Setup) (s : State T) (number : Nat) :
    WorkerMessage (Tagged T) → Answer → Option (State T)
  | .transfer request, .none =>
    let accepted := accept request setup.configuration.quiesceWrites s.books s.queues
    some { s with books := accepted.1, queues := accepted.2, phase := .intake }
  | .addPeer client address, .avInsert inserted =>
    let handled := s.books.insertPeer number client address inserted
    some { s with
      books :=
        match handled.2 with
        | .ok entry => handled.1.dropPeer entry
        | .error _ => handled.1
      callers :=
        { s.callers with answers := s.callers.answers ++ [(number, handled.2.map fun _ => ())] }
      phase := .intake }
  | .removePeer client, .none =>
    some { s with books := s.books.removeOrDefer client, phase := .intake }
  | .register base length, .none =>
    if setup.device.requiresLocalMr then
      some { s with phase := .pinning (.message number) base (base + length) (.begin base length) }
    else
      some { s with
        callers := { s.callers with answers := s.callers.answers ++ [(number, .ok ())] }
        phase := .intake }
  | _, _ => none

/-- Takes the head of the channel. -/
def takeMessage [Operands T] (setup : Setup) (s : State T) (answer : Answer) : Option (State T) :=
  match s.callers.channel with
  | [] => none
  | (number, message) :: channel =>
    ({ s with callers := { s.callers with channel := channel } } : State T).receive setup number
      message answer

/-- Leaves the intake, to post one pass over the queue. -/
def startPosting (s : State T) : State T :=
  { s with
    pass := { s.pass with posted := 0, attempts := s.queues.pending.length }
    phase := .posting }

/-- `try_recv`. The channel is disconnected once the service is dropped and it is
empty. -/
def stepIntake [Operands T] (setup : Setup) (s : State T) (answer : Answer) : Option (State T) :=
  if s.callers.channel = [] then
    match answer with
    | .none =>
      if s.callers.service = .dropped then
        some ({ s with pass := { s.pass with disconnected := true } } : State T).startPosting
      else some s.startPosting
    | _ => none
  else s.takeMessage setup answer

/-! ### Posting -/

/-- The operand call of a post. A provider that needs no local registration gets a null
descriptor. -/
def operandCall (setup : Setup) (pointer length : Nat) : OperandCall :=
  if setup.device.requiresLocalMr then .begin pointer length else .done .null

/-- The head of the posting loop. An attempt resolves the peer first. -/
def stepPosting (setup : Setup) (s : State T) (answer : Answer) : Option (State T) :=
  if s.pass.inFlight < inFlightCap setup.device setup.configuration.maxInFlight ∧
      0 < s.pass.attempts then
    let s := { s with pass := { s.pass with attempts := s.pass.attempts - 1 } }
    match s.queues.pending, answer with
    -- `pop_front` finds nothing: the pass breaks off.
    | [], .none => some { s with phase := .reaping }
    | prepared :: pending, .avInsert inserted =>
      let handled :=
        s.books.insertPeer prepared.context prepared.clientId prepared.peerAddress inserted
      let s := { s with books := handled.1, queues := { s.queues with pending := pending } }
      match handled.2 with
      -- `post` returns before it makes an operand.
      | .error error => some { s with phase := .failing prepared error }
      | .ok entry =>
        some { s with
          phase := .operand prepared entry (operandCall setup prepared.pointer prepared.length) }
    | _, _ => none
  else
    match answer with
    | .none => some { s with phase := .reaping }
    | _ => none

/-- The operation a prepared transfer posts. -/
def postedOp (prepared : Prepared) (entry : Nat) (descriptor : Option Nat) (quiesces : Bool) :
    PostedOp where
  context := prepared.context
  kind := match prepared.direction with
    | .toPeer => .write
    | .fromPeer _ => .read
  client := prepared.clientId
  quiesces := quiesces
  entry := entry
  remoteKey := prepared.remoteKey
  remoteAddress := prepared.remoteAddress
  pointer := prepared.pointer
  length := prepared.length
  descriptor := descriptor

/-- What the box of a posted transfer carries from then on: the lease, and the address for
its quiesce read. -/
def posted (op : InFlight T) (prepared : Prepared) (lease : Option Nat) : InFlight T :=
  { op with
    localLease := lease
    quiesce := op.quiesce.map fun read => { read with peerAddress := prepared.peerAddress } }

/-- `post` from the registered operand on: the RMA call and what `worker_main` does with its
code. `s` has dropped the peer. -/
def postOperand (setup : Setup) (s : State T) (prepared : Prepared) (entry : Nat)
    (operand : LocalOperand) (code : Int) (first now : Nat) : State T :=
  if code = 0 then
    -- The box stays behind its pointer and takes the new lease. The old one drops.
    match s.queues.raw.lookup prepared.context with
    | none => s.fault
    | some op =>
      { s with
        cache := s.cache.dropLease op.localLease
        queues :=
          { s.queues with
            raw := s.queues.raw.insert prepared.context (posted op prepared operand.lease) }
        wire := s.wire.post (postedOp prepared entry operand.descriptor op.quiesce.isSome)
        pass := { s.pass with inFlight := s.pass.inFlight + 1, posted := s.pass.posted + 1 }
        phase := .posting }
  else
    -- Not posted: the lease goes with the local operand.
    let s := { s with cache := s.cache.dropLease operand.lease }
    if code = -fiEagain then
      -- `get_or_insert_with` keeps the time of the first refusal.
      let since := prepared.stalledSince.getD first
      if now - since < setup.configuration.progressDeadline then
        { s with
          queues :=
            { s.queues with
              pending := s.queues.pending ++ [{ prepared with stalledSince := some since }] }
          phase := .posting }
      else { s with phase := .failing prepared (noProgress setup.configuration.progressDeadline) }
    else { s with phase := .failing prepared (fabricError setup.lib (asI32 code) "post") }

/-- `post` after the peer: the operand's registration, then the RMA call. -/
def stepOperand (setup : Setup) (s : State T) (prepared : Prepared) (entry : Nat) :
    OperandCall → Answer → Option (State T)
  | .done operand, .rma code first now =>
    if s.clock ≤ first ∧ first ≤ now then
      some (({ s with books := s.books.dropPeer entry, clock := now } : State T).postOperand setup
        prepared entry operand code first now)
    else none
  | .failed error, .none =>
    some { s with books := s.books.dropPeer entry, phase := .failing prepared error }
  | call, .region answer =>
    (call.step setup.lib setup.device.domain s.cache answer).map fun next =>
      { s with cache := next.1, phase := .operand prepared entry next.2 }
  | _, _ => none

/-- Fails an op that was not posted, and goes back to the queue. -/
def stepFailing (setup : Setup) (s : State T) (prepared : Prepared) (error : DmaError) : State T :=
  match reclaim s.queues.raw prepared.context with
  | none => s.fault
  | some (op, raw) =>
    ({ s with queues := { s.queues with raw := raw }, phase := .posting } : State T).finishUnreaped
      setup op error

/-! ### Reaping -/

/-- `reap`, and the count of what it brought. A queue-level error is only logged. -/
def stepReaping (setup : Setup) (s : State T) : Answer → Option (State T)
  | .cq answers =>
    if answers.all fun answer => answer.contexts.all Option.isSome then
      match reap setup.lib targetCompletions [] answers with
      | none => none
      | some (reaped, _) =>
        -- The provider answers for posts on the wire, in any order.
        (s.wire.take reaped).map fun wire =>
          { s with
            wire := wire
            queues := { s.queues with reaped := reaped }
            books :=
              { s.books with
                wrapped := s.books.wrapped || decide (s.pass.inFlight < reaped.length) }
            pass :=
              { s.pass with
                inFlight := s.pass.inFlight - reaped.length
                reapedAny := !reaped.isEmpty }
            phase := .dispatching }
    else none
  | _ => none

/-- A reaped op: on to its quiesce read, or finished. -/
def dispatch (setup : Setup) (s : State T) (op : InFlight T) (result : Except DmaError Unit) :
    State T :=
  match result, op.quiesce with
  -- A write is done after its quiesce read. Till then it is counted.
  | .ok (), some read =>
    { s with
      queues :=
        { s.queues with quiescing := s.queues.quiescing ++
          [⟨{ op with quiesce := none }, read, none⟩] } }
  | result, _ =>
    let s := s.finishOp op.clientId
    if op.wantChecksum then
      { s with queues := { s.queues with crcPending := s.queues.crcPending ++ [(op, result)] } }
    else s.complete setup op result

/-- The next reaped op. After the last one the quiesce reads are posted. -/
def stepDispatching (setup : Setup) (s : State T) : Answer → Option (State T)
  | .none =>
    match s.queues.reaped with
    | [] =>
      some { s with
        pass := { s.pass with attempts := s.queues.quiescing.length }
        phase := .quiescing }
    | (context, result) :: reaped =>
      match reclaim s.queues.raw context with
      | none => some s.fault
      | some (op, raw) =>
        some
          (({ s with queues := { s.queues with raw := raw, reaped := reaped } } : State T).dispatch
          setup op result)
  | _ => none

/-! ### Quiesce reads -/

/-- The head of the quiesce loop. -/
def stepQuiescing (setup : Setup) (s : State T) (answer : Answer) : Option (State T) :=
  if 0 < s.pass.attempts then
    let s := { s with pass := { s.pass with attempts := s.pass.attempts - 1 } }
    match s.queues.quiescing, answer with
    -- As in the posting loop.
    | [], .none => some { s with phase := .flushing }
    | waiting :: quiescing, .avInsert inserted =>
      let handled :=
        s.books.insertPeer waiting.inflight.number waiting.inflight.clientId
          waiting.read.peerAddress inserted
      let s := { s with books := handled.1, queues := { s.queues with quiescing := quiescing } }
      match handled.2 with
      | .error error => some { s with phase := .failingQuiesce waiting.inflight error }
      | .ok entry =>
        some { s with
          phase := .quiesceOperand waiting entry (operandCall setup setup.quiescePointer 1) }
    | _, _ => none
  else
    match answer with
    | .none => some { s with phase := .flushing }
    | _ => none

/-- The operation a quiesce read posts. -/
def quiesceOp (setup : Setup) (op : InFlight T) (read : QuiesceRead) (entry : Nat)
    (descriptor : Option Nat) : PostedOp where
  context := op.number
  kind := .quiesce
  client := op.clientId
  quiesces := false
  entry := entry
  remoteKey := read.remoteKey
  remoteAddress := read.remoteAddress
  pointer := setup.quiescePointer
  length := 1
  descriptor := descriptor

/-- `post_quiesce` from the registered landing on. The read's lease takes the place of the
write's, and the box goes behind its pointer for the call. `s` has dropped the peer. -/
def postQuiesce (setup : Setup) (s : State T) (waiting : Quiescing T) (entry : Nat)
    (operand : LocalOperand) (code : Int) (first now : Nat) : State T :=
  let op := { waiting.inflight with localLease := operand.lease }
  let s := { s with cache := s.cache.dropLease waiting.inflight.localLease }
  let raw := s.queues.raw.insert op.number op
  if code = 0 then
    { s with
      queues := { s.queues with raw := raw }
      wire := s.wire.post (quiesceOp setup op waiting.read entry operand.descriptor)
      pass := { s.pass with inFlight := s.pass.inFlight + 1, posted := s.pass.posted + 1 }
      phase := .quiescing }
  else
    -- Not posted: the box is reclaimed, and the read's lease is in it.
    match reclaim raw op.number with
    | none => s.fault
    | some (op, raw) =>
      let s := { s with queues := { s.queues with raw := raw } }
      if code = -fiEagain then
        let since := waiting.stalledSince.getD first
        if now - since < setup.configuration.progressDeadline then
          { s with
            queues :=
              { s.queues with
                quiescing := s.queues.quiescing ++ [⟨op, waiting.read, some since⟩] }
            phase := .quiescing }
        else
          { s with
            phase :=
              .failingQuiesce op (noQuiesceProgress setup.configuration.progressDeadline) }
      else
        { s with
          phase := .failingQuiesce op (fabricError setup.lib (asI32 code) "quiesce read") }

/-- `post_quiesce` after the peer. The landing has no cacheable span. -/
def stepQuiesceOperand (setup : Setup) (s : State T) (waiting : Quiescing T) (entry : Nat) :
    OperandCall → Answer → Option (State T)
  | .done operand, .rma code first now =>
    if s.clock ≤ first ∧ first ≤ now then
      some (({ s with books := s.books.dropPeer entry, clock := now } : State T).postQuiesce setup
        waiting entry operand code first now)
    else none
  | .failed error, .none =>
    some { s with
      books := s.books.dropPeer entry
      phase := .failingQuiesce waiting.inflight error }
  | _, .region (.span (some _)) => none
  -- The registration takes its sections one by one, between those of other threads.
  | call, .region answer =>
    (call.step setup.lib setup.device.domain s.cache answer).map fun next =>
      { s with cache := next.1, phase := .quiesceOperand waiting entry next.2 }
  | _, _ => none

/-- Fails a completed write that was not quiesced, and goes back to the queue. -/
def stepFailingQuiesce (setup : Setup) (s : State T) (op : InFlight T) (error : DmaError) :
    State T :=
  ({ s with phase := .quiescing } : State T).finishUnreaped setup op error

/-! ### The end of a pass -/

/-- Nothing queued and nothing in flight. -/
def isIdle (s : State T) : Bool :=
  s.queues.pending.isEmpty && s.queues.quiescing.isEmpty && decide (0 = s.pass.inFlight)

/-- The checksummed batch goes to the pool when it is due. -/
def stepFlushing (s : State T) : State T :=
  let idle := s.isIdle
  let s := { s with pass := { s.pass with idle := idle }, phase := .completing }
  if shouldFlushCrc s.queues.crcPending.length s.pass.posted s.pass.reapedAny idle then
    { s with
      queues := { s.queues with crcPending := [] }
      pool := s.pool ++ [⟨s.queues.crcPending, []⟩] }
  else s

/-- `complete_batch` on what is staged, unless the worker takes another pass first. -/
def stepCompleting (s : State T) : State T :=
  if s.queues.completions = [] then { s with phase := .parking }
  -- `continue`: not even a disconnected channel ends the loop here.
  else if s.queues.completions.length < targetCompletions ∧ s.pass.drainSpins < 10 then
    { s with
      pass := { s.pass with drainSpins := s.pass.drainSpins + 1 }
      phase := .intake }
  else
    { s with
      pass := { s.pass with drainSpins := 0 }
      queues := { s.queues with completions := [] }
      delivered := s.delivered ++ s.queues.completions
      phase := .parking }

/-- Exit, block on the channel, or take another pass. -/
def stepParking [Operands T] (setup : Setup) (s : State T) (answer : Answer) : Option (State T) :=
  if s.pass.disconnected ∧ s.pass.idle then
    match answer with
    | .none => some { s with phase := .exiting }
    | _ => none
  else if s.pass.idle then
    -- `recv` blocks on an empty channel, so there is no move till it is written to or closed.
    if s.callers.channel = [] then
      match answer with
      | .none =>
        if s.callers.service = .dropped then some { s with phase := .exiting } else none
      | _ => none
    else s.takeMessage setup answer
  else
    match answer with
    | .none => some { s with phase := .intake }
    | _ => none

/-! ### Shutdown -/

/-- Reclaims the boxes of what was never posted. -/
def reclaimAll (raw : Assoc Nat (InFlight T)) :
    List Prepared → Option (List (InFlight T) × Assoc Nat (InFlight T))
  | [] => some ([], raw)
  | prepared :: pending =>
    match reclaim raw prepared.context with
    | none => none
    | some (op, raw) => (reclaimAll raw pending).map fun rest => (op :: rest.1, rest.2)

/-- Fails never-posted requests and finishes deferred checksummed completions inline. -/
def stepExiting (setup : Setup) (s : State T) : State T :=
  match reclaimAll s.queues.raw s.queues.pending with
  | none => s.fault
  | some (ops, raw) =>
    let gone := ops.map fun op =>
      op.intoCompletion (s.crc setup) (.error (.fabric "fabric worker is gone"))
    let hashed := s.queues.crcPending.map fun op => op.1.intoCompletion (s.crc setup) op.2
    { s with
      cache :=
        s.cache.dropLeases
          (ops.flatMap (fun op => op.localLease.toList)
            ++ s.queues.crcPending.flatMap fun op => op.1.localLease.toList)
      queues := { s.queues with raw := raw, pending := [], crcPending := [] }
      delivered := s.delivered ++ (gone ++ hashed)
      phase := .clearing }

/-- Drops the clone of the pool's `Arc`, and returns. The last clone takes the pool with it:
`Pool::drop` closes the channels and joins the threads, which run every job first. -/
def stepLeaving (s : State T) : Option (State T) :=
  if s.poolShared ∨ s.pool = [] then some { s with phase := .exited } else none

/-! ### The worker -/

/-- The end of a pin: the startup goes on or gives up, or the message is answered. -/
def pinned (s : State T) (result : Except DmaError Unit) : Pinning → State T
  | .quiesce =>
    match result with
    -- The quiesce buffer is pinned for the life of the worker.
    | .ok () => { s with phase := .announcing }
    | .error _ => { s with phase := .clearing }
  | .message number =>
    { s with
      callers := { s.callers with answers := s.callers.answers ++ [(number, result)] }
      phase := .intake }

/-- A section of a pin, or its end. -/
def stepPinning (setup : Setup) (s : State T) (purpose : Pinning) (base limit : Nat) :
    PinCall → Answer → Option (State T)
  | .done result, .none => some (s.pinned result purpose)
  | call, .region answer =>
    (call.step setup.lib setup.device.domain base limit s.cache answer).map fun next =>
      { s with cache := next.1, phase := .pinning purpose base limit next.2 }
  | _, _ => none

/-- The worker's move. -/
def stepWorker [Operands T] (setup : Setup) (s : State T) (answer : Answer) : Option (State T) :=
  match s.phase with
  | .starting =>
    match answer with
    | .none =>
      -- The quiesce buffer is eight bytes long.
      if setup.configuration.quiesceWrites ∧ setup.device.requiresLocalMr then
        some { s with
          phase :=
            .pinning .quiesce setup.quiescePointer (setup.quiescePointer + 8)
              (.begin setup.quiescePointer 8) }
      else some { s with phase := .announcing }
    | _ => none
  | .pinning purpose base limit call => s.stepPinning setup purpose base limit call answer
  | .announcing =>
    match answer with
    | .address (.ok _) =>
      some { s with callers := { s.callers with service := .serving }, phase := .intake }
    -- The worker returns before its loop, so the endpoint drops at once.
    | .address (.error _) => some { s with phase := .clearing }
    | _ => none
  | .intake => s.stepIntake setup answer
  | .posting => s.stepPosting setup answer
  | .operand prepared entry call => s.stepOperand setup prepared entry call answer
  | .failing prepared error =>
    match answer with
    | .none => some (s.stepFailing setup prepared error)
    | _ => none
  | .reaping => s.stepReaping setup answer
  | .dispatching => s.stepDispatching setup answer
  | .quiescing => s.stepQuiescing setup answer
  | .quiesceOperand waiting entry call => s.stepQuiesceOperand setup waiting entry call answer
  | .failingQuiesce op error =>
    match answer with
    | .none => some (s.stepFailingQuiesce setup op error)
    | _ => none
  | .flushing =>
    match answer with
    | .none => some s.stepFlushing
    | _ => none
  | .completing =>
    match answer with
    | .none => some s.stepCompleting
    | _ => none
  | .parking => s.stepParking setup answer
  | .exiting =>
    match answer with
    | .none => some (s.stepExiting setup)
    | _ => none
  | .clearing =>
    match answer with
    | .none =>
      -- The endpoint drops: its regions leave the cache, then the peers go, then the domain closes.
      let cleared := s.cache.clearDomain setup.device.domain
      some { s with cache := cleared.1, phase := .dropping cleared.2 }
    | _ => none
  | .dropping cleared =>
    match answer with
    | .none =>
      some { s with
        cache := s.cache.dropLeases cleared
        books := { s.books with peers := s.books.peers.clear }
        phase := .closing }
    | _ => none
  | .closing =>
    match answer with
    | .none => some { s with domainClosed := true, phase := .leaving }
    | _ => none
  | .leaving =>
    match answer with
    | .none => s.stepLeaving
    | _ => none
  | .exited => none
  | .faulted => none

/-! ### The callers and the pool -/

/-- Sends a message and numbers it. -/
def enqueue (s : State T) (message : WorkerMessage (Tagged T)) : State T :=
  { s with
    callers :=
      { s.callers with
        arrivals := s.callers.arrivals + 1
        channel := s.callers.channel ++ [(s.callers.arrivals, message)] } }

/-- The request as it travels, its context numbered. -/
def tagRequest (number : Nat) (request : TransferRequest T) : TransferRequest (Tagged T) :=
  { clientId := request.clientId
    peerAddress := request.peerAddress
    remoteKey := request.remoteKey
    remoteAddress := request.remoteAddress
    direction := request.direction
    wantChecksum := request.wantChecksum
    callerContext := ⟨number, request.callerContext⟩ }

/-- The second half of `submit`. The send fails once the worker is gone, and the count is
taken back. -/
def stepSend (s : State T) (i : Nat) : Option (State T) :=
  match s.callers.submitting[i]? with
  | none => none
  | some request =>
    let s :=
      { s with callers := { s.callers with submitting := s.callers.submitting.eraseIdx i } }
    match s.phase with
    -- The receiver is gone with the worker.
    | .exited => some { s with books := s.books.releaseOutstanding }
    | _ =>
      let request := tagRequest s.callers.arrivals request
      some
        (({ s with callers := { s.callers with sent := s.callers.sent ++ [request] } } :
          State T).enqueue (.transfer request))

/-- The pool hashes the next op of a job. -/
def stepHash (setup : Setup) (s : State T) (i : Nat) : Option (State T) :=
  match s.pool[i]? with
  | some ⟨(op, result) :: batch, done⟩ =>
    some { s with
      cache := s.cache.dropLease op.localLease
      pool := s.pool.set i ⟨batch, done ++ [op.intoCompletion (s.crc setup) result]⟩ }
  | _ => none

/-- The pool delivers a job that has hashed all its ops. -/
def stepFinish (s : State T) (i : Nat) : Option (State T) :=
  match s.pool[i]? with
  | some ⟨[], done⟩ =>
    some { s with pool := s.pool.eraseIdx i, delivered := s.delivered ++ done }
  | _ => none

/-- One move. -/
def step [Operands T] (setup : Setup) (s : State T) : Move T → Option (State T)
  | .submit request =>
    if s.callers.service = .serving then
      some { s with
        books := { s.books with outstanding := s.books.outstanding + 1 }
        callers := { s.callers with submitting := s.callers.submitting ++ [request] } }
    else none
  | .send i => s.stepSend i
  | .addPeer client address =>
    if s.callers.service = .serving then some (s.enqueue (.addPeer client address)) else none
  | .removePeer client =>
    if s.callers.service = .serving then some (s.enqueue (.removePeer client)) else none
  | .register base length =>
    if s.callers.service = .serving then
      match registerSpan base length with
      | .ok _ => some (s.enqueue (.register base length))
      | .error _ => some s
    else none
  | .dropService =>
    if s.callers.service = .serving ∧ s.callers.submitting = [] then
      some { s with callers := { s.callers with service := .dropped } }
    else none
  | .worker answer => s.stepWorker setup answer
  | .hash job => s.stepHash setup job
  | .finish job => s.stepFinish job
  | .releasePool => if s.poolShared then some { s with poolShared := false } else none
  | .thread step =>
    (step.run setup.device.domain s.cache s.threads).map fun next =>
      { s with cache := next.1, threads := next.2 }
  | .write memory => some { s with memory := memory }

/-- A service about to start, in a process whose cache holds what other threads have
there. -/
def start (setup : Setup) : State T where
  callers := ⟨.starting, [], 0, [], [], []⟩
  books := .start setup.device.format
  queues := .empty
  pass := ⟨0, 0, 0, false, false, false, 0⟩
  phase := .starting
  cache := .empty
  threads := []
  wire := .empty
  pool := []
  poolShared := true
  delivered := []
  domainClosed := false
  clock := 0
  memory := fun _ => 0

end State

/-- One service, its worker, and everybody around it. -/
def service (T : Type) [Operands T] (setup : Setup) : Machine (State T) (Move T) where
  init s := s = State.start setup
  step := State.step setup

end Vdma.Fabric
