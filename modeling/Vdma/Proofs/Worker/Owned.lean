import Vdma.Proofs.Worker.Settled

/-!
# `Vdma.Proofs.Worker.Owned`: every op is in one place

An op is first a request in the channel, then a box, then a completion. The box is
behind a pointer, or it waits for its quiesce read or its hash. `State.owners f` sums
`f` over the context of every op, wherever it is.

`Owned` is the law: the ops in all places are the transfers that were sent, each once.
Its second part counts the pointers. The pending queue, the post in hand, libfabric and
the reaped batch together point once to each box, and to nothing else. So a reclaim
always finds its box, and no box is reclaimed twice.

Sums stand for counts here. The indicator of a number counts the places of one op, and
a law for every `f` says that the contexts themselves are the ones that were sent.
-/

set_option autoImplicit false

namespace Vdma.Fabric

open Vdma.Lib

variable {T : Type}

/-- The number of a request. -/
abbrev TransferRequest.number (request : TransferRequest (Tagged T)) : Nat :=
  request.callerContext.number

/-- The number of a finished op. -/
abbrev Completion.number (completion : Completion (Tagged T)) : Nat :=
  completion.callerContext.number

/-- The context a transfer comes back with. The landing buffer may have been allocated in
it. -/
def returned [Operands T] (request : TransferRequest (Tagged T)) : Tagged T :=
  ⟨request.number, (resolveOperand request.direction request.callerContext.user).2⟩

/-- The transfers among the messages of a channel. -/
def transfers (channel : List (Nat × WorkerMessage (Tagged T))) :
    List (TransferRequest (Tagged T)) :=
  channel.filterMap fun m =>
    match m.2 with
    | .transfer request => some request
    | _ => none

/-- A transfer at the head of the channel comes first. -/
@[simp] theorem transfers_cons_transfer (number : Nat) (request : TransferRequest (Tagged T))
    (channel : List (Nat × WorkerMessage (Tagged T))) :
    transfers ((number, .transfer request) :: channel) = request :: transfers channel := rfl

/-- The transfers come in the order of the channel. -/
@[simp] theorem transfers_append (channel channel' : List (Nat × WorkerMessage (Tagged T))) :
    transfers (channel ++ channel') = transfers channel ++ transfers channel' :=
  List.filterMap_append

/-- A message that is no transfer adds none. -/
theorem transfers_other {number : Nat} {message : WorkerMessage (Tagged T)}
    (h : ∀ request, message ≠ .transfer request)
    (channel : List (Nat × WorkerMessage (Tagged T))) :
    transfers ((number, message) :: channel) = transfers channel := by
  cases message with
  | transfer request => exact absurd rfl (h request)
  | addPeer client address => rfl
  | removePeer client => rfl
  | register base length => rfl

/-- What `prepare` builds belongs to the request. -/
theorem prepare_ok [Operands T] {request : TransferRequest (Tagged T)} {quiesceWrites : Bool}
    {op : InFlight T} {prepared : Prepared}
    (h : prepare request quiesceWrites = .ok (op, prepared)) :
    op.callerContext = returned request ∧ op.clientId = request.clientId ∧
      op.localLease = none ∧ prepared.context = request.number ∧
      prepared.clientId = request.clientId ∧ prepared.peerAddress = request.peerAddress := by
  unfold prepare at h
  dsimp only at h
  split at h
  · cases h
  · split at h <;> cases h
    exact ⟨rfl, rfl, rfl, rfl, rfl, rfl⟩

/-- A refused request comes back with its context and an error. -/
theorem prepare_error [Operands T] {request : TransferRequest (Tagged T)} {quiesceWrites : Bool}
    {completion : Completion (Tagged T)} (h : prepare request quiesceWrites = .error completion) :
    completion.callerContext = returned request ∧ ∃ error, completion.outcome = .error error := by
  unfold prepare at h
  dsimp only at h
  split at h
  · cases h
    exact ⟨rfl, _, rfl⟩
  · split at h <;> cases h
    exact ⟨rfl, _, rfl⟩

namespace State

/-- The sum of `f` over the ops that were taken in and are not finished. -/
def live (f : InFlight T → Nat) (s : State T) : Nat :=
  Assoc.weight f s.queues.raw + (s.queues.quiescing.map fun waiting => f waiting.inflight).sum
    + (s.phase.inHand.map f).sum

/-- The sum of `f` over the finished ops that are yet to be hashed. -/
def hashing (f : InFlight T → Nat) (s : State T) : Nat :=
  (s.queues.crcPending.map fun op => f op.1).sum
    + (s.pool.map fun job => (job.batch.map fun op => f op.1).sum).sum

/-- The sum of `f` over the completions. -/
def finished (f : Completion (Tagged T) → Nat) (s : State T) : Nat :=
  (s.queues.completions.map f).sum + (s.pool.map fun job => (job.done.map f).sum).sum
    + (s.delivered.map f).sum

/-- The sum of `f` over the contexts of all ops, wherever they are. -/
def owners [Operands T] (f : Tagged T → Nat) (s : State T) : Nat :=
  ((transfers s.callers.channel).map fun request => f (returned request)).sum
    + s.live (fun op => f op.callerContext) + s.hashing (fun op => f op.callerContext)
    + s.finished fun completion => f completion.callerContext

/-- The sum of `f` over the pointers to boxes. -/
def pointers (f : Nat → Nat) (s : State T) : Nat :=
  (s.queues.pending.map fun prepared => f prepared.context).sum
    + (s.phase.prepared.map fun prepared => f prepared.context).sum
    + (s.wire.posts.map fun op => f op.context).sum + (s.queues.reaped.map fun r => f r.1).sum

end State

/-- The indicator of one number. -/
def indicator (number : Nat) (k : Nat) : Nat := if k = number then 1 else 0

/-- Counting by a number is summing its indicator. -/
theorem sum_map_indicator {α : Type} (g : α → Nat) (number : Nat) (l : List α) :
    (l.map fun a => indicator number (g a)).sum = (l.map g).count number :=
  sum_indicator g number l

/-- Every op is in one place. -/
structure Owned [Operands T] (s : State T) : Prop where
  /-- A box is behind the pointer that is its number. -/
  named : ∀ context op, s.queues.raw.lookup context = some op → op.number = context
  /-- The pointers are those to the boxes. -/
  pointed : ∀ f : Nat → Nat, s.pointers f = Assoc.weight (fun op => f op.number) s.queues.raw
  /-- The ops are the transfers that were sent. -/
  tickets : ∀ f : Tagged T → Nat,
    s.owners f = (s.callers.sent.map fun request => f (returned request)).sum
  unique : (s.callers.sent.map TransferRequest.number).Nodup
  numbered : ∀ request ∈ s.callers.sent, request.number < s.callers.arrivals

namespace Owned

variable [Operands T] {setup : Setup} {s s' : State T} {m : Move T}

/-- At the start nothing was sent and nobody owns anything. -/
theorem start (setup : Setup) : Owned (State.start setup : State T) where
  named context op h := by cases h
  pointed f := rfl
  tickets f := rfl
  unique := List.nodup_nil
  numbered request h := by cases h

/-- One op is in at most one place. -/
theorem owners_le (h : Owned s) (number : Nat) :
    s.owners (fun context => indicator number context.number) ≤ 1 := by
  rw [h.tickets]
  have hcount := sum_map_indicator TransferRequest.number number s.callers.sent
  have hone := List.nodup_iff_count_le_one.mp h.unique number
  show (s.callers.sent.map fun request => indicator number request.number).sum ≤ 1
  omega

/-- A box behind its pointer is one place. -/
theorem le_weight (h : Owned s) {context : Nat} {op : InFlight T}
    (hop : s.queues.raw.lookup context = some op) :
    1 ≤ Assoc.weight (fun op => indicator context op.number) s.queues.raw := by
  have hle := Assoc.le_weight_of_lookup hop fun op => indicator context op.number
  have hone : indicator context op.number = 1 := if_pos (h.named context op hop)
  omega

/-- An op in the channel has no box yet. -/
theorem lookup_of_channel (h : Owned s) {request : TransferRequest (Tagged T)} {number : Nat}
    {channel : List (Nat × WorkerMessage (Tagged T))}
    (hchannel : s.callers.channel = (number, .transfer request) :: channel) :
    s.queues.raw.lookup request.number = none := by
  by_contra hne
  obtain ⟨op, hop⟩ := Option.ne_none_iff_exists'.mp hne
  have hle := h.owners_le request.number
  have hweight := h.le_weight hop
  have hone : indicator request.number (returned request).number = 1 := if_pos rfl
  simp only [State.owners, State.live, hchannel, transfers_cons_transfer, List.map_cons,
    List.sum_cons] at hle
  simp only [InFlight.number] at hweight
  omega

/-- An op in hand is behind no pointer. -/
theorem lookup_of_inHand (h : Owned s) {op : InFlight T} (hop : op ∈ s.phase.inHand) :
    s.queues.raw.lookup op.number = none := by
  by_contra hne
  obtain ⟨op', hop'⟩ := Option.ne_none_iff_exists'.mp hne
  have hle := h.owners_le op.number
  have hweight := h.le_weight hop'
  have hone : indicator op.number op.callerContext.number = 1 := if_pos rfl
  have hhand := le_sum_map hop fun op' => indicator op.number op'.callerContext.number
  simp only [State.owners, State.live] at hle
  simp only [InFlight.number] at hweight hhand hone hle
  omega

/-- A pointer points to a box. -/
theorem lookup_of_pointed (h : Owned s) {context : Nat}
    (hpos : 0 < s.pointers (indicator context)) :
    s.queues.raw.lookup context ≠ none := by
  rw [h.pointed, Assoc.weight_pos_iff] at hpos
  obtain ⟨op, hop, hpos⟩ := hpos
  obtain ⟨k, hk⟩ := Assoc.mem_values_iff.mp hop
  have hnumber : op.number = context := by
    by_contra hne
    simp [indicator, hne] at hpos
  rw [← hnumber, h.named k op hk, hk]
  nofun

/-- No pointer dangles. -/
theorem backed (h : Owned s) : Backed s where
  prepared prepared hprepared := by
    refine h.lookup_of_pointed ?_
    have hle := le_sum_map hprepared fun p => indicator prepared.context p.context
    simp only [indicator, if_true] at hle
    simp only [State.pointers, indicator]
    omega
  reaped reaped hreaped := by
    refine h.lookup_of_pointed ?_
    have hle := le_sum_map hreaped fun r => indicator reaped.1 r.1
    simp only [indicator, if_true] at hle
    simp only [State.pointers, indicator]
    omega

/-- A move that sends nothing keeps the law when it keeps the sums. -/
theorem of_sums (h : Owned s)
    (hnamed : ∀ context op, s'.queues.raw.lookup context = some op → op.number = context)
    (hpointers : ∀ f, s'.pointers f = Assoc.weight (fun op => f op.number) s'.queues.raw)
    (howners : ∀ f, s'.owners f = s.owners f) (hsent : s'.callers.sent = s.callers.sent)
    (harrivals : s'.callers.arrivals = s.callers.arrivals) : Owned s' where
  named := hnamed
  pointed := hpointers
  tickets f := by rw [howners, hsent]; exact h.tickets f
  unique := by rw [hsent]; exact h.unique
  numbered := by rw [hsent, harrivals]; exact h.numbered

/-- A move that leaves the boxes behind pointers alone. -/
theorem of_raw (h : Owned s) (hraw : s'.queues.raw = s.queues.raw)
    (hpointers : ∀ f, s'.pointers f = s.pointers f) (howners : ∀ f, s'.owners f = s.owners f)
    (hsent : s'.callers.sent = s.callers.sent)
    (harrivals : s'.callers.arrivals = s.callers.arrivals) : Owned s' := by
  refine h.of_sums ?_ ?_ howners hsent harrivals
  · rw [hraw]
    exact h.named
  · intro f
    rw [hraw, hpointers]
    exact h.pointed f

/-- What leaves the queues and the hands alone moves no op. -/
theorem of_hands (h : Owned s) (hprepared : s'.phase.prepared = s.phase.prepared)
    (hinHand : s'.phase.inHand = s.phase.inHand) (hqueues : s'.queues = s.queues)
    (hwire : s'.wire = s.wire) (hpool : s'.pool = s.pool) (hdelivered : s'.delivered = s.delivered)
    (hchannel : s'.callers.channel = s.callers.channel) (hsent : s'.callers.sent = s.callers.sent)
    (harrivals : s'.callers.arrivals = s.callers.arrivals) : Owned s' := by
  refine h.of_raw (by rw [hqueues]) (fun f => ?_) (fun f => ?_) hsent harrivals
  · simp only [State.pointers, hprepared, hqueues, hwire]
  · simp only [State.owners, State.live, State.hashing, State.finished, hinHand, hqueues, hpool,
      hdelivered, hchannel]

/-- Taking a message that is no transfer moves no op. -/
theorem of_message (h : Owned s) {number : Nat} {message : WorkerMessage (Tagged T)}
    {channel : List (Nat × WorkerMessage (Tagged T))} (htakes : Takes s)
    (hchannel : s.callers.channel = (number, message) :: channel)
    (hmessage : ∀ request, message ≠ .transfer request) (hprepared : s'.phase.prepared = [])
    (hinHand : s'.phase.inHand = []) (hchannel' : s'.callers.channel = channel)
    (hqueues : s'.queues = s.queues) (hwire : s'.wire = s.wire) (hpool : s'.pool = s.pool)
    (hdelivered : s'.delivered = s.delivered) (hsent : s'.callers.sent = s.callers.sent)
    (harrivals : s'.callers.arrivals = s.callers.arrivals) : Owned s' := by
  have hrests := htakes.rests
  refine h.of_raw (by rw [hqueues]) (fun f => ?_) (fun f => ?_) hsent harrivals
  · simp only [State.pointers, hprepared, hrests.prepared, hqueues, hwire]
  · simp only [State.owners, State.live, State.hashing, State.finished, hinHand, hrests.inHand,
      hqueues, hpool, hdelivered, hchannel, hchannel', transfers_other hmessage]

/-- A box put behind its own number keeps the names. -/
theorem named_insert (h : Owned s) {context : Nat} {op : InFlight T} (hop : op.number = context) :
    ∀ context' op', (s.queues.raw.insert context op).lookup context' = some op' →
      op'.number = context' := by
  intro context' op' hlookup
  by_cases heq : context' = context
  · subst heq
    rw [AList.lookup_insert] at hlookup
    cases hlookup
    exact hop
  · rw [AList.lookup_insert_ne heq] at hlookup
    exact h.named context' op' hlookup

/-- Taking a box away leaves the others their names. -/
theorem named_erase (h : Owned s) (context : Nat) :
    ∀ context' op', (s.queues.raw.erase context).lookup context' = some op' →
      op'.number = context' := by
  intro context' op' hlookup
  by_cases heq : context' = context
  · subst heq
    rw [AList.lookup_erase] at hlookup
    cases hlookup
  · rw [AList.lookup_erase_ne heq] at hlookup
    exact h.named context' op' hlookup

/-- What the callers send is in the channel, under a new number. -/
theorem step_callers (h : Owned s) (hmove : MovesIn setup s .callers m s') : Owned s' := by
  have hpointed := h.pointed
  cases hmove with
  -- What is not sent yet owns nothing.
  | submit request hserving | sendFails i request hi hphase | dropService =>
    exact h.of_raw rfl (fun _ => rfl) (fun _ => rfl) rfl rfl
  -- The request takes a number of its own, and is in the channel.
  | send i request hi hphase =>
    refine ⟨h.named, hpointed, fun f => ?_, ?_, fun request' hrequest' => ?_⟩
    · have htickets := h.tickets f
      simp only [State.owners, State.live, State.hashing, State.finished, transfers_append,
        transfers_cons_transfer, List.map_append, List.sum_append, List.map_cons, List.sum_cons]
        at htickets ⊢
      show _ = _
      simp only [transfers, List.filterMap_nil, List.map_nil, List.sum_nil] at *
      omega
    · -- The new number is above all that were given before.
      rw [List.map_append, List.nodup_append]
      refine ⟨h.unique, List.nodup_singleton _, fun number hnumber number' hnumber' => ?_⟩
      obtain ⟨request', hrequest', rfl⟩ := List.mem_map.mp hnumber
      have hlt := h.numbered request' hrequest'
      have hnew : number' = s.callers.arrivals := by simpa [State.tagRequest] using hnumber'
      omega
    · rcases List.mem_append.mp hrequest' with hold | hnew
      · have hlt := h.numbered request' hold
        show request'.number < s.callers.arrivals + 1
        omega
      · rw [List.mem_singleton.mp hnew]
        exact Nat.lt_succ_self _
  -- The message is no transfer, and takes a number.
  | message message hserving hmessage =>
    refine ⟨h.named, hpointed, fun f => ?_, h.unique, fun request hrequest => ?_⟩
    · have htickets := h.tickets f
      simp only [State.owners, State.enqueue, transfers_append, transfers_other hmessage] at *
      simp only [transfers, List.filterMap_nil, List.append_nil] at *
      exact htickets
    · have hlt := h.numbered request hrequest
      show request.number < s.callers.arrivals + 1
      omega
  | refused => exact h

/-- A job of the pool has an op, and then its completion. -/
theorem step_others (h : Owned s) (hmove : MovesIn setup s .others m s') : Owned s' := by
  cases hmove with
  | thread | write | releasePool =>
    exact h.of_raw rfl (fun _ => rfl) (fun _ => rfl) rfl rfl
  | hash before after op result batch done hpool =>
    refine h.of_raw rfl (fun _ => rfl) (fun f => ?_) rfl rfl
    simp only [State.owners, State.live, State.hashing, State.finished, hpool, List.map_append,
      List.sum_append, List.map_cons, List.sum_cons, List.map_nil, List.sum_nil,
      InFlight.intoCompletion]
    omega
  | finish before after done hpool =>
    refine h.of_raw rfl (fun _ => rfl) (fun f => ?_) rfl rfl
    simp only [State.owners, State.live, State.hashing, State.finished, hpool, List.map_append,
      List.sum_append, List.map_cons, List.sum_cons, List.map_nil, List.sum_nil]
    omega

/-- A change of phase moves no op. -/
theorem step_turning (h : Owned s) (hmove : MovesIn setup s .turning m s') : Owned s' := by
  cases hmove with
  | turn hturn =>
    obtain ⟨hrests, hrests', -⟩ := hturn.rests
    exact h.of_hands (hrests'.prepared.trans hrests.prepared.symm)
      (hrests'.inHand.trans hrests.inHand.symm) rfl rfl rfl rfl rfl rfl rfl

/-- Nor does a pin. -/
theorem step_pinning (h : Owned s) (hmove : MovesIn setup s .pinning m s') : Owned s' := by
  cases hmove with
  | pinnedQuiesce base limit result phase hphase hnext =>
    rcases hnext with rfl | rfl
    all_goals
      exact h.of_hands (by rw [hphase]; rfl) (by rw [hphase]; rfl) rfl rfl rfl rfl rfl rfl rfl
  | _ =>
    -- The phase changes, and nothing changes hands.
    exact h.of_hands (by rw [‹s.phase = _›]; rfl) (by rw [‹s.phase = _›]; rfl) rfl rfl rfl rfl rfl
      rfl rfl

/-- A transfer that is taken gets its box, or comes back at once. -/
theorem step_intake (h : Owned s) (hmove : MovesIn setup s .intake m s') : Owned s' := by
  have hpointed := h.pointed
  cases hmove with
  | accept number request channel op prepared htakes hchannel hprepare =>
    obtain ⟨hcontext, -, -, hpointer, -, -⟩ := prepare_ok hprepare
    have hnumber : op.number = prepared.context := by
      rw [hpointer, InFlight.number, hcontext]
      rfl
    have hnone := h.lookup_of_channel hchannel
    rw [← hpointer] at hnone
    have hrests := htakes.rests
    have hintake : (Phase.intake : Phase T).Rests := Phase.rests_intake
    -- The pointer goes from the channel to the queue, and the context from the request to its box.
    refine h.of_sums (h.named_insert hnumber) (fun f => ?_) (fun f => ?_) rfl rfl
    · have hf := hpointed f
      rw [Assoc.weight_insert_of_none hnone, hnumber, ← hf]
      simp only [State.pointers, State.popped, hrests.prepared, hintake.prepared, List.map_append,
        List.sum_append, List.map_cons, List.sum_cons, List.map_nil, List.sum_nil]
      omega
    · simp only [State.owners, State.live, State.hashing, State.finished, State.popped,
        hrests.inHand, hintake.inHand, hchannel, transfers_cons_transfer,
        Assoc.weight_insert_of_none hnone, hcontext, List.map_cons, List.sum_cons]
      omega
  | refuse number request channel completion htakes hchannel hprepare =>
    obtain ⟨hcontext, -⟩ := prepare_error hprepare
    have hrests := htakes.rests
    have hintake : (Phase.intake : Phase T).Rests := Phase.rests_intake
    -- The context goes from the request to its completion.
    refine h.of_raw rfl (fun f => ?_) (fun f => ?_) rfl rfl
    · simp only [State.pointers, State.popped, hrests.prepared, hintake.prepared]
    · simp only [State.owners, State.live, State.hashing, State.finished, State.popped,
        hrests.inHand, hintake.inHand, hchannel, transfers_cons_transfer, List.map_append,
        List.sum_append, List.map_cons, List.sum_cons, List.map_nil, List.sum_nil, hcontext]
      omega
  | addPeer number client address inserted entry channel books htakes hchannel hinsert
  | addPeerFails number client address inserted error channel books htakes hchannel hinsert
  | removePeer number client channel htakes hchannel
  | pinMessage number base length channel htakes hchannel
  | nothingToPin number base length channel htakes hchannel =>
    exact h.of_message htakes hchannel (by simp) rfl rfl rfl rfl rfl rfl rfl rfl rfl

/-- The pointer of a transfer goes from the queue to libfabric, or its op is finished. -/
theorem step_posting (h : Owned s) (hmove : MovesIn setup s .posting m s') : Owned s' := by
  have hpointed := h.pointed
  cases hmove with
  | posted prepared entry operand now op hphase hclock hraw =>
    have hnumber := h.named _ _ hraw
    have hnumber' : (State.posted op prepared operand.lease).number = prepared.context := hnumber
    refine h.of_sums (h.named_insert hnumber') (fun f => ?_) (fun f => ?_) rfl rfl
    · -- The pointer goes from the hand to libfabric.
      have hf := hpointed f
      have hweight := Assoc.weight_insert_of_some hraw (fun op => f op.number)
        (State.posted op prepared operand.lease)
      simp only [State.pointers, hphase, Phase.prepared, Wire.post, State.postedOp,
        List.map_append, List.sum_append, List.map_cons, List.sum_cons, List.map_nil,
        List.sum_nil] at hf ⊢
      simp only [State.posted, InFlight.number] at hweight hf ⊢
      omega
    · have hweight := Assoc.weight_insert_of_some hraw (fun op => f op.callerContext)
        (State.posted op prepared operand.lease)
      simp only [State.owners, State.live, State.hashing, State.finished, hphase, Phase.inHand]
      simp only [State.posted] at hweight ⊢
      omega
  | failed prepared error op hphase hraw =>
    refine h.of_sums (h.named_erase _) (fun f => ?_) (fun f => ?_) rfl rfl
    · have hf := hpointed f
      have hweight := Assoc.weight_of_lookup hraw fun op => f op.number
      rw [h.named _ _ hraw] at hweight
      simp only [State.pointers, hphase, Phase.prepared, List.map_cons, List.sum_cons,
        List.map_nil, List.sum_nil] at hf ⊢
      omega
    · have hweight := Assoc.weight_of_lookup hraw fun op => f op.callerContext
      simp only [State.owners, State.live, State.hashing, State.finished, hphase, Phase.inHand,
        InFlight.intoCompletion, List.map_append, List.sum_append, List.map_cons, List.sum_cons,
        List.map_nil, List.sum_nil]
      omega
  | attempt prepared pending inserted entry books hphase hpending hinsert
  | attemptFails prepared pending inserted error books hphase hpending hinsert =>
    refine h.of_raw rfl (fun f => ?_) (fun f => ?_) rfl rfl
    · simp only [State.pointers, hphase, Phase.prepared, hpending, List.map_cons, List.sum_cons,
        List.map_nil, List.sum_nil]
      omega
    · simp only [State.owners, State.live, State.hashing, State.finished, hphase, Phase.inHand]
  | requeued prepared entry operand since now hphase hclock =>
    refine h.of_raw rfl (fun f => ?_) (fun f => ?_) rfl rfl
    · simp only [State.pointers, hphase, Phase.prepared, List.map_append, List.sum_append,
        List.map_cons, List.sum_cons, List.map_nil, List.sum_nil]
      omega
    · simp only [State.owners, State.live, State.hashing, State.finished, hphase, Phase.inHand]
  | _ =>
    -- The phase changes, and nothing changes hands.
    exact h.of_hands (by rw [‹s.phase = _›]; rfl) (by rw [‹s.phase = _›]; rfl) rfl rfl rfl rfl rfl
      rfl rfl

/-- The pointers that libfabric gives up are reclaimed one by one. -/
theorem step_reaping (h : Owned s) (hs : Settled s) (hmove : MovesIn setup s .reaping m s') :
    Owned s' := by
  have hpointed := h.pointed
  cases hmove with
  | reap reaped wire hphase htake =>
    obtain ⟨claimed, hcontexts, hperm, -⟩ := Wire.take_spec htake
    have hnone := hs.reaped (by simp [hphase])
    refine h.of_raw rfl (fun f => ?_) (fun f => ?_) rfl rfl
    · -- The pointers libfabric gives up are those of the batch.
      have hposts := (hperm.map fun op => f op.context).sum_eq
      have hclaimed : (claimed.map fun op => f op.context).sum
          = (reaped.map fun r : Reaped => f r.1).sum := by
        have hmapped := congrArg (List.map f) hcontexts
        rw [List.map_map, List.map_map] at hmapped
        exact congrArg List.sum hmapped
      rw [List.map_append, List.sum_append] at hposts
      simp only [State.pointers, hphase, Phase.prepared, hnone, List.map_nil, List.sum_nil]
      omega
    · simp only [State.owners, State.live, State.hashing, State.finished, hphase, Phase.inHand]
  | toQuiescing context reaped op read hphase hreaped hraw hquiesce
  | toCrc context result reaped op hphase hreaped hraw hquiesce =>
    -- The pointer goes with the batch's first result, and the context with its box.
    refine h.of_sums (h.named_erase _) (fun f => ?_) (fun f => ?_) rfl rfl
    · have hf := hpointed f
      have hweight := Assoc.weight_of_lookup hraw fun op => f op.number
      rw [h.named _ _ hraw] at hweight
      simp only [State.pointers, hreaped, List.map_cons, List.sum_cons] at hf ⊢
      omega
    · have hweight := Assoc.weight_of_lookup hraw fun op => f op.callerContext
      simp only [State.owners, State.live, State.hashing, State.finished, List.map_append,
        List.sum_append, List.map_cons, List.sum_cons, List.map_nil, List.sum_nil]
      omega
  | toCompletion context result reaped op hphase hreaped hraw hquiesce =>
    -- The box goes, and its context to the completion.
    refine h.of_sums (h.named_erase _) (fun f => ?_) (fun f => ?_) rfl rfl
    · have hf := hpointed f
      have hweight := Assoc.weight_of_lookup hraw fun op => f op.number
      rw [h.named _ _ hraw] at hweight
      simp only [State.pointers, hreaped, List.map_cons, List.sum_cons] at hf ⊢
      omega
    · have hweight := Assoc.weight_of_lookup hraw fun op => f op.callerContext
      simp only [State.owners, State.live, State.hashing, State.finished, InFlight.intoCompletion,
        List.map_append, List.sum_append, List.map_cons, List.sum_cons, List.map_nil, List.sum_nil]
      omega

/-- A write that waits for its read has no pointer until the read is posted. -/
theorem step_quiescing (h : Owned s) (hmove : MovesIn setup s .quiescing m s') : Owned s' := by
  have hpointed := h.pointed
  cases hmove with
  | quiesced waiting entry operand now hphase hclock =>
    have hhand : waiting.inflight ∈ s.phase.inHand := by rw [hphase]; exact .head _
    have hnone := h.lookup_of_inHand hhand
    refine h.of_sums (h.named_insert rfl) (fun f => ?_) (fun f => ?_) rfl rfl
    · have hf := hpointed f
      rw [Assoc.weight_insert_of_none hnone, ← hf]
      simp only [State.pointers, hphase, Phase.prepared, Wire.post, State.quiesceOp,
        List.map_append, List.sum_append, List.map_cons, List.sum_cons, List.map_nil, List.sum_nil,
        InFlight.number]
      omega
    · simp only [State.owners, State.live, State.hashing, State.finished, hphase, Phase.inHand,
        Assoc.weight_insert_of_none hnone, List.map_cons, List.sum_cons, List.map_nil, List.sum_nil]
      omega
  | requiesce waiting entry operand since now hphase hclock =>
    have hhand : waiting.inflight ∈ s.phase.inHand := by rw [hphase]; exact .head _
    have hnone := h.lookup_of_inHand hhand
    refine h.of_raw (Assoc.erase_insert_of_none hnone _) (fun f => ?_) (fun f => ?_) rfl rfl
    · simp only [State.pointers, hphase, Phase.prepared]
    · simp only [State.owners, State.live, State.hashing, State.finished, hphase, Phase.inHand,
        Assoc.erase_insert_of_none hnone, List.map_append, List.sum_append, List.map_cons,
        List.sum_cons, List.map_nil, List.sum_nil]
      omega
  | quiescePostFails waiting entry operand now error hphase hclock =>
    have hhand : waiting.inflight ∈ s.phase.inHand := by rw [hphase]; exact .head _
    have hnone := h.lookup_of_inHand hhand
    refine h.of_raw (Assoc.erase_insert_of_none hnone _) (fun f => ?_) (fun f => ?_) rfl rfl
    · simp only [State.pointers, hphase, Phase.prepared]
    · simp only [State.owners, State.live, State.hashing, State.finished, hphase, Phase.inHand,
        Assoc.erase_insert_of_none hnone, List.map_cons, List.sum_cons, List.map_nil, List.sum_nil]
  | quiesce waiting quiescing inserted entry books hphase hquiescing hinsert
  | quiesceFails waiting quiescing inserted error books hphase hquiescing hinsert =>
    refine h.of_raw rfl (fun f => ?_) (fun f => ?_) rfl rfl
    · simp only [State.pointers, hphase, Phase.prepared]
    · simp only [State.owners, State.live, State.hashing, State.finished, hphase, Phase.inHand,
        hquiescing, List.map_cons, List.sum_cons, List.map_nil, List.sum_nil]
      omega
  | failedQuiesce op error hphase =>
    refine h.of_raw rfl (fun f => ?_) (fun f => ?_) rfl rfl
    · simp only [State.pointers, hphase, Phase.prepared]
    · simp only [State.owners, State.live, State.hashing, State.finished, hphase, Phase.inHand,
        InFlight.intoCompletion, List.map_append, List.sum_append, List.map_cons, List.sum_cons,
        List.map_nil, List.sum_nil]
      omega
  | _ =>
    -- The phase changes, and nothing changes hands.
    exact h.of_hands (by rw [‹s.phase = _›]; rfl) (by rw [‹s.phase = _›]; rfl) rfl rfl rfl rfl rfl
      rfl rfl

/-- At the end of a pass the ops change hands, and past the loop there are none. -/
theorem step_ending (h : Owned s) (hs : Settled s) (hmove : MovesIn setup s .ending m s') :
    Owned s' := by
  cases hmove with
  | leftover ops raw hphase hreclaim =>
    obtain ⟨rfl, rfl, hpending, hcrc⟩ := hs.leftover hphase hreclaim
    refine h.of_raw rfl (fun f => ?_) (fun f => ?_) rfl rfl
    · simp only [State.pointers, hphase, Phase.prepared, hpending]
    · simp only [State.owners, State.live, State.hashing, State.finished, hphase, Phase.inHand,
        hcrc, List.map_nil, List.append_nil]
  | flush hphase =>
    refine h.of_raw rfl (fun f => ?_) (fun f => ?_) rfl rfl
    · simp only [State.pointers, hphase, Phase.prepared]
    · simp only [State.owners, State.live, State.hashing, State.finished, hphase, Phase.inHand,
        List.map_append, List.sum_append, List.map_cons, List.sum_cons, List.map_nil, List.sum_nil]
      omega
  | deliver hphase =>
    refine h.of_raw rfl (fun f => ?_) (fun f => ?_) rfl rfl
    · simp only [State.pointers, hphase, Phase.prepared]
    · simp only [State.owners, State.live, State.hashing, State.finished, hphase, Phase.inHand,
        List.map_append, List.sum_append, List.map_nil, List.sum_nil]
      omega
  | _ =>
    -- The phase changes, and nothing changes hands.
    exact h.of_hands (by rw [‹s.phase = _›]; rfl) (by rw [‹s.phase = _›]; rfl) rfl rfl rfl rfl rfl
      rfl rfl

/-- Every move keeps every op in one place. -/
theorem step (h : Owned s) (hs : Settled s) (hmove : Moves setup s m s') : Owned s' := by
  obtain ⟨part, hmove⟩ := hmove
  cases part with
  | callers => exact h.step_callers hmove
  | others => exact h.step_others hmove
  | turning => exact h.step_turning hmove
  | pinning => exact h.step_pinning hmove
  | intake => exact h.step_intake hmove
  | posting => exact h.step_posting hmove
  | reaping => exact h.step_reaping hs hmove
  | quiescing => exact h.step_quiescing hmove
  | ending => exact h.step_ending hs hmove
  | dangling => exact (hmove.not_dangling hs h.backed).elim

end Owned

/-- In every run the phases keep their promises and every op is in one place. -/
theorem owned_reach [Operands T] {setup : Setup} {ok : State T → Move T → Prop} {s : State T}
    (h : (service T setup).Reach ok s) : Settled s ∧ Owned s := by
  refine service_invariant (J := fun _ => True) (I := fun s => Settled s ∧ Owned s)
    (fun _ _ => trivial) ⟨.start setup, .start setup⟩ ?_ h
  intro s m s' _ _ hok hmove hs
  exact ⟨hs.1.step hs.2.backed hmove, hs.2.step hs.1 hmove⟩

end Vdma.Fabric
