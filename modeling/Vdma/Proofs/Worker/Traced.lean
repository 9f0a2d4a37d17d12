import Vdma.Proofs.Worker.Peers

/-!
# `Vdma.Proofs.Worker.Traced`: what is posted is what was asked for

`Boxed` ties a posted op to its box, and `Traced` ties both to the transfer they came
from. A prepared op is what `prepare` built of a transfer that was sent. A box keeps the
read that `prepare` gave it, with no address until its transfer is posted and with the
address of the transfer from then on. `Recorded` is the outcome: every post that
libfabric ever took was made of a transfer that was sent, against an entry inserted with
exactly the address of that transfer.

`WireMove` lists what a move does to libfabric's side.
-/

set_option autoImplicit false

namespace Vdma.Fabric

open Vdma.Lib

variable {T : Type}

/-- How a move changes what libfabric holds. -/
inductive WireMove (setup : Setup) (s s' : State T) : Prop
  | keep (hwire : s'.wire = s.wire)
  | transfer (prepared : Prepared) (entry : Nat) (operand : LocalOperand) (op : InFlight T)
      (hphase : s.phase = .operand prepared entry (.done operand))
      (hraw : s.queues.raw.lookup prepared.context = some op)
      (hwire : s'.wire
        = s.wire.post (State.postedOp prepared entry operand.descriptor op.quiesce.isSome))
  | read (waiting : Quiescing T) (entry : Nat) (operand : LocalOperand)
      (hphase : s.phase = .quiesceOperand waiting entry (.done operand))
      (hwire : s'.wire
        = s.wire.post
            (State.quiesceOp setup waiting.inflight waiting.read entry operand.descriptor))
  | take (reaped : List Reaped) (hphase : s.phase = .reaping)
      (htake : s.wire.take reaped = some s'.wire)

section
variable [Operands T] {setup : Setup} {s s' : State T} {m : Move T}

/-- What a move does to libfabric's queue is a post, a read, a take or nothing. -/
theorem Moves.wireMove (hs : Settled s) (ho : Owned s) (hmove : Moves setup s m s') :
    WireMove setup s s' := by
  obtain ⟨part, hmove⟩ := hmove
  cases hmove with
  | posted prepared entry operand now op hphase hclock hraw =>
    exact .transfer prepared entry operand op hphase hraw rfl
  | quiesced waiting entry operand now hphase hclock first =>
    exact .read waiting entry operand hphase rfl
  | reap reaped wire hphase htake => exact .take reaped hphase htake
  | dangling context hraw howned => exact (ho.backed.not_dangling hraw howned).elim
  | danglingPending hphase hreclaim => exact (hs.not_danglingPending hphase hreclaim).elim
  | _ => exact .keep rfl

end

namespace WireMove

variable {setup : Setup} {s s' : State T}

/-- A posted op was posted before, or is posted against what the worker aims at. -/
theorem mem_posts (h : WireMove setup s s') {post : PostedOp} (hpost : post ∈ s'.wire.posts) :
    post ∈ s.wire.posts ∨
      ∃ address, s.phase.target = some (post.entry, post.client, address) := by
  -- A post is added for the peer of the op in hand, and for nobody else.
  cases h with
  | keep hwire =>
    rw [hwire] at hpost
    exact .inl hpost
  | transfer prepared entry operand op hphase hraw hwire =>
    rw [hwire] at hpost
    rcases List.mem_append.mp hpost with hold | hnew
    · exact .inl hold
    · right
      rw [List.mem_singleton.mp hnew, hphase]
      exact ⟨prepared.peerAddress, rfl⟩
  | read waiting entry operand hphase hwire =>
    rw [hwire] at hpost
    rcases List.mem_append.mp hpost with hold | hnew
    · exact .inl hold
    · right
      rw [List.mem_singleton.mp hnew, hphase]
      exact ⟨waiting.read.peerAddress, rfl⟩
  -- What a reap leaves was there before.
  | take reaped hphase htake =>
    obtain ⟨claimed, -, hperm, -⟩ := Wire.take_spec htake
    exact .inl (hperm.mem_iff.mpr (List.mem_append_right _ hpost))

/-- What was reported stays reported. -/
theorem history_prefix (h : WireMove setup s s') : s.wire.history <+: s'.wire.history := by
  cases h with
  | keep hwire =>
    rw [hwire]
  | transfer prepared entry operand op hphase hraw hwire =>
    rw [hwire]
    exact List.prefix_append _ _
  | read waiting entry operand hphase hwire =>
    rw [hwire]
    exact List.prefix_append _ _
  | take reaped hphase htake =>
    obtain ⟨claimed, -, -, hhistory⟩ := Wire.take_spec htake
    rw [hhistory]
    exact List.prefix_append _ _

end WireMove

/-! ### Where an op comes from -/

/-- A new op has not been put off. -/
theorem stalledSince_of_prepare [Operands T] {request : TransferRequest (Tagged T)}
    {quiesceWrites : Bool} {op : InFlight T} {prepared : Prepared}
    (h : prepare request quiesceWrites = .ok (op, prepared)) : prepared.stalledSince = none := by
  unfold prepare at h
  dsimp only at h
  split at h
  · cases h
  · split at h <;> cases h
    rfl

/-- What `prepare` builds to post: the operand and the read that were resolved. -/
theorem prepare_built [Operands T] {request : TransferRequest (Tagged T)} {quiesceWrites : Bool}
    {op : InFlight T} {prepared : Prepared}
    (h : prepare request quiesceWrites = .ok (op, prepared)) :
    (resolveOperand request.direction request.callerContext.user).1
        = .ok (prepared.pointer, prepared.length) ∧
      quiesceOf request quiesceWrites prepared.length = .ok op.quiesce ∧
      prepared.remoteKey = request.remoteKey ∧ prepared.remoteAddress = request.remoteAddress ∧
      prepared.direction = request.direction := by
  unfold prepare at h
  dsimp only at h
  split at h
  · cases h
  · next hoperand =>
    split at h
    · cases h
    · next hquiesce =>
      cases h
      exact ⟨hoperand, hquiesce, rfl, rfl, rfl⟩

/-- A quiesce read is of the last byte. -/
theorem quiesceOf_some {request : TransferRequest T} {quiesceWrites : Bool} {length : Nat}
    {read : QuiesceRead} (h : quiesceOf request quiesceWrites length = .ok (some read)) :
    request.direction = .toPeer ∧ 0 < length ∧ read.remoteKey = request.remoteKey ∧
      read.remoteAddress.toNat = request.remoteAddress.toNat + (length - 1) := by
  unfold quiesceOf at h
  split at h
  · next hread =>
    split at h
    · next hfits =>
      cases h
      exact ⟨hread.2.1, hread.2.2, rfl, UInt64.toNat_ofNat_of_lt hfits⟩
    · cases h
  · cases h

/-- A write that is to be quiesced and has bytes has a read. -/
theorem quiesceOf_isSome {request : TransferRequest T} {length : Nat} {quiesce : Option QuiesceRead}
    (h : quiesceOf request true length = .ok quiesce) (hdirection : request.direction = .toPeer)
    (hlength : 0 < length) : quiesce.isSome = true := by
  rw [quiesceOf, if_pos ⟨rfl, hdirection, hlength⟩] at h
  split at h <;> cases h
  rfl

/-- The post parameters without the time they have been put off for. -/
def Prepared.asBuilt (p : Prepared) : Prepared := { p with stalledSince := none }

/-- Op `number` is a transfer that was sent, and this is what `prepare` built of it. -/
structure Origin [Operands T] (setup : Setup) (sent : List (TransferRequest (Tagged T)))
    (number : Nat) (request : TransferRequest (Tagged T)) (op : InFlight T) (prepared : Prepared) :
    Prop where
  mem : request ∈ sent
  number_eq : request.number = number
  built : prepare request setup.configuration.quiesceWrites = .ok (op, prepared)

section
variable [Operands T]

/-- `p` is what was built to post a transfer, and its box has the read that was built for it. -/
def PreparedFor (setup : Setup) (sent : List (TransferRequest (Tagged T)))
    (raw : Assoc Nat (InFlight T)) (p : Prepared) : Prop :=
  ∃ request op, Origin setup sent p.context request op p.asBuilt ∧
    HasBox raw p.context fun box => box.quiesce = op.quiesce

/-- `read` is the read that was built for op `number`, aimed at the address of its transfer. -/
def ReadFor (setup : Setup) (sent : List (TransferRequest (Tagged T))) (number : Nat)
    (read : QuiesceRead) : Prop :=
  ∃ request op prepared built, Origin setup sent number request op prepared ∧
    op.quiesce = some built ∧ read = { built with peerAddress := request.peerAddress }

/-- The read that a box carries is the one of its op. -/
def Loaded (setup : Setup) (sent : List (TransferRequest (Tagged T))) (number : Nat)
    (op : InFlight T) : Prop :=
  ∀ read, op.quiesce = some read → ReadFor setup sent number read

variable {setup : Setup} {sent sent' : List (TransferRequest (Tagged T))} {number : Nat}

/-- An origin stays one when more was sent. -/
theorem Origin.mono {request : TransferRequest (Tagged T)} {op : InFlight T} {prepared : Prepared}
    (h : Origin setup sent number request op prepared) (hsub : sent ⊆ sent') :
    Origin setup sent' number request op prepared :=
  ⟨hsub h.mem, h.number_eq, h.built⟩

/-- So does what a read is for. -/
theorem ReadFor.mono {read : QuiesceRead} (h : ReadFor setup sent number read)
    (hsub : sent ⊆ sent') : ReadFor setup sent' number read := by
  obtain ⟨request, op, prepared, built, horigin, hread⟩ := h
  exact ⟨request, op, prepared, built, horigin.mono hsub, hread⟩

/-- So does what a box is loaded with. -/
theorem Loaded.mono {op : InFlight T} (h : Loaded setup sent number op) (hsub : sent ⊆ sent') :
    Loaded setup sent' number op := fun read hread => (h read hread).mono hsub

end

/-- The quiesce reads in hand. -/
def Phase.reading : Phase T → List (Quiescing T)
  | .quiesceOperand waiting _ _ => [waiting]
  | _ => []

/-- With nothing in hand no read is in hand. -/
theorem Phase.Rests.reading {phase : Phase T} (h : phase.Rests) : phase.reading = [] := by
  have hpeer := h.peer
  cases phase with
  | quiesceOperand waiting entry call => cases hpeer
  | _ => rfl

/-- A property of the box behind a pointer may be weakened. -/
theorem HasBox.imp {raw : Assoc Nat (InFlight T)} {context : Nat} {p q : InFlight T → Prop}
    (h : HasBox raw context p) (himp : ∀ op, p op → q op) : HasBox raw context q := by
  obtain ⟨op, hop, hp⟩ := h
  exact ⟨op, hop, himp op hp⟩

/-- What the worker holds was built of transfers that were sent. -/
structure Traced [Operands T] (setup : Setup) (s : State T) : Prop where
  channel : ∀ request ∈ transfers s.callers.channel, request ∈ s.callers.sent
  prepared : ∀ p ∈ s.queues.pending ++ s.phase.prepared,
    PreparedFor setup s.callers.sent s.queues.raw p
  posts : ∀ post ∈ s.wire.posts,
    HasBox s.queues.raw post.context (Loaded setup s.callers.sent post.context)
  reaped : ∀ r ∈ s.queues.reaped, HasBox s.queues.raw r.1 (Loaded setup s.callers.sent r.1)
  waiting : ∀ waiting ∈ s.queues.quiescing ++ s.phase.reading,
    ReadFor setup s.callers.sent waiting.inflight.number waiting.read

namespace Traced

variable [Operands T] {setup : Setup} {s s' : State T} {m : Move T}

/-- At the start there is nothing to trace. -/
theorem start (setup : Setup) : Traced setup (State.start setup : State T) where
  channel request h := by cases h
  prepared p h := by cases h
  posts post h := by cases h
  reaped r h := by cases h
  waiting w h := by cases h

/-- A move that leaves the boxes and what libfabric holds alone. -/
theorem of_raw (h : Traced setup s) (hcallers : s'.callers.sent = s.callers.sent)
    (hchannel : ∀ request ∈ transfers s'.callers.channel, request ∈ transfers s.callers.channel)
    (hraw : s'.queues.raw = s.queues.raw) (hwire : s'.wire = s.wire)
    (hreaped : s'.queues.reaped = s.queues.reaped)
    (hprepared : ∀ p ∈ s'.queues.pending ++ s'.phase.prepared,
      ∃ q ∈ s.queues.pending ++ s.phase.prepared, q.asBuilt = p.asBuilt)
    (hwaiting : ∀ w ∈ s'.queues.quiescing ++ s'.phase.reading,
      ∃ w' ∈ s.queues.quiescing ++ s.phase.reading,
        w'.inflight.number = w.inflight.number ∧ w'.read = w.read) : Traced setup s' where
  channel request hrequest := by
    rw [hcallers]
    exact h.channel request (hchannel request hrequest)
  -- The op is the one it was, whatever its stall says.
  prepared p hp := by
    obtain ⟨q, hq, heq⟩ := hprepared p hp
    obtain ⟨request, op, horigin, hbox⟩ := h.prepared q hq
    have hcontext : q.context = p.context := (Prepared.mk.inj heq).1
    rw [heq, hcontext] at horigin
    rw [hcontext] at hbox
    rw [PreparedFor, hcallers, hraw]
    exact ⟨request, op, horigin, hbox⟩
  posts := by rw [hcallers, hraw, hwire]; exact h.posts
  reaped := by rw [hcallers, hraw, hreaped]; exact h.reaped
  waiting w hw := by
    obtain ⟨w', hw', hnumber, hread⟩ := hwaiting w hw
    rw [hcallers, ← hnumber, ← hread]
    exact h.waiting w' hw'

/-- A move that changes neither what is in hand nor what the queues hold. -/
theorem of_same (h : Traced setup s) (hcallers : s'.callers = s.callers)
    (hqueues : s'.queues = s.queues) (hwire : s'.wire = s.wire)
    (hprepared : s'.phase.prepared = s.phase.prepared)
    (hreading : s'.phase.reading = s.phase.reading) : Traced setup s' := by
  refine h.of_raw (by rw [hcallers]) (fun request hrequest => ?_) (by rw [hqueues]) hwire
    (by rw [hqueues]) (fun p hp => ⟨p, ?_, rfl⟩) fun w hw => ⟨w, ?_, rfl, rfl⟩
  · rwa [hcallers] at hrequest
  · rwa [hqueues, hprepared] at hp
  · rwa [hqueues, hreading] at hw

/-- Taking a message that is no transfer leaves the ops. -/
theorem of_takes (h : Traced setup s) (htakes : Takes s) {number : Nat}
    {message : WorkerMessage (Tagged T)} {channel : List (Nat × WorkerMessage (Tagged T))}
    (hchannel : s.callers.channel = (number, message) :: channel)
    (hsent : s'.callers.sent = s.callers.sent) (hchannel' : s'.callers.channel = channel)
    (hqueues : s'.queues = s.queues) (hwire : s'.wire = s.wire) (hprepared : s'.phase.prepared = [])
    (hreading : s'.phase.reading = []) : Traced setup s' := by
  refine h.of_raw hsent (fun request hrequest => ?_) (by rw [hqueues]) hwire (by rw [hqueues])
    (fun p hp => ⟨p, ?_, rfl⟩) fun w hw => ⟨w, ?_, rfl, rfl⟩
  · rw [hchannel'] at hrequest
    rw [hchannel]
    cases message with
    | transfer request' => exact .tail _ hrequest
    | addPeer client address => exact hrequest
    | removePeer client => exact hrequest
    | register base length => exact hrequest
  · rwa [hqueues, hprepared, ← htakes.rests.prepared] at hp
  · rwa [hqueues, hreading, ← htakes.rests.reading] at hw

/-- A box leaves from behind the pointer of the op in hand or of the op dispatched. -/
theorem of_erase (h : Traced setup s) {context : Nat}
    (hpending : ∀ p ∈ s.queues.pending, p.context ≠ context)
    (hposts : ∀ post ∈ s.wire.posts, post.context ≠ context)
    (hreaped : ∀ r ∈ s'.queues.reaped, r ∈ s.queues.reaped ∧ r.1 ≠ context)
    (hcallers : s'.callers = s.callers) (hraw : s'.queues.raw = s.queues.raw.erase context)
    (hpending' : s'.queues.pending = s.queues.pending) (hwire : s'.wire = s.wire)
    (hprepared : s'.phase.prepared = [])
    (hwaiting : ∀ w ∈ s'.queues.quiescing ++ s'.phase.reading,
      ReadFor setup s.callers.sent w.inflight.number w.read) : Traced setup s' where
  channel := by rw [hcallers]; exact h.channel
  -- No pending op is behind the pointer that goes.
  prepared p hp := by
    rw [hpending', hprepared, List.append_nil] at hp
    obtain ⟨request, op, horigin, hbox⟩ := h.prepared p (List.mem_append_left _ hp)
    rw [PreparedFor, hcallers, hraw]
    exact ⟨request, op, horigin, hbox.erase (hpending p hp)⟩
  -- Nor is a post on the wire.
  posts post hpost := by
    rw [hwire] at hpost
    rw [hcallers, hraw]
    exact (h.posts post hpost).erase (hposts post hpost)
  -- What is left of the reaped ones has other pointers.
  reaped r hr := by
    obtain ⟨hr', hne⟩ := hreaped r hr
    rw [hcallers, hraw]
    exact (h.reaped r hr').erase hne
  waiting := by rw [hcallers]; exact hwaiting

/-- A transfer is sent before anything is made of it. -/
theorem step_callers (h : Traced setup s) (hmove : MovesIn setup s .callers m s') :
    Traced setup s' := by
  cases hmove with
  | submit | sendFails | dropService =>
    exact h.of_raw rfl (fun _ => id) rfl rfl rfl (fun p hp => ⟨p, hp, rfl⟩)
      fun w hw => ⟨w, hw, rfl, rfl⟩
  -- One request more was sent, and it is the new one in the channel.
  | send i request hi hphase =>
    have hsub : s.callers.sent ⊆ s.callers.sent ++ [State.tagRequest s.callers.arrivals request] :=
      List.subset_append_left _ _
    refine ⟨fun request' hrequest => ?_, fun p hp => ?_, fun post hpost => ?_, fun r hr => ?_,
      fun w hw => (h.waiting w hw).mono hsub⟩
    · simp only [transfers_append, List.mem_append] at hrequest
      rcases hrequest with hold | hnew
      · exact hsub (h.channel request' hold)
      · exact List.mem_append_right _ hnew
    · obtain ⟨request', op, horigin, hbox⟩ := h.prepared p hp
      exact ⟨request', op, horigin.mono hsub, hbox⟩
    · exact (h.posts post hpost).imp fun op hop => hop.mono hsub
    · exact (h.reaped r hr).imp fun op hop => hop.mono hsub
  -- The message is no transfer.
  | message message hserving hmessage =>
    refine h.of_raw rfl (fun request hrequest => ?_) rfl rfl rfl (fun p hp => ⟨p, hp, rfl⟩)
      fun w hw => ⟨w, hw, rfl, rfl⟩
    simp only [State.enqueue, transfers_append, transfers_other hmessage] at hrequest
    exact (List.mem_append.mp hrequest).resolve_right List.not_mem_nil
  | refused => exact h

/-- A pin makes nothing of a transfer. -/
theorem step_pinning (h : Traced setup s) (hmove : MovesIn setup s .pinning m s') :
    Traced setup s' := by
  cases hmove with
  | pinnedQuiesce base limit result phase hphase hnext =>
    rcases hnext with rfl | rfl
    all_goals exact h.of_same rfl rfl rfl (by rw [hphase]; rfl) (by rw [hphase]; rfl)
  | serve hphase | pinned number base limit result hphase =>
    exact h.of_raw rfl (fun _ => id) rfl rfl rfl (fun p hp => ⟨p, by rwa [hphase], rfl⟩)
      fun w hw => ⟨w, by rwa [hphase], rfl, rfl⟩
  | _ =>
    -- The phase changes and keeps what it has in hand.
    exact h.of_same rfl rfl rfl (by rw [‹s.phase = _›]; rfl) (by rw [‹s.phase = _›]; rfl)

/-- What `prepare` builds is traced to its transfer. -/
theorem step_intake (h : Traced setup s) (ho : Owned s) (hmove : MovesIn setup s .intake m s') :
    Traced setup s' := by
  cases hmove with
  | accept number request channel op prepared htakes hchannel hprepare =>
    obtain ⟨-, -, -, hcontext, -, -⟩ := prepare_ok hprepare
    have hnone := ho.lookup_of_channel hchannel
    rw [← hcontext] at hnone
    have hsent : request ∈ s.callers.sent := h.channel request (by rw [hchannel]; exact .head _)
    refine ⟨fun request' hrequest => ?_, fun p hp => ?_,
      fun post hpost => (h.posts post hpost).insert_new hnone,
      fun r hr => (h.reaped r hr).insert_new hnone, fun w hw => h.waiting w ?_⟩
    · -- The request leaves the channel.
      refine h.channel request' ?_
      rw [hchannel]
      exact .tail _ hrequest
    · rcases List.mem_append.mp hp with hp | hp
      · rcases List.mem_append.mp hp with hold | hnew
        · obtain ⟨request', op', horigin, hbox⟩ := h.prepared p (List.mem_append_left _ hold)
          exact ⟨request', op', horigin, hbox.insert_new hnone⟩
        · -- The new op is what `prepare` built.
          rw [List.mem_singleton.mp hnew]
          refine ⟨request, op, ⟨hsent, hcontext.symm, ?_⟩, .insert_self rfl⟩
          rw [hprepare, Prepared.asBuilt, ← stalledSince_of_prepare hprepare]
      · cases hp
    · -- A taken message leaves no read in hand.
      rwa [htakes.rests.reading]
  -- A refused request leaves the channel, and nothing else changes.
  | refuse number request channel completion htakes hchannel hprepare =>
    refine h.of_raw rfl (fun request' hrequest => ?_) rfl rfl rfl
      (fun p hp => ⟨p, by rwa [htakes.rests.prepared], rfl⟩)
      fun w hw => ⟨w, by rwa [htakes.rests.reading], rfl, rfl⟩
    rw [hchannel]
    exact .tail _ hrequest
  | addPeer number client address inserted entry channel books htakes hchannel hinsert
  | addPeerFails number client address inserted error channel books htakes hchannel hinsert
  | removePeer number client channel htakes hchannel
  | pinMessage number base length channel htakes hchannel
  | nothingToPin number base length channel htakes hchannel =>
    exact h.of_takes htakes hchannel rfl rfl rfl rfl rfl rfl

/-- A post takes its address from the transfer, and the box of a write keeps it for the read. -/
theorem step_posting (h : Traced setup s) (hs : Settled s) (ho : Owned s)
    (hmove : MovesIn setup s .posting m s') : Traced setup s' := by
  cases hmove with
  | attempt prepared pending inserted entry books hphase hpending hinsert
  | attemptFails prepared pending inserted error books hphase hpending hinsert =>
    refine h.of_raw rfl (fun _ => id) rfl rfl rfl (fun p hp => ⟨p, ?_, rfl⟩)
      fun w hw => ⟨w, by rwa [hphase], rfl, rfl⟩
    rw [hpending]
    exact List.mem_append_left _ ((List.perm_append_singleton _ _).mem_iff.mp hp)
  | posted prepared entry operand now op hphase hclock hraw =>
    have hhand : prepared ∈ s.phase.prepared := by rw [hphase]; exact .head _
    obtain ⟨hpending, hposts⟩ := ho.ne_of_prepared hhand
    have hnone := hs.not_reaped (by simp [hphase])
    obtain ⟨request, op', horigin, hbox⟩ := h.prepared prepared (List.mem_append_right _ hhand)
    have hquiesce := hbox.of_lookup hraw
    refine ⟨h.channel, fun p hp => ?_, fun post hpost => ?_, fun r hr => ?_,
      fun w hw => h.waiting w (by rwa [hphase])⟩
    · rcases List.mem_append.mp hp with hp | hp
      · obtain ⟨request', op'', horigin', hbox'⟩ := h.prepared p (List.mem_append_left _ hp)
        exact ⟨request', op'', horigin', hbox'.insert (hpending p hp)⟩
      · cases hp
    · rcases List.mem_append.mp hpost with hold | hnew
      · exact (h.posts post hold).insert (hposts post hold)
      · -- The box takes the address that the op is posted with.
        rw [List.mem_singleton.mp hnew]
        refine .insert_self fun read hread => ?_
        simp only [State.posted, hquiesce, Option.map_eq_some_iff] at hread
        obtain ⟨built, hbuilt, rfl⟩ := hread
        obtain ⟨-, -, -, -, -, haddress⟩ := prepare_ok horigin.built
        refine ⟨request, op', _, built, horigin, hbuilt, ?_⟩
        rw [← haddress]
        rfl
    · exact absurd hr (hnone r)
  | requeued prepared entry operand since now hphase hclock =>
    refine h.of_raw rfl (fun _ => id) rfl rfl rfl (fun p hp => ?_)
      fun w hw => ⟨w, by rwa [hphase], rfl, rfl⟩
    rw [hphase]
    rcases List.mem_append.mp hp with hp | hp
    · rcases List.mem_append.mp hp with hold | hnew
      · exact ⟨p, List.mem_append_left _ hold, rfl⟩
      · rw [List.mem_singleton.mp hnew]
        exact ⟨prepared, List.mem_append_right _ (.head _), rfl⟩
    · cases hp
  | failed prepared error op hphase hraw =>
    have hhand : prepared ∈ s.phase.prepared := by rw [hphase]; exact .head _
    obtain ⟨hpending, hposts⟩ := ho.ne_of_prepared hhand
    have hnone := hs.not_reaped (by simp [hphase])
    refine h.of_erase hpending hposts (fun r hr => ?_) rfl rfl rfl rfl rfl
      fun w hw => h.waiting w (by rwa [hphase])
    exact absurd hr (hnone r)
  | _ =>
    -- The phase changes and keeps what it has in hand.
    exact h.of_same rfl rfl rfl (by rw [‹s.phase = _›]; rfl) (by rw [‹s.phase = _›]; rfl)

/-- What is reaped is traced as its post was. -/
theorem step_reaping (h : Traced setup s) (ho : Owned s) (hmove : MovesIn setup s .reaping m s') :
    Traced setup s' := by
  cases hmove with
  | reap reaped wire hphase htake =>
    obtain ⟨claimed, -, hperm, -⟩ := Wire.take_spec htake
    refine ⟨h.channel, fun p hp => h.prepared p (by rwa [hphase]),
      fun post hpost => h.posts post (hperm.mem_iff.mpr (List.mem_append_right _ hpost)),
      fun r hr => ?_, fun w hw => h.waiting w (by rwa [hphase])⟩
    obtain ⟨post, hpost, hcontext, -⟩ := Wire.reported_of_take htake hr
    have hbox := h.posts post hpost
    rwa [hcontext] at hbox
  | toQuiescing context reaped op read hphase hreaped hraw hquiesce =>
    obtain ⟨hpending, hposts, hrest⟩ := ho.ne_of_reaped hreaped
    have hloaded := (h.reaped (context, .ok ()) (by rw [hreaped]; exact .head _)).of_lookup hraw
    refine h.of_erase hpending hposts (fun r hr => ⟨?_, hrest r hr⟩) rfl rfl rfl rfl
      (by rw [hphase]; rfl) fun w hw => ?_
    · rw [hreaped]
      exact .tail _ hr
    · -- The read goes with the write that waits for it.
      rcases List.mem_append.mp hw with hw | hw
      · rcases List.mem_append.mp hw with hold | hnew
        · exact h.waiting w (List.mem_append_left _ hold)
        · rw [List.mem_singleton.mp hnew]
          show ReadFor setup s.callers.sent op.number read
          rw [ho.named context op hraw]
          exact hloaded read hquiesce
      · exact h.waiting w (List.mem_append_right _ hw)
  | toCrc context result reaped op hphase hreaped hraw hquiesce
  | toCompletion context result reaped op hphase hreaped hraw hquiesce =>
    obtain ⟨hpending, hposts, hrest⟩ := ho.ne_of_reaped hreaped
    refine h.of_erase hpending hposts (fun r hr => ⟨?_, hrest r hr⟩) rfl rfl rfl rfl
      (by rw [hphase]; rfl) h.waiting
    rw [hreaped]
    exact .tail _ hr

/-- A read is traced as the write that waits for it. -/
theorem step_quiescing (h : Traced setup s) (hs : Settled s) (ho : Owned s) (hb : Boxed setup s)
    (hmove : MovesIn setup s .quiescing m s') : Traced setup s' := by
  cases hmove with
  | failedQuiesce op error hphase =>
    exact h.of_raw rfl (fun _ => id) rfl rfl rfl (fun p hp => ⟨p, by rwa [hphase], rfl⟩)
      fun w hw => ⟨w, by rwa [hphase], rfl, rfl⟩
  | quiesce waiting quiescing inserted entry books hphase hquiescing hinsert =>
    refine h.of_raw rfl (fun _ => id) rfl rfl rfl (fun p hp => ⟨p, by rwa [hphase], rfl⟩)
      fun w hw => ⟨w, ?_, rfl, rfl⟩
    rw [hquiescing]
    exact List.mem_append_left _ ((List.perm_append_singleton _ _).mem_iff.mp hw)
  | quiesceFails waiting quiescing inserted error books hphase hquiescing hinsert =>
    refine h.of_raw rfl (fun _ => id) rfl rfl rfl (fun p hp => ⟨p, by rwa [hphase], rfl⟩)
      fun w hw => ⟨w, ?_, rfl, rfl⟩
    rw [hquiescing]
    rcases List.mem_append.mp hw with hrest | hhead
    · exact List.mem_append_left _ (.tail _ hrest)
    · cases hhead
  | quiesceOperandFails waiting entry error hphase =>
    refine h.of_raw rfl (fun _ => id) rfl rfl rfl (fun p hp => ⟨p, by rwa [hphase], rfl⟩)
      fun w hw => ⟨w, ?_, rfl, rfl⟩
    rcases List.mem_append.mp hw with hold | hhand
    · exact List.mem_append_left _ hold
    · cases hhand
  | quiesced waiting entry operand now hphase hclock =>
    have hhand : waiting.inflight ∈ s.phase.inHand := by rw [hphase]; exact .head _
    have hnone := ho.lookup_of_inHand hhand
    have hreaped := hs.not_reaped (by simp [hphase])
    have hquiesce : waiting.inflight.quiesce = none := hb.waiting _ (List.mem_append_right _ hhand)
    refine ⟨h.channel, fun p hp => ?_, fun post hpost => ?_, fun r hr => ?_, fun w hw => ?_⟩
    · obtain ⟨request, op, horigin, hbox⟩ := h.prepared p (by rwa [hphase])
      exact ⟨request, op, horigin, hbox.insert_new hnone⟩
    · rcases List.mem_append.mp hpost with hold | hnew
      · exact (h.posts post hold).insert_new hnone
      · rw [List.mem_singleton.mp hnew]
        refine .insert_self fun read hread => ?_
        rw [show _ = none from hquiesce] at hread
        cases hread
    · exact absurd hr (hreaped r)
    · rcases List.mem_append.mp hw with hold | hnew
      · exact h.waiting w (List.mem_append_left _ hold)
      · cases hnew
  | requiesce waiting entry operand since now hphase hclock =>
    have hhand : waiting.inflight ∈ s.phase.inHand := by rw [hphase]; exact .head _
    refine h.of_raw rfl (fun _ => id) (Assoc.erase_insert_of_none (ho.lookup_of_inHand hhand) _)
      rfl rfl (fun p hp => ⟨p, by rwa [hphase], rfl⟩) fun w hw => ?_
    rw [hphase]
    rcases List.mem_append.mp hw with hw | hw
    · rcases List.mem_append.mp hw with hold | hnew
      · exact ⟨w, List.mem_append_left _ hold, rfl, rfl⟩
      · rw [List.mem_singleton.mp hnew]
        exact ⟨waiting, List.mem_append_right _ (.head _), rfl, rfl⟩
    · cases hw
  | quiescePostFails waiting entry operand now error hphase hclock =>
    have hhand : waiting.inflight ∈ s.phase.inHand := by rw [hphase]; exact .head _
    refine h.of_raw rfl (fun _ => id) (Assoc.erase_insert_of_none (ho.lookup_of_inHand hhand) _)
      rfl rfl (fun p hp => ⟨p, by rwa [hphase], rfl⟩) fun w hw => ⟨w, ?_, rfl, rfl⟩
    rcases List.mem_append.mp hw with hold | hnew
    · exact List.mem_append_left _ hold
    · cases hnew
  | _ =>
    -- The phase changes and keeps what it has in hand.
    exact h.of_same rfl rfl rfl (by rw [‹s.phase = _›]; rfl) (by rw [‹s.phase = _›]; rfl)

/-- The end of a pass makes nothing of a transfer. -/
theorem step_ending (h : Traced setup s) (hs : Settled s) (hmove : MovesIn setup s .ending m s') :
    Traced setup s' := by
  cases hmove with
  | flush hphase | deliver hphase =>
    exact h.of_raw rfl (fun _ => id) rfl rfl rfl (fun p hp => ⟨p, by rwa [hphase], rfl⟩)
      fun w hw => ⟨w, by rwa [hphase], rfl, rfl⟩
  | leftover ops raw hphase hreclaim =>
    obtain ⟨rfl, rfl, -, -⟩ := hs.leftover hphase hreclaim
    exact h.of_raw rfl (fun _ => id) rfl rfl rfl (fun _ h => by cases h) fun w hw =>
      ⟨w, by rwa [hphase], rfl, rfl⟩
  | _ =>
    -- The phase changes and keeps what it has in hand.
    exact h.of_same rfl rfl rfl (by rw [‹s.phase = _›]; rfl) (by rw [‹s.phase = _›]; rfl)

/-- Every move keeps the ops in step with their transfers. -/
theorem step (h : Traced setup s) (hs : Settled s) (ho : Owned s) (hb : Boxed setup s)
    (hmove : Moves setup s m s') : Traced setup s' := by
  obtain ⟨part, hmove⟩ := hmove
  cases part with
  | callers => exact h.step_callers hmove
  | others => cases hmove <;> exact h.of_same rfl rfl rfl rfl rfl
  | turning =>
    cases hmove with
    | turn hturn =>
      obtain ⟨hrests, hrests', -⟩ := hturn.rests
      exact h.of_same rfl rfl rfl (hrests'.prepared.trans hrests.prepared.symm)
        (hrests'.reading.trans hrests.reading.symm)
  | pinning => exact h.step_pinning hmove
  | intake => exact h.step_intake ho hmove
  | posting => exact h.step_posting hs ho hmove
  | reaping => exact h.step_reaping ho hmove
  | quiescing => exact h.step_quiescing hs ho hb hmove
  | ending => exact h.step_ending hs hmove
  | dangling => exact (hmove.not_dangling hs ho.backed).elim

end Traced

/-- In every run the ops are traced. -/
theorem traced_reach [Operands T] {setup : Setup} {ok : State T → Move T → Prop} {s : State T}
    (h : (service T setup).Reach ok s) : Traced setup s := by
  refine service_invariant (J := Invariants setup) (I := Traced setup)
    (fun s hs => invariants_reach hs) (.start setup) ?_ h
  intro s m s' hs hs' hok hmove htraced
  exact htraced.step hs.settled hs.owned hs.boxed hmove

/-! ### What libfabric was given -/

/-- `post` was made of a transfer that was sent, against an entry inserted with exactly its
address: the transfer itself, or the read back of a byte of it. -/
def PostFor [Operands T] (setup : Setup) (sent : List (TransferRequest (Tagged T)))
    (cells : List RegisteredAddress) (post : PostedOp) : Prop :=
  ∃ request op prepared, Origin setup sent post.context request op prepared ∧
    cells[post.entry]? = some ⟨request.peerAddress⟩ ∧
    (post = State.postedOp prepared post.entry post.descriptor op.quiesce.isSome ∨
      post.kind = .quiesce ∧ post.length = 1 ∧ post.pointer = setup.quiescePointer ∧
        ∃ read, op.quiesce = some read ∧ post.remoteKey = read.remoteKey ∧
          post.remoteAddress = read.remoteAddress)

/-- The entries never change, and what was removed stays removed. -/
theorem BooksMove.later {s s' : State T} {m : Move T} (hmove : BooksMove s m s')
    (hbooks : Accounted s) : s.books.peers.handles.Later s'.books.peers.handles := by
  have hresolution : ∀ {message client address inserted result} {books : Books},
      s.books.insertPeer message client address inserted = (books, result) →
      s.books.peers.handles.Later books.peers.handles := by
    intro message client address inserted result books hinsert
    have hlater := s.books.peers.later_handle client address inserted
    rwa [Books.insertPeer_peers hinsert] at hlater
  cases hmove with
  | keep hb | submit hb | refuse hb | accept number request hchannel hb =>
    rw [hb]
    exact .refl _
  | finish client hb hops hrest htarget htotal hcount =>
    rw [hb, (Books.Tallied.congr hbooks htotal hcount).finishOp_past.2.2]
    split
    · exact .dropOption ..
    · exact .refl _
  | remove number client hchannel hb =>
    rw [hb, (s.books.removeOrDefer_past client).2.2]
    split
    · exact .dropOption ..
    · exact .refl _
  | resolve message client address inserted entry hresolves hinsert
  | unresolved message client address inserted error hresolves hinsert => exact hresolution hinsert
  | greet message client address inserted entry books hchannel hresolves hinsert hb =>
    rw [hb]
    exact (hresolution hinsert).trans (.drop ..)
  | drop entry hphase hb =>
    rw [hb]
    exact .drop ..
  | clear hloops hb =>
    rw [hb]
    exact .dropAll ..

/-- Every post libfabric ever took was made of a transfer that was sent. -/
def Recorded [Operands T] (setup : Setup) (s : State T) : Prop :=
  ∀ post, .posted post ∈ s.wire.history →
    PostFor setup s.callers.sent s.books.peers.handles.cells post

section
variable [Operands T] {setup : Setup} {s s' : State T} {m : Move T}

/-- Requests that were sent stay sent. -/
theorem Moves.sent_subset (hs : Settled s) (ho : Owned s) (hmove : Moves setup s m s') :
    s.callers.sent ⊆ s'.callers.sent := by
  obtain ⟨part, hmove⟩ := hmove
  cases hmove with
  | send => exact List.subset_append_left _ _
  | dangling context hraw howned => exact (ho.backed.not_dangling hraw howned).elim
  | danglingPending hphase hreclaim => exact (hs.not_danglingPending hphase hreclaim).elim
  | _ => exact fun _ => id

/-- Every move keeps the record. -/
theorem Recorded.step (h : Recorded setup s) (hs : Invariants setup s) (htraced : Traced setup s)
    (haimed : Aimed s) (hmove : Moves setup s m s') : Recorded setup s' := by
  have hsub := hmove.sent_subset hs.settled hs.owned
  have hlater := (hmove.booksMove hs.settled hs.owned).later hs.accounted
  have hkept : ∀ post, PostFor setup s.callers.sent s.books.peers.handles.cells post →
      PostFor setup s'.callers.sent s'.books.peers.handles.cells post := by
    rintro post ⟨request, op, prepared, horigin, hcell, hshape⟩
    exact ⟨request, op, prepared, horigin.mono hsub, hlater.cells _ _ hcell, hshape⟩
  intro post hreport
  cases hmove.wireMove hs.settled hs.owned with
  | keep hwire =>
    rw [hwire] at hreport
    exact hkept post (h post hreport)
  | transfer prepared entry operand op hphase hraw hwire =>
    rw [hwire] at hreport
    rcases List.mem_append.mp hreport with hold | hnew
    · exact hkept post (h post hold)
    · cases List.mem_singleton.mp hnew
      have hhand : prepared ∈ s.phase.prepared := by rw [hphase]; exact .head _
      obtain ⟨request, built, horigin, hbox⟩ :=
        htraced.prepared prepared (List.mem_append_right _ hhand)
      obtain ⟨hcell, -⟩ := haimed entry prepared.clientId prepared.peerAddress
        (by rw [hphase]; rfl)
      obtain ⟨-, -, -, -, -, haddress⟩ := prepare_ok horigin.built
      refine hkept _ ⟨request, built, prepared.asBuilt, horigin, ?_, .inl ?_⟩
      · rw [← haddress]
        exact hcell
      · rw [hbox.of_lookup hraw]
        rfl
  | read waiting entry operand hphase hwire =>
    rw [hwire] at hreport
    rcases List.mem_append.mp hreport with hold | hnew
    · exact hkept post (h post hold)
    · cases List.mem_singleton.mp hnew
      have hhand : waiting ∈ s.phase.reading := by rw [hphase]; exact .head _
      obtain ⟨request, op, prepared, read, horigin, hread, heq⟩ :=
        htraced.waiting waiting (List.mem_append_right _ hhand)
      obtain ⟨hcell, -⟩ := haimed entry waiting.inflight.clientId waiting.read.peerAddress
        (by rw [hphase]; rfl)
      rw [heq] at hcell
      refine hkept _ ⟨request, op, prepared, horigin, hcell,
        .inr ⟨rfl, rfl, rfl, read, hread, ?_, ?_⟩⟩
      · show waiting.read.remoteKey = read.remoteKey
        rw [heq]
      · show waiting.read.remoteAddress = read.remoteAddress
        rw [heq]
  | take reaped hphase htake => exact hkept post (h post (Wire.posted_of_take htake hreport))

end

/-- In every run the posts are recorded. -/
theorem recorded_reach [Operands T] {setup : Setup} {ok : State T → Move T → Prop} {s : State T}
    (h : (service T setup).Reach ok s) : Recorded setup s := by
  refine service_invariant
    (J := fun s => Invariants setup s ∧ Traced setup s ∧ Aimed s) (I := Recorded setup)
    (fun s hs => ⟨invariants_reach hs, traced_reach hs, aimed_reach hs⟩) ?_ ?_ h
  · intro post hreport
    cases hreport
  · intro s m s' hs hs' hok hmove hrecorded
    exact hrecorded.step hs.1 hs.2.1 hs.2.2 hmove

end Vdma.Fabric
