import Vdma.Proofs.Worker.Owned

/-!
# `Vdma.Proofs.Worker.Boxed`: what libfabric holds agrees with the boxes

A prepared op, a posted op and a reaped context each point to a box, and `Owned` says
that nothing else points there. `Boxed` says what the box then has in it: the client
and the descriptor of the post, and whether its quiesce read is still to come.

A move changes the boxes at one context. The pointers there are gone or new, and the
other boxes stay as they are (`HasBox.insert`, `HasBox.erase`).
-/

set_option autoImplicit false

namespace Vdma.Fabric

open Vdma.Lib

variable {T : Type}

namespace Owned

variable [Operands T] {s : State T}

/-- At most one pointer to a box. -/
theorem pointers_le (h : Owned s) (context : Nat) : s.pointers (indicator context) ≤ 1 := by
  have hle := h.owners_le context
  have hpointed := h.pointed (indicator context)
  simp only [State.owners, State.live] at hle
  simp only [InFlight.number] at hpointed
  omega

/-- The op in hand is not queued, posted or reaped. -/
theorem ne_of_prepared (h : Owned s) {prepared : Prepared}
    (hprepared : prepared ∈ s.phase.prepared) :
    (∀ p ∈ s.queues.pending, p.context ≠ prepared.context) ∧
      ∀ op ∈ s.wire.posts, op.context ≠ prepared.context := by
  have hle := h.pointers_le prepared.context
  have hhand := le_sum_map hprepared fun p => indicator prepared.context p.context
  simp only [State.pointers, indicator, if_true] at hle hhand
  constructor
  · intro p hp heq
    have hsum := le_sum_map hp fun p => indicator prepared.context p.context
    simp only [indicator, heq, if_true] at hsum
    omega
  · intro op hop heq
    have hsum := le_sum_map hop fun op => indicator prepared.context op.context
    simp only [indicator, heq, if_true] at hsum
    omega

/-- The op being dispatched is not queued or posted, and was reaped once. -/
theorem ne_of_reaped (h : Owned s) {context : Nat} {result : Except DmaError Unit}
    {reaped : List Reaped} (hreaped : s.queues.reaped = (context, result) :: reaped) :
    (∀ p ∈ s.queues.pending, p.context ≠ context) ∧ (∀ op ∈ s.wire.posts, op.context ≠ context) ∧
      ∀ r ∈ reaped, r.1 ≠ context := by
  have hle := h.pointers_le context
  simp only [State.pointers, indicator, hreaped, List.map_cons, List.sum_cons, if_true] at hle
  refine ⟨fun p hp heq => ?_, fun op hop heq => ?_, fun r hr heq => ?_⟩
  · have hsum := le_sum_map hp fun p => indicator context p.context
    simp only [indicator, heq, if_true] at hsum
    omega
  · have hsum := le_sum_map hop fun op => indicator context op.context
    simp only [indicator, heq, if_true] at hsum
    omega
  · have hsum := le_sum_map hr fun r => indicator context r.1
    simp only [indicator, heq, if_true] at hsum
    omega

end Owned

/-- The box behind a pointer is there and meets `p`. -/
def HasBox (raw : Assoc Nat (InFlight T)) (context : Nat) (p : InFlight T → Prop) : Prop :=
  ∃ op, raw.lookup context = some op ∧ p op

namespace HasBox

variable {raw : Assoc Nat (InFlight T)} {context context' : Nat} {p : InFlight T → Prop}
  {op : InFlight T}

/-- A box that is put elsewhere leaves this one. -/
theorem insert (h : HasBox raw context p) (hne : context ≠ context') :
    HasBox (raw.insert context' op) context p := by
  obtain ⟨op', hop', hp⟩ := h
  exact ⟨op', by rwa [AList.lookup_insert_ne hne], hp⟩

/-- A new box is behind a pointer of its own. -/
theorem insert_new (h : HasBox raw context p) (hnone : raw.lookup context' = none) :
    HasBox (raw.insert context' op) context p := by
  refine h.insert fun heq => ?_
  obtain ⟨op', hop', -⟩ := h
  rw [heq, hnone] at hop'
  cases hop'

/-- The box that is put here is here. -/
theorem insert_self (hp : p op) : HasBox (raw.insert context op) context p :=
  ⟨op, AList.lookup_insert _, hp⟩

/-- A box that is taken elsewhere leaves this one. -/
theorem erase (h : HasBox raw context p) (hne : context ≠ context') :
    HasBox (raw.erase context') context p := by
  obtain ⟨op', hop', hp⟩ := h
  exact ⟨op', by rwa [AList.lookup_erase_ne hne], hp⟩

/-- The box there is the one that a lookup finds. -/
theorem of_lookup (h : HasBox raw context p) (hop : raw.lookup context = some op) : p op := by
  obtain ⟨op', hop', hp⟩ := h
  cases hop.symm.trans hop'
  exact hp

end HasBox

/-- The call that registers the operand in hand. -/
def Phase.call : Phase T → Option OperandCall
  | .operand _ _ call => some call
  | .quiesceOperand _ _ call => some call
  | _ => none

/-- The box of a posted op has its client and its descriptor's lease, and knows whether a
quiesce read is still to come. -/
structure Matches (post : PostedOp) (op : InFlight T) : Prop where
  client : op.clientId = post.client
  descriptor : op.localLease = post.descriptor
  quiesces : op.quiesce.isSome = post.quiesces

/-- An operand as `LocalRegions::operand` returns it: the descriptor is that of the lease,
and there is a lease where the provider needs one. -/
def Registered (setup : Setup) (operand : LocalOperand) : Prop :=
  operand.descriptor = operand.lease ∧
    (setup.device.requiresLocalMr = true → operand.lease ≠ none)

/-- A leased operand is registered. -/
theorem registered_ofLease (setup : Setup) (lease : Nat) : Registered setup (.ofLease lease) :=
  ⟨rfl, fun _ => by simp [LocalOperand.ofLease]⟩

/-- A section that returns an operand returns a lease. -/
theorem registered_of_step {setup : Setup} {lib : Libfabric} {domain : Domain} {c c' : Cache}
    {call : OperandCall} {answer : RegionAnswer} {operand : LocalOperand}
    (h : call.step lib domain c answer = some (c', .done operand)) : Registered setup operand := by
  cases call with
  -- A call ends with the lease it looked up, registered or tracked.
  | lookup start stop =>
    cases answer <;> simp only [OperandCall.step, reduceCtorEq] at h
    split at h <;> cases h
    exact registered_ofLease setup _
  | ask start stop =>
    cases answer <;> simp only [OperandCall.step, reduceCtorEq] at h
    split at h <;> cases h
  | register start stop base limit cacheable =>
    cases answer <;> simp only [OperandCall.step, reduceCtorEq] at h
    split at h
    · cases cacheable <;> cases h
      exact registered_ofLease setup _
    · split at h <;> cases h
  | track base limit lease =>
    cases answer <;> simp only [OperandCall.step, reduceCtorEq] at h
    cases h
  | superseded replaced lease =>
    cases answer <;> simp only [OperandCall.step, reduceCtorEq] at h
    cases h
    exact registered_ofLease setup lease
  | done operand' => cases answer <;> cases h
  | failed error => cases answer <;> cases h

/-- A call that needs no section is one that needs no lease. -/
theorem registered_operandCall {setup : Setup} {pointer length : Nat} {operand : LocalOperand}
    (h : State.operandCall setup pointer length = .done operand) : Registered setup operand := by
  unfold State.operandCall OperandCall.begin at h
  split at h
  · split at h <;> cases h
  · next hlocal =>
    cases h
    exact ⟨rfl, fun hrequires => absurd hrequires hlocal⟩

/-- What the owners of pointers may count on. -/
structure Boxed (setup : Setup) (s : State T) : Prop where
  prepared : ∀ p ∈ s.queues.pending ++ s.phase.prepared,
    HasBox s.queues.raw p.context fun op => op.clientId = p.clientId
  posts : ∀ post ∈ s.wire.posts, HasBox s.queues.raw post.context (Matches post)
  descriptor : setup.device.requiresLocalMr = true → ∀ post ∈ s.wire.posts, post.descriptor ≠ none
  reaped : ∀ r ∈ s.queues.reaped, ∃ post : PostedOp, post.context = r.1 ∧
    HasBox s.queues.raw r.1 (Matches post) ∧ .reaped post r.2.isOk ∈ s.wire.history
  waiting : ∀ op ∈ s.queues.quiescing.map Quiescing.inflight ++ s.phase.inHand, op.quiesce = none
  operand : ∀ operand, s.phase.call = some (.done operand) → Registered setup operand

namespace Boxed

variable {setup : Setup} {s s' : State T}

/-- At the start there is no box. -/
theorem start (setup : Setup) : Boxed setup (State.start setup : State T) where
  prepared p h := by cases h
  posts post h := by cases h
  descriptor _ post h := by cases h
  reaped r h := by cases h
  waiting op h := by cases h
  operand operand h := by cases h

/-- A move that leaves the boxes and what libfabric holds alone. -/
theorem of_raw (h : Boxed setup s) (hraw : s'.queues.raw = s.queues.raw)
    (hwire : s'.wire = s.wire) (hreaped : s'.queues.reaped = s.queues.reaped)
    (hprepared : ∀ p ∈ s'.queues.pending ++ s'.phase.prepared,
      ∃ q ∈ s.queues.pending ++ s.phase.prepared, q.context = p.context ∧ q.clientId = p.clientId)
    (hwaiting : ∀ op ∈ s'.queues.quiescing.map Quiescing.inflight ++ s'.phase.inHand,
      ∃ op' ∈ s.queues.quiescing.map Quiescing.inflight ++ s.phase.inHand,
        op'.quiesce = op.quiesce)
    (hoperand : ∀ operand, s'.phase.call = some (.done operand) → Registered setup operand) :
    Boxed setup s' where
  -- The op is the one it was, whatever its stall says.
  prepared p hp := by
    obtain ⟨q, hq, hcontext, hclient⟩ := hprepared p hp
    have hbox := h.prepared q hq
    rw [hraw, ← hcontext, ← hclient]
    exact hbox
  posts := by rw [hraw, hwire]; exact h.posts
  descriptor := by rw [hwire]; exact h.descriptor
  reaped := by rw [hraw, hwire, hreaped]; exact h.reaped
  -- What waits in hand waits without a read, as before.
  waiting op hop := by
    obtain ⟨op', hop', hquiesce⟩ := hwaiting op hop
    rw [← hquiesce]
    exact h.waiting op' hop'
  operand := hoperand

/-- A move that changes neither what is in hand nor what the queues hold. -/
theorem of_same (h : Boxed setup s) (hqueues : s'.queues = s.queues) (hwire : s'.wire = s.wire)
    (hprepared : s'.phase.prepared = s.phase.prepared) (hinHand : s'.phase.inHand = s.phase.inHand)
    (hoperand : ∀ operand, s'.phase.call = some (.done operand) → Registered setup operand) :
    Boxed setup s' := by
  refine h.of_raw (by rw [hqueues]) hwire (by rw [hqueues]) (fun p hp => ?_) (fun op hop => ?_)
    hoperand
  · rw [hqueues, hprepared] at hp
    exact ⟨p, hp, rfl, rfl⟩
  · rw [hqueues, hinHand] at hop
    exact ⟨op, hop, rfl⟩

/-- Any change of phase and pass that moves nothing. -/
theorem turn (h : Boxed setup s) {phase : Phase T} {pass : Pass} (hturn : Turn setup s phase pass) :
    Boxed setup { s with phase := phase, pass := pass } := by
  obtain ⟨hrests, hrests', -⟩ := hturn.rests
  refine h.of_same rfl rfl (hrests'.prepared.trans hrests.prepared.symm)
    (hrests'.inHand.trans hrests.inHand.symm) fun operand hcall => ?_
  cases hturn <;> cases hcall

/-- Taking a message keeps all boxes. -/
theorem of_takes (h : Boxed setup s) (htakes : Takes s) (hqueues : s'.queues = s.queues)
    (hwire : s'.wire = s.wire) (hprepared : s'.phase.prepared = []) (hinHand : s'.phase.inHand = [])
    (hcall : s'.phase.call = none) : Boxed setup s' := by
  refine h.of_same hqueues hwire (hprepared.trans htakes.rests.prepared.symm)
    (hinHand.trans htakes.rests.inHand.symm) fun operand hoperand => ?_
  rw [hcall] at hoperand
  cases hoperand

/-- A box leaves from behind the pointer of the op in hand or of the op dispatched. -/
theorem of_erase (h : Boxed setup s) {context : Nat}
    (hpending : ∀ p ∈ s.queues.pending, p.context ≠ context)
    (hposts : ∀ post ∈ s.wire.posts, post.context ≠ context)
    (hreaped : ∀ r ∈ s'.queues.reaped, r ∈ s.queues.reaped ∧ r.1 ≠ context)
    (hraw : s'.queues.raw = s.queues.raw.erase context)
    (hpending' : s'.queues.pending = s.queues.pending) (hwire : s'.wire = s.wire)
    (hprepared : s'.phase.prepared = [])
    (hwaiting : ∀ op ∈ s'.queues.quiescing.map Quiescing.inflight ++ s'.phase.inHand,
      op.quiesce = none)
    (hcall : s'.phase.call = none) : Boxed setup s' where
  -- No pending op is behind the pointer that goes.
  prepared p hp := by
    rw [hpending', hprepared, List.append_nil] at hp
    rw [hraw]
    exact (h.prepared p (List.mem_append_left _ hp)).erase (hpending p hp)
  posts post hpost := by
    rw [hwire] at hpost
    rw [hraw]
    exact (h.posts post hpost).erase (hposts post hpost)
  descriptor := by rw [hwire]; exact h.descriptor
  reaped r hr := by
    obtain ⟨hr', hne⟩ := hreaped r hr
    obtain ⟨post, hcontext, hbox, hreport⟩ := h.reaped r hr'
    rw [hraw, hwire]
    exact ⟨post, hcontext, hbox.erase hne, hreport⟩
  waiting := hwaiting
  -- The phase has no operand.
  operand operand hoperand := by
    rw [hcall] at hoperand
    cases hoperand

variable [Operands T] {m : Move T}

/-- A pin has no box in hand. -/
theorem step_pinning (h : Boxed setup s) (hmove : MovesIn setup s .pinning m s') :
    Boxed setup s' := by
  cases hmove with
  | pinnedQuiesce base limit result phase hphase hnext =>
    rcases hnext with rfl | rfl
    all_goals
      exact h.of_same rfl rfl (by rw [hphase]; rfl) (by rw [hphase]; rfl) fun _ h => by cases h
  | _ =>
    -- The phase changes and keeps what it has in hand.
    exact h.of_same rfl rfl (by rw [‹s.phase = _›]; rfl) (by rw [‹s.phase = _›]; rfl)
      (fun _ h => by cases h)

/-- A new box is behind a new pointer. -/
theorem step_intake (h : Boxed setup s) (ho : Owned s) (hmove : MovesIn setup s .intake m s') :
    Boxed setup s' := by
  cases hmove with
  | accept number request channel op prepared htakes hchannel hprepare =>
    obtain ⟨-, hclient, -, hcontext, hclient', -⟩ := prepare_ok hprepare
    have hnone := ho.lookup_of_channel hchannel
    rw [← hcontext] at hnone
    have hrests := htakes.rests
    refine ⟨fun p hp => ?_, fun post hpost => (h.posts post hpost).insert_new hnone, h.descriptor,
      fun r hr => ?_, fun op' hop' => ?_, fun _ h => by cases h⟩
    · -- The new op and its box name the same client.
      rcases List.mem_append.mp hp with hp | hp
      · rcases List.mem_append.mp hp with hold | hnew
        · exact (h.prepared p (List.mem_append_left _ hold)).insert_new hnone
        · rw [List.mem_singleton.mp hnew]
          exact .insert_self (hclient.trans hclient'.symm)
      · cases hp
    · obtain ⟨post, hpost, hbox, hreport⟩ := h.reaped r hr
      exact ⟨post, hpost, hbox.insert_new hnone, hreport⟩
    · refine h.waiting op' ?_
      rwa [hrests.inHand]
  | refuse number request channel completion htakes hchannel hprepare =>
    -- A refused request has no box.
    have hrests := htakes.rests
    refine h.of_raw rfl rfl rfl (fun p hp => ⟨p, ?_, rfl, rfl⟩) (fun op hop => ⟨op, ?_, rfl⟩)
      (fun _ h => by cases h)
    · rwa [hrests.prepared]
    · rwa [hrests.inHand]
  | addPeer number client address inserted entry channel books htakes hchannel hinsert
  | addPeerFails number client address inserted error channel books htakes hchannel hinsert
  | removePeer number client channel htakes hchannel
  | pinMessage number base length channel htakes hchannel
  | nothingToPin number base length channel htakes hchannel =>
    exact h.of_takes htakes rfl rfl rfl rfl rfl

/-- What is posted has the box of its transfer, with the lease of its operand. -/
theorem step_posting (h : Boxed setup s) (hs : Settled s) (ho : Owned s)
    (hmove : MovesIn setup s .posting m s') : Boxed setup s' := by
  cases hmove with
  | attempt prepared pending inserted entry books hphase hpending hinsert =>
    refine h.of_raw rfl rfl rfl (fun p hp => ⟨p, ?_, rfl, rfl⟩) (fun op hop => ⟨op, ?_, rfl⟩)
      fun operand hoperand => registered_operandCall (Option.some.inj hoperand)
    · rw [hpending]
      exact List.mem_append_left _ ((List.perm_append_singleton _ _).mem_iff.mp hp)
    · rw [hphase]
      exact hop
  | attemptFails prepared pending inserted error books hphase hpending hinsert =>
    refine h.of_raw rfl rfl rfl (fun p hp => ⟨p, ?_, rfl, rfl⟩) (fun op hop => ⟨op, ?_, rfl⟩)
      (fun _ h => by cases h)
    · rw [hpending]
      exact List.mem_append_left _ ((List.perm_append_singleton _ _).mem_iff.mp hp)
    · rw [hphase]
      exact hop
  | operand prepared entry call call' c region hphase hstep =>
    refine h.of_same rfl rfl (by rw [hphase]; rfl) (by rw [hphase]; rfl) fun operand hoperand => ?_
    cases Option.some.inj hoperand
    exact registered_of_step hstep
  | posted prepared entry operand now op hphase hclock hraw =>
    have hhand : prepared ∈ s.phase.prepared := by rw [hphase]; exact .head _
    obtain ⟨hpending, hposts⟩ := ho.ne_of_prepared hhand
    have hclient := (h.prepared prepared (List.mem_append_right _ hhand)).of_lookup hraw
    have hregistered := h.operand operand (by rw [hphase]; rfl)
    have hnone := hs.not_reaped (by simp [hphase])
    refine ⟨fun p hp => ?_, fun post hpost => ?_, fun hlocal post hpost => ?_, fun r hr => ?_,
      fun op' hop' => ?_, fun _ h => by cases h⟩
    · rcases List.mem_append.mp hp with hp | hp
      · exact (h.prepared p (List.mem_append_left _ hp)).insert (hpending p hp)
      · cases hp
    · rcases List.mem_append.mp hpost with hold | hnew
      · exact (h.posts post hold).insert (hposts post hold)
      · -- The post and its box are made of the same operand.
        rw [List.mem_singleton.mp hnew]
        exact .insert_self ⟨hclient, hregistered.1.symm, by simp [State.posted, State.postedOp]⟩
    · rcases List.mem_append.mp hpost with hold | hnew
      · exact h.descriptor hlocal post hold
      · rw [List.mem_singleton.mp hnew]
        show operand.descriptor ≠ none
        rw [hregistered.1]
        exact hregistered.2 hlocal
    · exact absurd hr (hnone r)
    · refine h.waiting op' ?_
      rw [hphase]
      exact hop'
  | requeued prepared entry operand since now hphase hclock =>
    refine h.of_raw rfl rfl rfl (fun p hp => ?_) (fun op hop => ⟨op, ?_, rfl⟩)
      (fun _ h => by cases h)
    · rw [hphase]
      rcases List.mem_append.mp hp with hp | hp
      · rcases List.mem_append.mp hp with hold | hnew
        · exact ⟨p, List.mem_append_left _ hold, rfl, rfl⟩
        · rw [List.mem_singleton.mp hnew]
          exact ⟨prepared, List.mem_append_right _ (.head _), rfl, rfl⟩
      · cases hp
    · rw [hphase]
      exact hop
  | failed prepared error op hphase hraw =>
    have hhand : prepared ∈ s.phase.prepared := by rw [hphase]; exact .head _
    obtain ⟨hpending, hposts⟩ := ho.ne_of_prepared hhand
    have hnone := hs.not_reaped (by simp [hphase])
    refine h.of_erase hpending hposts (fun r hr => ?_) rfl rfl rfl rfl (fun op' hop' => ?_) rfl
    · exact absurd hr (hnone r)
    · refine h.waiting op' ?_
      rw [hphase]
      exact hop'
  | _ =>
    -- The phase changes and keeps what it has in hand.
    exact h.of_same rfl rfl (by rw [‹s.phase = _›]; rfl) (by rw [‹s.phase = _›]; rfl)
      (fun _ h => by cases h)

/-- A box goes with the report of its post. -/
theorem step_reaping (h : Boxed setup s) (ho : Owned s) (hmove : MovesIn setup s .reaping m s') :
    Boxed setup s' := by
  cases hmove with
  | reap reaped wire hphase htake =>
    obtain ⟨claimed, hcontexts, hperm, -⟩ := Wire.take_spec htake
    -- A reap takes posts away.
    have hsubset : ∀ post ∈ wire.posts, post ∈ s.wire.posts := fun post hpost =>
      hperm.mem_iff.mpr (List.mem_append_right _ hpost)
    refine ⟨fun p hp => ?_, fun post hpost => h.posts post (hsubset post hpost),
      fun hlocal post hpost => h.descriptor hlocal post (hsubset post hpost), fun r hr => ?_,
      fun op hop => ?_, fun _ h => by cases h⟩
    · refine h.prepared p ?_
      rw [hphase]
      exact hp
    · -- A result that was reaped is that of a post with a box.
      obtain ⟨post, hpost, hcontext, hreport⟩ := Wire.reported_of_take htake hr
      have hbox := h.posts post hpost
      rw [hcontext] at hbox
      exact ⟨post, hcontext, hbox, hreport⟩
    · refine h.waiting op ?_
      rw [hphase]
      exact hop
  | toQuiescing context reaped op read hphase hreaped hraw hquiesce =>
    obtain ⟨hpending, hposts, hrest⟩ := ho.ne_of_reaped hreaped
    refine h.of_erase hpending hposts (fun r hr => ⟨?_, hrest r hr⟩) rfl rfl rfl
      (by rw [hphase]; rfl) (fun op' hop' => ?_) (by rw [hphase]; rfl)
    · rw [hreaped]
      exact .tail _ hr
    · -- The read has left the box that waits for it.
      simp only [List.map_append, List.map_cons, List.map_nil] at hop'
      rcases List.mem_append.mp hop' with hop' | hop'
      · rcases List.mem_append.mp hop' with hold | hnew
        · exact h.waiting op' (List.mem_append_left _ hold)
        · rw [List.mem_singleton.mp hnew]
      · exact h.waiting op' (List.mem_append_right _ hop')
  | toCrc context result reaped op hphase hreaped hraw hquiesce
  | toCompletion context result reaped op hphase hreaped hraw hquiesce =>
    obtain ⟨hpending, hposts, hrest⟩ := ho.ne_of_reaped hreaped
    refine h.of_erase hpending hposts (fun r hr => ⟨?_, hrest r hr⟩) rfl rfl rfl
      (by rw [hphase]; rfl) h.waiting (by rw [hphase]; rfl)
    rw [hreaped]
    exact .tail _ hr

/-- A read is posted with the box of the write that waits for it. -/
theorem step_quiescing (h : Boxed setup s) (hs : Settled s) (ho : Owned s)
    (hmove : MovesIn setup s .quiescing m s') : Boxed setup s' := by
  cases hmove with
  | quiesceOperand waiting entry call call' c region hphase hstep =>
    refine h.of_same rfl rfl (by rw [hphase]; rfl) (by rw [hphase]; rfl) fun operand hoperand => ?_
    cases Option.some.inj hoperand
    exact registered_of_step hstep
  | quiesce waiting quiescing inserted entry books hphase hquiescing hinsert =>
    refine h.of_raw rfl rfl rfl (fun p hp => ⟨p, ?_, rfl, rfl⟩) (fun op hop => ⟨op, ?_, rfl⟩)
      fun operand hoperand => registered_operandCall (Option.some.inj hoperand)
    · rw [hphase]
      exact hp
    · rw [hquiescing]
      exact List.mem_append_left _ ((List.perm_append_singleton _ _).mem_iff.mp hop)
  | quiesceFails waiting quiescing inserted error books hphase hquiescing hinsert =>
    refine h.of_raw rfl rfl rfl (fun p hp => ⟨p, ?_, rfl, rfl⟩) (fun op hop => ⟨op, ?_, rfl⟩)
      (fun _ h => by cases h)
    · rw [hphase]
      exact hp
    · rw [hquiescing]
      exact List.mem_append_left _ ((List.perm_append_singleton _ _).mem_iff.mp hop)
  | quiesced waiting entry operand now hphase hclock =>
    have hhand : waiting.inflight ∈ s.phase.inHand := by rw [hphase]; exact .head _
    have hnone := ho.lookup_of_inHand hhand
    have hquiesce := h.waiting _ (List.mem_append_right _ hhand)
    have hregistered := h.operand operand (by rw [hphase]; rfl)
    have hreaped := hs.not_reaped (by simp [hphase])
    refine ⟨fun p hp => ?_, fun post hpost => ?_, fun hlocal post hpost => ?_, fun r hr => ?_,
      fun op' hop' => ?_, fun _ h => by cases h⟩
    · refine (h.prepared p ?_).insert_new hnone
      rw [hphase]
      exact hp
    · rcases List.mem_append.mp hpost with hold | hnew
      · exact (h.posts post hold).insert_new hnone
      · rw [List.mem_singleton.mp hnew]
        refine .insert_self ⟨rfl, hregistered.1.symm, ?_⟩
        show waiting.inflight.quiesce.isSome = false
        rw [hquiesce]
        rfl
    · rcases List.mem_append.mp hpost with hold | hnew
      · exact h.descriptor hlocal post hold
      · rw [List.mem_singleton.mp hnew]
        show operand.descriptor ≠ none
        rw [hregistered.1]
        exact hregistered.2 hlocal
    · exact absurd hr (hreaped r)
    · refine h.waiting op' ?_
      rcases List.mem_append.mp hop' with hop' | hop'
      · exact List.mem_append_left _ hop'
      · cases hop'
  | requiesce waiting entry operand since now hphase hclock =>
    have hhand : waiting.inflight ∈ s.phase.inHand := by rw [hphase]; exact .head _
    refine h.of_raw (Assoc.erase_insert_of_none (ho.lookup_of_inHand hhand) _) rfl rfl
      (fun p hp => ⟨p, ?_, rfl, rfl⟩) (fun op hop => ?_) (fun _ h => by cases h)
    · rw [hphase]
      exact hp
    · simp only [List.map_append, List.map_cons, List.map_nil] at hop
      rcases List.mem_append.mp hop with hop | hop
      · rcases List.mem_append.mp hop with hold | hnew
        · exact ⟨op, List.mem_append_left _ hold, rfl⟩
        · rw [List.mem_singleton.mp hnew]
          exact ⟨waiting.inflight, List.mem_append_right _ hhand, rfl⟩
      · cases hop
  | quiescePostFails waiting entry operand now error hphase hclock =>
    have hhand : waiting.inflight ∈ s.phase.inHand := by rw [hphase]; exact .head _
    refine h.of_raw (Assoc.erase_insert_of_none (ho.lookup_of_inHand hhand) _) rfl rfl
      (fun p hp => ⟨p, ?_, rfl, rfl⟩) (fun op hop => ?_) (fun _ h => by cases h)
    · rw [hphase]
      exact hp
    · rcases List.mem_append.mp hop with hold | hnew
      · exact ⟨op, List.mem_append_left _ hold, rfl⟩
      · rw [List.mem_singleton.mp hnew]
        exact ⟨waiting.inflight, List.mem_append_right _ hhand, rfl⟩
  | failedQuiesce op error hphase =>
    refine h.of_raw rfl rfl rfl (fun p hp => ⟨p, ?_, rfl, rfl⟩) (fun op' hop' => ⟨op', ?_, rfl⟩)
      (fun _ h => by cases h)
    · rw [hphase]
      exact hp
    · rcases List.mem_append.mp hop' with hop' | hop'
      · exact List.mem_append_left _ hop'
      · cases hop'
  | _ =>
    -- The phase changes and keeps what it has in hand.
    exact h.of_same rfl rfl (by rw [‹s.phase = _›]; rfl) (by rw [‹s.phase = _›]; rfl)
      (fun _ h => by cases h)

/-- The end of a pass leaves the boxes where they are. -/
theorem step_ending (h : Boxed setup s) (hs : Settled s) (hmove : MovesIn setup s .ending m s') :
    Boxed setup s' := by
  cases hmove with
  | leftover ops raw hphase hreclaim =>
    obtain ⟨rfl, rfl, hpending, hcrc⟩ := hs.leftover hphase hreclaim
    refine h.of_raw rfl rfl rfl (fun _ h => by cases h) (fun op hop => ⟨op, ?_, rfl⟩)
      (fun _ h => by cases h)
    rw [hphase]
    exact hop
  | flush hphase | deliver hphase =>
    refine h.of_raw rfl rfl rfl (fun p hp => ⟨p, ?_, rfl, rfl⟩) (fun op hop => ⟨op, ?_, rfl⟩)
      (fun _ h => by cases h)
    · rw [hphase]
      exact hp
    · rw [hphase]
      exact hop
  | _ =>
    -- The phase changes and keeps what it has in hand.
    exact h.of_same rfl rfl (by rw [‹s.phase = _›]; rfl) (by rw [‹s.phase = _›]; rfl)
      (fun _ h => by cases h)

/-- Every move keeps the boxes in step with what libfabric holds. -/
theorem step (h : Boxed setup s) (hs : Settled s) (ho : Owned s) (hmove : Moves setup s m s') :
    Boxed setup s' := by
  obtain ⟨part, hmove⟩ := hmove
  cases part with
  | callers =>
    cases hmove with
    | refused => exact h
    | _ => exact h.of_same rfl rfl rfl rfl h.operand
  | others => cases hmove <;> exact h.of_same rfl rfl rfl rfl h.operand
  | turning =>
    cases hmove with
    | turn hturn => exact h.turn hturn
  | pinning => exact h.step_pinning hmove
  | intake => exact h.step_intake ho hmove
  | posting => exact h.step_posting hs ho hmove
  | reaping => exact h.step_reaping ho hmove
  | quiescing => exact h.step_quiescing hs ho hmove
  | ending => exact h.step_ending hs hmove
  | dangling => exact (hmove.not_dangling hs ho.backed).elim

end Boxed

/-- In every run the boxes are in step with what libfabric holds. -/
theorem boxed_reach [Operands T] {setup : Setup} {ok : State T → Move T → Prop} {s : State T}
    (h : (service T setup).Reach ok s) : Boxed setup s := by
  refine service_invariant (J := fun s => Settled s ∧ Owned s) (I := Boxed setup)
    (fun s hs => owned_reach hs) (.start setup) ?_ h
  intro s m s' hs hs' hok hmove hboxed
  exact hboxed.step hs.1 hs.2 hmove

end Vdma.Fabric
