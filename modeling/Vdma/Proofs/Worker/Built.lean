import Vdma.Proofs.Worker.Leases
import Vdma.Proofs.Worker.Quiesced

/-!
# `Vdma.Proofs.Worker.Built`: what an op's box and its completion say

A box changes its lease and its read on the way, and nothing else: its operand, its length
and whether it is hashed are what `prepare` built. So a completion has the length that was
built, and a checksum exactly when one was asked for. A transfer that `prepare` refuses has
the completion that `prepare` made, and no box.

`OpMove` lists what a move does to the boxes and to the completions.
-/

set_option autoImplicit false

namespace Vdma.Fabric

open Vdma.Lib

variable {T : Type}

/-- A box without what changes on the way. -/
def InFlight.asBuilt (op : InFlight T) : InFlight T :=
  { op with localLease := none, quiesce := none }

/-- Boxes that were built alike have the same operand and context. -/
theorem InFlight.asBuilt_fields {op op' : InFlight T} (h : op.asBuilt = op'.asBuilt) :
    op.callerContext = op'.callerContext ∧ op.length = op'.length ∧
      op.wantChecksum = op'.wantChecksum ∧ op.bufferPointer = op'.bufferPointer := by
  obtain ⟨hcontext, -, hlength, hchecksum, hpointer, -⟩ := InFlight.mk.inj h
  exact ⟨hcontext, hlength, hchecksum, hpointer⟩

/-- A box of `s`, as far as `prepare` built it. -/
def State.HasBuilt (s : State T) (op : InFlight T) : Prop :=
  ∃ op' ∈ s.boxes, op'.asBuilt = op.asBuilt

namespace State

variable {s : State T} {op : InFlight T}

/-- A box of the state is one of its own, as far as it was built. -/
theorem hasBuilt_of_mem (h : op ∈ s.boxes) : s.HasBuilt op := ⟨op, h, rfl⟩

/-- So is the box behind a pointer. -/
theorem hasBuilt_of_lookup {context : Nat} (h : s.queues.raw.lookup context = some op) :
    s.HasBuilt op :=
  hasBuilt_of_mem
    (List.mem_append_left _ (List.mem_append_left _ (Assoc.mem_values_iff.mpr ⟨context, h⟩)))

/-- So is each box that some pointer has. -/
theorem hasBuilt_of_raw (h : op ∈ Assoc.values s.queues.raw) : s.HasBuilt op :=
  hasBuilt_of_mem (List.mem_append_left _ (List.mem_append_left _ h))

/-- So is a box that waits for its quiesce read. -/
theorem hasBuilt_of_waiting (h : op ∈ s.waiting) : s.HasBuilt op :=
  hasBuilt_of_mem (List.mem_append_left _ (List.mem_append_right _ h))

/-- So is a box that waits for its hash. -/
theorem hasBuilt_of_hashes {hashed : ReapedOp T} (h : hashed ∈ s.hashes) : s.HasBuilt hashed.1 :=
  hasBuilt_of_mem (List.mem_append_right _ (List.mem_map_of_mem h))

end State

/-- What a move does to the boxes and the completions. A box was there before, as far as it was
built, or `prepare` builds it. A completion was there before, is made of a box, or is the
refusal of `prepare`. -/
structure OpMove [Operands T] (setup : Setup) (s s' : State T) : Prop where
  raw : ∀ op ∈ Assoc.values s'.queues.raw, s.HasBuilt op ∨
    ∃ request ∈ transfers s.callers.channel, ∃ prepared,
      prepare request setup.configuration.quiesceWrites = .ok (op, prepared)
  waiting : ∀ op ∈ s'.waiting, s.HasBuilt op
  hashes : ∀ op ∈ s'.hashes, s.HasBuilt op.1
  completed : ∀ c ∈ s'.completed, c ∈ s.completed ∨
    (∃ op, s.HasBuilt op ∧ ∃ result, c = op.intoCompletion (s.crc setup) result) ∨
    ∃ request ∈ transfers s.callers.channel,
      prepare request setup.configuration.quiesceWrites = .error c

namespace OpMove

variable [Operands T] {setup : Setup} {s s' : State T}

/-- A move that makes no box and no completion. -/
theorem of_subset (hraw : ∀ op ∈ Assoc.values s'.queues.raw, s.HasBuilt op)
    (hwaiting : ∀ op ∈ s'.waiting, s.HasBuilt op) (hhashes : ∀ op ∈ s'.hashes, op ∈ s.hashes)
    (hcompleted : ∀ c ∈ s'.completed, c ∈ s.completed) : OpMove setup s s' where
  raw op hop := .inl (hraw op hop)
  waiting := hwaiting
  hashes op hop := State.hasBuilt_of_hashes (hhashes op hop)
  completed c hc := .inl (hcompleted c hc)

/-- A move that leaves the boxes behind their pointers. -/
theorem of_raw (hraw : s'.queues.raw = s.queues.raw) (hwaiting : ∀ op ∈ s'.waiting, op ∈ s.waiting)
    (hhashes : ∀ op ∈ s'.hashes, op ∈ s.hashes)
    (hcompleted : ∀ c ∈ s'.completed, c ∈ s.completed) : OpMove setup s s' := by
  refine of_subset ?_ (fun op hop => State.hasBuilt_of_waiting (hwaiting op hop)) hhashes hcompleted
  intro op hop
  rw [hraw] at hop
  exact State.hasBuilt_of_raw hop

/-- A move that keeps the box in hand, and takes none up. -/
theorem of_hand (hraw : s'.queues.raw = s.queues.raw)
    (hquiescing : s'.queues.quiescing = s.queues.quiescing)
    (hinHand : s'.phase.inHand = s.phase.inHand) (hhashes : s'.hashes = s.hashes)
    (hcompleted : s'.completed = s.completed) : OpMove setup s s' := by
  refine of_raw hraw (fun op hop => ?_) (fun op hop => ?_) fun c hc => ?_
  · rwa [State.waiting, hquiescing, hinHand] at hop
  · rwa [hhashes] at hop
  · rwa [hcompleted] at hc

/-- A move that makes one completion of a box, and leaves the other boxes. -/
theorem of_completion {op : InFlight T} (result : Except DmaError Unit)
    (hraw : ∀ op ∈ Assoc.values s'.queues.raw, op ∈ Assoc.values s.queues.raw)
    (hwaiting : ∀ op ∈ s'.waiting, op ∈ s.waiting) (hhashes : ∀ op ∈ s'.hashes, op ∈ s.hashes)
    (hop : s.HasBuilt op)
    (hcompleted : ∀ c ∈ s'.completed,
      c ∈ s.completed ∨ c = op.intoCompletion (s.crc setup) result) : OpMove setup s s' where
  raw op hop := .inl (State.hasBuilt_of_raw (hraw op hop))
  waiting op hop := State.hasBuilt_of_waiting (hwaiting op hop)
  hashes op hop := State.hasBuilt_of_hashes (hhashes op hop)
  completed c hc := by
    rcases hcompleted c hc with hold | hnew
    · exact .inl hold
    · exact .inr (.inl ⟨op, hop, result, hnew⟩)

end OpMove

/-- Staging one more completion. -/
theorem mem_completed_stage {s : State T} {c new : Completion (Tagged T)}
    (hc : c ∈ (s.queues.completions ++ [new]) ++ s.pool.flatMap Job.done ++ s.delivered) :
    c ∈ s.completed ∨ c = new := by
  simp only [State.completed, List.mem_append, List.mem_singleton] at hc ⊢
  tauto

section
variable [Operands T] {setup : Setup} {s s' : State T} {m : Move T}

namespace OpMove

/-- A hashed op is completed, and a finished job delivers what it has completed. -/
theorem of_others (hmove : MovesIn setup s .others m s') : OpMove setup s s' := by
  cases hmove with
  | hash before after op result batch done hpool =>
    have hop : (op, result) ∈ s.hashes := by
      simp only [State.hashes, hpool, List.flatMap_append, List.flatMap_cons, List.mem_append,
        List.mem_cons]
      tauto
    refine .of_completion result (fun _ => id) (fun _ => id) (fun op' hop' => ?_)
      (State.hasBuilt_of_hashes hop) fun c hc => ?_
    · simp only [State.hashes, hpool, List.flatMap_append, List.flatMap_cons, List.mem_append,
        List.mem_cons] at hop' ⊢
      tauto
    · simp only [State.completed, hpool, List.flatMap_append, List.flatMap_cons, List.mem_append,
        List.mem_cons, List.not_mem_nil, or_false] at hc ⊢
      tauto
  | finish before after done hpool =>
    refine .of_raw rfl (fun _ => id) (fun op' hop' => ?_) fun c hc => ?_
    · simp only [State.hashes, hpool, List.flatMap_append, List.flatMap_cons, List.mem_append]
        at hop' ⊢
      tauto
    · simp only [State.completed, hpool, List.flatMap_append, List.flatMap_cons, List.mem_append]
        at hc ⊢
      tauto
  | thread | write | releasePool =>
    exact .of_raw rfl (fun _ => id) (fun _ => id) fun _ => id

/-- A pin holds no box. -/
theorem of_pinning (hmove : MovesIn setup s .pinning m s') : OpMove setup s s' := by
  cases hmove with
  | pinnedQuiesce base limit result phase hphase hnext =>
    rcases hnext with rfl | rfl
    all_goals exact .of_hand rfl rfl (by rw [hphase]; rfl) rfl rfl
  | _ => exact .of_hand rfl rfl (by rw [‹s.phase = _›]; rfl) rfl rfl

/-- A request that comes off the channel is given a box, or refused. -/
theorem of_intake (hmove : MovesIn setup s .intake m s') : OpMove setup s s' := by
  cases hmove with
  | accept number request channel op prepared htakes hchannel hprepare =>
    refine ⟨fun op' hop' => ?_, fun op' hop' => ?_, fun op' hop' => State.hasBuilt_of_hashes hop',
      fun c hc => .inl hc⟩
    · rcases Assoc.mem_of_mem_values_insert hop' with rfl | hold
      · refine .inr ⟨request, ?_, prepared, hprepare⟩
        rw [hchannel]
        exact .head _
      · exact .inl (State.hasBuilt_of_raw hold)
    · refine State.hasBuilt_of_waiting ?_
      rw [State.waiting, htakes.rests.inHand]
      exact hop'
  | refuse number request channel completion htakes hchannel hprepare =>
    refine ⟨fun op hop => .inl (State.hasBuilt_of_raw hop), fun op hop => ?_,
      fun op hop => State.hasBuilt_of_hashes hop, fun c hc => ?_⟩
    · refine State.hasBuilt_of_waiting ?_
      rw [State.waiting, htakes.rests.inHand]
      exact hop
    · rcases mem_completed_stage hc with hold | rfl
      · exact .inl hold
      · refine .inr (.inr ⟨request, ?_, hprepare⟩)
        rw [hchannel]
        exact .head _
  | addPeer number client address inserted entry channel books htakes hchannel hinsert
  | addPeerFails number client address inserted error channel books htakes hchannel hinsert
  | removePeer number client channel htakes hchannel
  | pinMessage number base length channel htakes hchannel
  | nothingToPin number base length channel htakes hchannel =>
    exact .of_hand rfl rfl htakes.rests.inHand.symm rfl rfl

/-- A posted op keeps its box, and one that fails is completed. -/
theorem of_posting (hmove : MovesIn setup s .posting m s') : OpMove setup s s' := by
  cases hmove with
  | posted prepared entry operand now op hphase hclock hraw =>
    refine .of_subset (fun op' hop' => ?_) (fun op' hop' => ?_) (fun _ => id) fun _ => id
    · rcases Assoc.mem_of_mem_values_insert hop' with rfl | hold
      · -- The box takes its lease and the address of its read.
        obtain ⟨op₀, hop₀, heq⟩ := State.hasBuilt_of_lookup hraw
        exact ⟨op₀, hop₀, heq⟩
      · exact State.hasBuilt_of_raw hold
    · refine State.hasBuilt_of_waiting ?_
      rw [State.waiting, hphase]
      exact hop'
  | failed prepared error op hphase hraw =>
    refine .of_completion (.error error) (fun _ => Assoc.mem_of_mem_values_erase)
      (fun op' hop' => ?_) (fun _ => id) (State.hasBuilt_of_lookup hraw) fun c =>
        mem_completed_stage
    rw [State.waiting, hphase]
    exact hop'
  | _ => exact .of_hand rfl rfl (by rw [‹s.phase = _›]; rfl) rfl rfl

/-- A reaped op leaves its pointer, and its box goes on to the read, to the checksum or to its
completion. -/
theorem of_reaping (hmove : MovesIn setup s .reaping m s') : OpMove setup s s' := by
  cases hmove with
  | toQuiescing context reaped op read hphase hreaped hraw hquiesce =>
    refine .of_subset (fun op' hop' => ?_) (fun op' hop' => ?_) (fun _ => id) fun _ => id
    · exact State.hasBuilt_of_raw (Assoc.mem_of_mem_values_erase hop')
    · simp only [State.waiting, List.map_append, List.map_cons, List.map_nil] at hop'
      rcases List.mem_append.mp hop' with hop' | hop'
      · rcases List.mem_append.mp hop' with hold | hnew
        · exact State.hasBuilt_of_waiting (List.mem_append_left _ hold)
        · rw [List.mem_singleton.mp hnew]
          obtain ⟨op₀, hop₀, heq⟩ := State.hasBuilt_of_lookup hraw
          exact ⟨op₀, hop₀, heq⟩
      · exact State.hasBuilt_of_waiting (List.mem_append_right _ hop')
  | toCrc context result reaped op hphase hreaped hraw hquiesce =>
    refine ⟨fun op' hop' => .inl (State.hasBuilt_of_raw (Assoc.mem_of_mem_values_erase hop')),
      fun op' hop' => State.hasBuilt_of_waiting hop', fun op' hop' => ?_, fun c hc => .inl hc⟩
    by_cases hnew : op' = (op, result)
    · rw [hnew]
      exact State.hasBuilt_of_lookup hraw
    · refine State.hasBuilt_of_hashes ?_
      simp only [State.hashes, List.mem_append, List.mem_singleton] at hop' ⊢
      tauto
  | toCompletion context result reaped op hphase hreaped hraw hquiesce =>
    exact .of_completion result (fun _ => Assoc.mem_of_mem_values_erase)
      (fun _ => id) (fun _ => id) (State.hasBuilt_of_lookup hraw) fun c => mem_completed_stage
  | _ => exact .of_hand rfl rfl (by rw [‹s.phase = _›]; rfl) rfl rfl

/-- A write that waits for its read goes through the hand with its box. -/
theorem of_quiescing (ho : Owned s) (hmove : MovesIn setup s .quiescing m s') :
    OpMove setup s s' := by
  cases hmove with
  | quiesce waiting quiescing inserted entry books hphase hquiescing hinsert
  | quiesceFails waiting quiescing inserted error books hphase hquiescing hinsert =>
    refine .of_raw rfl (fun op hop => ?_) (fun _ => id) fun _ => id
    simp only [State.waiting, hquiescing, Phase.inHand, List.mem_append, List.map_cons,
      List.mem_cons] at hop ⊢
    tauto
  | quiesced waiting entry operand now hphase hclock =>
    have hhand : waiting.inflight ∈ s.waiting := by
      rw [State.waiting, hphase]
      exact List.mem_append_right _ (.head _)
    refine .of_subset (fun op' hop' => ?_) (fun op' hop' => ?_) (fun _ => id) fun _ => id
    · rcases Assoc.mem_of_mem_values_insert hop' with rfl | hold
      · exact ⟨_, List.mem_append_left _ (List.mem_append_right _ hhand), rfl⟩
      · exact State.hasBuilt_of_raw hold
    · rcases List.mem_append.mp hop' with hold | hnew
      · exact State.hasBuilt_of_waiting (List.mem_append_left _ hold)
      · cases hnew
  | requiesce waiting entry operand since now hphase hclock =>
    have hhand : waiting.inflight ∈ s.phase.inHand := by rw [hphase]; exact .head _
    have hraw := Assoc.erase_insert_of_none (ho.lookup_of_inHand hhand)
      { waiting.inflight with localLease := operand.lease }
    refine .of_subset (fun op hop => ?_) (fun op hop => ?_) (fun _ => id) fun _ => id
    · exact State.hasBuilt_of_raw (hraw ▸ hop)
    · simp only [State.waiting, Phase.inHand, List.append_nil, List.map_append, List.map_cons,
        List.map_nil] at hop
      rcases List.mem_append.mp hop with hold | hnew
      · exact State.hasBuilt_of_waiting (List.mem_append_left _ hold)
      · rw [List.mem_singleton.mp hnew]
        obtain ⟨op₀, hop₀, heq⟩ := State.hasBuilt_of_waiting (List.mem_append_right _ hhand)
        exact ⟨op₀, hop₀, heq⟩
  | quiescePostFails waiting entry operand now error hphase hclock =>
    have hhand : waiting.inflight ∈ s.phase.inHand := by rw [hphase]; exact .head _
    have hraw := Assoc.erase_insert_of_none (ho.lookup_of_inHand hhand)
      { waiting.inflight with localLease := operand.lease }
    refine .of_subset (fun op hop => ?_) (fun op hop => ?_) (fun _ => id) fun _ => id
    · exact State.hasBuilt_of_raw (hraw ▸ hop)
    · rcases List.mem_append.mp hop with hold | hnew
      · exact State.hasBuilt_of_waiting (List.mem_append_left _ hold)
      · rw [List.mem_singleton.mp hnew]
        obtain ⟨op₀, hop₀, heq⟩ := State.hasBuilt_of_waiting (List.mem_append_right _ hhand)
        exact ⟨op₀, hop₀, heq⟩
  | failedQuiesce op error hphase =>
    have hhand : op ∈ s.waiting := by
      rw [State.waiting, hphase]
      exact List.mem_append_right _ (.head _)
    refine .of_completion (.error error) (fun _ => id) (fun op' hop' => ?_) (fun _ => id)
      (State.hasBuilt_of_waiting hhand) fun c => mem_completed_stage
    rcases List.mem_append.mp hop' with hold | hnew
    · exact List.mem_append_left _ hold
    · cases hnew
  | _ => exact .of_hand rfl rfl (by rw [‹s.phase = _›]; rfl) rfl rfl

/-- At the end of a pass the batch goes to the pool and the completions are delivered, and past the
loop there are none. -/
theorem of_ending (hs : Settled s) (hmove : MovesIn setup s .ending m s') : OpMove setup s s' := by
  cases hmove with
  | flush hphase =>
    refine .of_raw rfl (fun op hop => ?_) (fun op hop => ?_) fun c hc => ?_
    · rw [State.waiting, hphase]
      exact hop
    · simp only [State.hashes, List.flatMap_append, List.flatMap_cons, List.flatMap_nil,
        List.append_nil, List.nil_append, List.mem_append] at hop ⊢
      tauto
    · simp only [State.completed, List.flatMap_append, List.flatMap_cons, List.flatMap_nil,
        List.append_nil] at hc ⊢
      exact hc
  | deliver hphase =>
    refine .of_raw rfl (fun op hop => ?_) (fun _ => id) fun c hc => ?_
    · rw [State.waiting, hphase]
      exact hop
    · simp only [State.completed, List.nil_append, List.mem_append] at hc ⊢
      tauto
  | leftover ops raw hphase hreclaim =>
    obtain ⟨rfl, rfl, -, hcrc⟩ := hs.leftover hphase hreclaim
    refine .of_raw rfl (fun op hop => ?_) (fun op hop => ?_) fun c hc => ?_
    · rw [State.waiting, hphase]
      exact hop
    · rw [State.hashes, hcrc]
      exact hop
    · simp only [State.completed, hcrc, List.map_nil, List.append_nil] at hc ⊢
      exact hc
  | _ => exact .of_hand rfl rfl (by rw [‹s.phase = _›]; rfl) rfl rfl

end OpMove

/-- Every move does to the boxes and the completions what `OpMove` lists. -/
theorem Moves.opMove (hs : Settled s) (ho : Owned s) (hmove : Moves setup s m s') :
    OpMove setup s s' := by
  obtain ⟨part, hmove⟩ := hmove
  cases part with
  | callers => cases hmove <;> exact .of_raw rfl (fun _ => id) (fun _ => id) fun _ => id
  | others => exact .of_others hmove
  | turning =>
    cases hmove with
    | turn hturn =>
      obtain ⟨hrests, hrests', -⟩ := hturn.rests
      exact .of_hand rfl rfl (hrests'.inHand.trans hrests.inHand.symm) rfl rfl
  | pinning => exact .of_pinning hmove
  | intake => exact .of_intake hmove
  | posting => exact .of_posting hmove
  | reaping => exact .of_reaping hmove
  | quiescing => exact .of_quiescing ho hmove
  | ending => exact .of_ending hs hmove
  | dangling => exact (hmove.not_dangling hs ho.backed).elim

/-- What `c` says of the transfer it answers: the refusal of `prepare`, or what `prepare`
built. -/
def CompletionFor (setup : Setup) (request : TransferRequest (Tagged T))
    (c : Completion (Tagged T)) : Prop :=
  prepare request setup.configuration.quiesceWrites = .error c ∨
    ∃ op prepared, prepare request setup.configuration.quiesceWrites = .ok (op, prepared) ∧
      c.callerContext = op.callerContext ∧
      ∀ done, c.outcome = .ok done →
        done.bytes = op.length ∧ done.checksum.isSome = op.wantChecksum

/-- The boxes and the completions are of transfers that were sent, and are as `prepare` built
them. -/
structure Built (setup : Setup) (s : State T) : Prop where
  boxes : ∀ op ∈ s.boxes, ∃ request op₀ prepared,
    Origin setup s.callers.sent op.number request op₀ prepared ∧ op₀.asBuilt = op.asBuilt
  completed : ∀ c ∈ s.completed, ∃ request ∈ s.callers.sent,
    request.number = c.number ∧ CompletionFor setup request c

namespace Built

/-- At the start there is no box. -/
theorem start (setup : Setup) : Built setup (State.start setup : State T) where
  boxes op h := by cases h
  completed c h := by cases h

/-- The origin of a box as far as it was built. -/
theorem origin (h : Built setup s) {op : InFlight T} (hop : s.HasBuilt op) :
    ∃ request op₀ prepared,
      Origin setup s.callers.sent op.number request op₀ prepared ∧ op₀.asBuilt = op.asBuilt := by
  obtain ⟨op', hop', heq⟩ := hop
  obtain ⟨request, op₀, prepared, horigin, hbuilt⟩ := h.boxes op' hop'
  refine ⟨request, op₀, prepared, ?_, hbuilt.trans heq⟩
  have hnumber : op'.number = op.number :=
    congrArg Tagged.number (InFlight.asBuilt_fields heq).1
  rwa [hnumber] at horigin

/-- A completion of a box says what was built. -/
theorem completionFor {request : TransferRequest (Tagged T)} {op₀ op : InFlight T}
    {prepared : Prepared} {crc : Nat → Nat → UInt32} {result : Except DmaError Unit}
    (hprepare : prepare request setup.configuration.quiesceWrites = .ok (op₀, prepared))
    (hbuilt : op₀.asBuilt = op.asBuilt) :
    CompletionFor setup request (op.intoCompletion crc result) := by
  obtain ⟨hcontext, hlength, hchecksum, -⟩ := InFlight.asBuilt_fields hbuilt
  refine .inr ⟨op₀, prepared, hprepare, hcontext.symm, fun done hdone => ?_⟩
  cases result with
  | error error => cases hdone
  | ok u =>
    cases hdone
    refine ⟨hlength.symm, ?_⟩
    rw [hchecksum]
    cases op.wantChecksum with
    | true => rfl
    | false => rfl

/-- Every move keeps the boxes and the completions as they were built. -/
theorem step (h : Built setup s) (hs : Settled s) (ho : Owned s) (htraced : Traced setup s)
    (hmove : Moves setup s m s') : Built setup s' := by
  have hop := hmove.opMove hs ho
  have hsub := hmove.sent_subset hs ho
  have hold : ∀ op, s.HasBuilt op → ∃ request op₀ prepared,
      Origin setup s'.callers.sent op.number request op₀ prepared ∧ op₀.asBuilt = op.asBuilt := by
    intro op hbox
    obtain ⟨request, op₀, prepared, horigin, hbuilt⟩ := h.origin hbox
    exact ⟨request, op₀, prepared, horigin.mono hsub, hbuilt⟩
  constructor
  · -- A box was there before, or is new; one that waits or hashes was built with its request.
    intro op hbox
    rcases List.mem_append.mp hbox with hbox | hbox
    · rcases List.mem_append.mp hbox with hraw | hwaiting
      · rcases hop.raw op hraw with hkept | ⟨request, hrequest, prepared, hprepare⟩
        · exact hold op hkept
        · -- The box is new.
          obtain ⟨hcontext, -⟩ := prepare_ok hprepare
          have hnumber : request.number = op.number := by rw [InFlight.number, hcontext]; rfl
          exact ⟨request, op, prepared,
            ⟨hsub (htraced.channel request hrequest), hnumber, hprepare⟩, rfl⟩
      · exact hold op (hop.waiting op hwaiting)
    · obtain ⟨hashed, hhashed, rfl⟩ := List.mem_map.mp hbox
      exact hold _ (hop.hashes hashed hhashed)
  · intro c hc
    -- The completion was there, comes from a box, or refuses a request.
    rcases hop.completed c hc with hkept | ⟨op, hbox, result, rfl⟩ | ⟨request, hrequest, hprepare⟩
    · obtain ⟨request, hrequest, hnumber, hfor⟩ := h.completed c hkept
      exact ⟨request, hsub hrequest, hnumber, hfor⟩
    · obtain ⟨request, op₀, prepared, horigin, hbuilt⟩ := h.origin hbox
      exact ⟨request, hsub horigin.mem, horigin.number_eq, completionFor horigin.built hbuilt⟩
    · -- The request is refused as it leaves the channel.
      obtain ⟨hcontext, -⟩ := prepare_error hprepare
      refine ⟨request, hsub (htraced.channel request hrequest), ?_, .inl hprepare⟩
      rw [Completion.number, hcontext]
      rfl

end Built

end

/-- The box that `prepare` builds is about the operand that is posted. -/
theorem prepare_box [Operands T] {request : TransferRequest (Tagged T)} {quiesceWrites : Bool}
    {op : InFlight T} {prepared : Prepared}
    (h : prepare request quiesceWrites = .ok (op, prepared)) :
    op.bufferPointer = prepared.pointer ∧ op.length = prepared.length ∧
      op.wantChecksum = request.wantChecksum := by
  unfold prepare at h
  dsimp only at h
  split at h
  · cases h
  · split at h
    · cases h
    · cases h
      exact ⟨rfl, rfl, rfl⟩

/-- An op with a box has no completion. -/
theorem Owned.number_ne_of_box [Operands T] {s : State T} (ho : Owned s) {op : InFlight T}
    (hop : s.HasBuilt op) {c : Completion (Tagged T)} (hc : c ∈ s.completed) :
    c.number ≠ op.number := by
  intro hnumber
  obtain ⟨op', hop', heq⟩ := hop
  have hsame : op'.number = c.number :=
    (congrArg Tagged.number (InFlight.asBuilt_fields heq).1).trans hnumber.symm
  obtain ⟨hlive, hhashing⟩ := ho.alone hc
  have hle := le_of_mem_boxes hop' fun op => indicator c.number op.number
  have hone : indicator c.number op'.number = 1 := if_pos hsame
  omega

/-- What is reaped anew was posted, and has its box. -/
theorem Moves.box_of_reaped [Operands T] {setup : Setup} {s s' : State T} {m : Move T}
    (hs : Settled s) (ho : Owned s) (hmove : Moves setup s m s') {post : PostedOp} {ok : Bool}
    (hreport : .reaped post ok ∈ s'.wire.history.drop s.wire.history.length) :
    ∃ op, s.HasBuilt op ∧ op.number = post.context := by
  -- Only a reap reports, and it reports of posts on the wire.
  have hpost : post ∈ s.wire.posts := by
    cases hmove.wireMove hs ho with
    | keep hwire =>
      rw [hwire, List.drop_length] at hreport
      cases hreport
    | transfer prepared entry operand op hphase hraw hwire =>
      rw [hwire, Wire.post, List.drop_left] at hreport
      cases List.mem_singleton.mp hreport
    | read waiting entry operand hphase hwire =>
      rw [hwire, Wire.post, List.drop_left] at hreport
      cases List.mem_singleton.mp hreport
    | take reaped hphase htake =>
      obtain ⟨claimed, -, hperm, hhistory⟩ := Wire.take_spec htake
      rw [hhistory, List.drop_left] at hreport
      obtain ⟨i, hi, hget⟩ := List.getElem_of_mem hreport
      rw [List.length_zipWith] at hi
      rw [List.getElem_zipWith] at hget
      cases hget
      have hclaimed : i < claimed.length := by omega
      exact hperm.mem_iff.mpr (List.mem_append_left _ (List.getElem_mem hclaimed))
  -- The post's context is behind a pointer, so it has a box.
  have hpointed : 0 < s.pointers (indicator post.context) := by
    have hle := le_sum_map hpost fun post' => indicator post.context post'.context
    have hone : indicator post.context post.context = 1 := if_pos rfl
    simp only [State.pointers]
    omega
  obtain ⟨op, hop⟩ := Option.ne_none_iff_exists'.mp (ho.lookup_of_pointed hpointed)
  exact ⟨op, State.hasBuilt_of_lookup hop, ho.named _ op hop⟩

/-- What was delivered stays delivered. -/
theorem Moves.delivered_subset [Operands T] {setup : Setup} {s s' : State T} {m : Move T}
    (hs : Settled s) (ho : Owned s) (hmove : Moves setup s m s') : s.delivered ⊆ s'.delivered := by
  obtain ⟨part, hmove⟩ := hmove
  cases hmove with
  | finish => exact List.subset_append_left _ _
  | deliver => exact List.subset_append_left _ _
  | leftover => exact List.subset_append_left _ _
  | dangling context hraw howned => exact (ho.backed.not_dangling hraw howned).elim
  | danglingPending hphase hreclaim => exact (hs.not_danglingPending hphase hreclaim).elim
  | _ => exact fun _ => id

/-- In every run the boxes and the completions are as `prepare` built them. -/
theorem built_reach [Operands T] {setup : Setup} {ok : State T → Move T → Prop} {s : State T}
    (h : (service T setup).Reach ok s) : Built setup s := by
  refine service_invariant (J := fun s => (Settled s ∧ Owned s) ∧ Traced setup s)
    (I := Built setup)
    (fun s hs => ⟨owned_reach hs, traced_reach hs⟩) (.start setup) ?_ h
  intro s m s' hs hs' hok hmove hbuilt
  exact hbuilt.step hs.1.1 hs.1.2 hs.2 hmove

end Vdma.Fabric
