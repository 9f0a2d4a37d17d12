import Vdma.Proofs.Worker.Completion
import Vdma.Proofs.Worker.Traced

/-!
# `Vdma.Proofs.Worker.Quiesced`: a quiesced write is read back before it succeeds

`Told` says that an `Ok` completion had its write and its read reaped `Ok`. Three
invariants add the rest. `Ordered` puts the reports of a read behind those of its write.
`Unread` counts the reads: an op that had its read posted is past the places a read is
posted from, so there is no second one. `Erring` follows an op that fails to the `Err`
that is made of it, and an op that has an `Err` has no other completion.

`State.unpostable` names the op that a move finds it cannot post, and
`unpostable_fails` puts it on its way.
-/

set_option autoImplicit false

namespace Vdma.Fabric

open Vdma.Lib

variable {T : Type}

/-! ### The order of the reports -/

/-- The reports of a quiesce read come behind those of the write it reads back. -/
structure Ordered (s : State T) : Prop where
  posts : ∀ post ∈ s.wire.posts, post.kind = .quiesce → ∃ main : PostedOp,
    [.posted main, .reaped main true, .posted post].Sublist s.wire.history ∧
      main.context = post.context ∧ main.kind ≠ .quiesce
  reaped : ∀ (post : PostedOp) (ok : Bool), .reaped post ok ∈ s.wire.history →
    [.posted post, .reaped post ok].Sublist s.wire.history
  reads : ∀ (post : PostedOp) (ok : Bool), .reaped post ok ∈ s.wire.history →
    post.kind = .quiesce → ∃ main : PostedOp,
      [.posted main, .reaped main true, .posted post, .reaped post ok].Sublist s.wire.history ∧
        main.context = post.context ∧ main.kind ≠ .quiesce

namespace Ordered

variable {setup : Setup} {s s' : State T}

/-- At the start nothing was reported. -/
theorem start (setup : Setup) : Ordered (State.start setup : State T) where
  posts post h := by cases h
  reaped post ok h := by cases h
  reads post ok h := by cases h

/-- A new post is reported last. -/
theorem post (h : Ordered s) {new : PostedOp} (hwire : s'.wire = s.wire.post new)
    (hread : new.kind = .quiesce → ∃ main : PostedOp,
      [.posted main, .reaped main true].Sublist s.wire.history ∧ main.context = new.context ∧
        main.kind ≠ .quiesce) : Ordered s' := by
  have hhistory : s'.wire.history = s.wire.history ++ [.posted new] := by rw [hwire]; rfl
  have hsub : s.wire.history.Sublist s'.wire.history := by
    rw [hhistory]
    exact List.sublist_append_left _ _
  -- What was reaped was reaped before: this move only posts.
  have hold : ∀ (post : PostedOp) (ok : Bool), .reaped post ok ∈ s'.wire.history →
      .reaped post ok ∈ s.wire.history := by
    intro post ok hreport
    rw [hhistory] at hreport
    rcases List.mem_append.mp hreport with hold | hnew
    · exact hold
    · cases List.mem_singleton.mp hnew
  refine ⟨fun post hpost hkind => ?_, fun post ok hreport => ?_, fun post ok hreport hkind => ?_⟩
  · -- An older read keeps its chain, since the history grows at the end.
    rw [hwire] at hpost
    rcases List.mem_append.mp hpost with hpost | hnew
    · obtain ⟨main, hchain, hmain⟩ := h.posts post hpost hkind
      exact ⟨main, hchain.trans hsub, hmain⟩
    · -- The new post is a read, and its write was reaped already.
      rw [List.mem_singleton.mp hnew] at hkind ⊢
      obtain ⟨main, hchain, hmain⟩ := hread hkind
      refine ⟨main, ?_, hmain⟩
      rw [hhistory]
      exact hchain.append (List.Sublist.refl [Report.posted new])
  · exact (h.reaped post ok (hold post ok hreport)).trans hsub
  · obtain ⟨main, hchain, hmain⟩ := h.reads post ok (hold post ok hreport) hkind
    exact ⟨main, hchain.trans hsub, hmain⟩

/-- What is reaped was posted before. -/
theorem take (h : Ordered s) (htold : Told s) {reaped : List Reaped}
    (htake : s.wire.take reaped = some s'.wire) : Ordered s' := by
  obtain ⟨claimed, -, hperm, hhistory⟩ := Wire.take_spec htake
  have hsub : s.wire.history.Sublist s'.wire.history := by
    rw [hhistory]
    exact List.sublist_append_left _ _
  -- A report is an old one, or one of a post that libfabric held.
  have hreports : ∀ (post : PostedOp) (ok : Bool), .reaped post ok ∈ s'.wire.history →
      .reaped post ok ∈ s.wire.history ∨ post ∈ s.wire.posts ∧
        ∀ chain : List Report, chain.Sublist s.wire.history →
          (chain ++ [Report.reaped post ok]).Sublist s'.wire.history := by
    intro post ok hreport
    rw [hhistory] at hreport
    rcases List.mem_append.mp hreport with hold | hnew
    · exact .inl hold
    · right
      refine ⟨?_, fun chain hchain => ?_⟩
      · obtain ⟨i, hi, hget⟩ := List.getElem_of_mem hnew
        rw [List.getElem_zipWith] at hget
        cases hget
        exact hperm.mem_iff.mpr (List.mem_append_left _ (List.getElem_mem _))
      · rw [hhistory]
        exact hchain.append (List.singleton_sublist.mpr hnew)
  refine ⟨fun post hpost hkind => ?_, fun post ok hreport => ?_, fun post ok hreport hkind => ?_⟩
  · have hold : post ∈ s.wire.posts := hperm.mem_iff.mpr (List.mem_append_right _ hpost)
    obtain ⟨main, hchain, hmain⟩ := h.posts post hold hkind
    exact ⟨main, hchain.trans hsub, hmain⟩
  · rcases hreports post ok hreport with hold | ⟨hpost, hnew⟩
    · exact (h.reaped post ok hold).trans hsub
    · exact hnew [.posted post] (List.singleton_sublist.mpr (htold.posts post hpost))
  · rcases hreports post ok hreport with hold | ⟨hpost, hnew⟩
    · obtain ⟨main, hchain, hmain⟩ := h.reads post ok hold hkind
      exact ⟨main, hchain.trans hsub, hmain⟩
    · obtain ⟨main, hchain, hmain⟩ := h.posts post hpost hkind
      exact ⟨main, hnew _ hchain, hmain⟩

/-- Every move keeps the order. -/
theorem step (h : Ordered s) (htold : Told s) (hmove : WireMove setup s s') : Ordered s' := by
  cases hmove with
  | keep hwire =>
    refine ⟨?_, ?_, ?_⟩
    · rw [hwire]
      exact h.posts
    · rw [hwire]
      exact h.reaped
    · rw [hwire]
      exact h.reads
  | transfer prepared entry operand op hphase hraw hwire =>
    refine h.post hwire fun hkind => ?_
    simp only [State.postedOp] at hkind
    split at hkind <;> cases hkind
  | read waiting entry operand hphase hwire =>
    -- The write waits in hand, so it was reaped.
    have hhand : waiting.inflight ∈ s.phase.inHand := by rw [hphase]; exact .head _
    obtain ⟨main, -, hreaped, hcontext, hkind, -⟩ := htold.waiting _ (List.mem_append_right _ hhand)
    exact h.post hwire fun _ => ⟨main, h.reaped main true hreaped, hcontext, hkind⟩
  | take reaped hphase htake => exact h.take htold htake

end Ordered

/-- In every run the reports of an op are in order. -/
theorem ordered_reach [Operands T] {setup : Setup} {ok : State T → Move T → Prop} {s : State T}
    (h : (service T setup).Reach ok s) : Ordered s := by
  refine service_invariant (J := fun s => Invariants setup s ∧ Told s) (I := Ordered)
    (fun s hs => ⟨invariants_reach hs, told_reach hs⟩) (.start setup) ?_ h
  intro s m s' hs hs' hok hmove hordered
  exact hordered.step hs.2 (hmove.wireMove hs.1.settled hs.1.owned)

/-! ### One read for each op -/

/-- The op a report says was given a quiesce read. -/
def Report.read : Report → List Nat
  | .posted post => if post.kind = .quiesce then [post.context] else []
  | .reaped _ _ => []

/-- The ops that were given a quiesce read, one entry for each read. -/
def quiesceReads (history : List Report) : List Nat := history.flatMap Report.read

/-- The reads of two histories are those of the first, and then those of the second. -/
theorem quiesceReads_append (history history' : List Report) :
    quiesceReads (history ++ history') = quiesceReads history ++ quiesceReads history' :=
  List.flatMap_append

/-- Completions report no read. -/
theorem quiesceReads_take {w w' : Wire} {reaped : List Reaped} (h : w.take reaped = some w') :
    quiesceReads w'.history = quiesceReads w.history := by
  obtain ⟨claimed, -, -, hhistory⟩ := Wire.take_spec h
  have hnone : quiesceReads (List.zipWith (fun op r => Report.reaped op r.2.isOk) claimed reaped)
      = [] := by
    refine List.flatMap_eq_nil_iff.mpr fun report hreport => ?_
    obtain ⟨i, hi, rfl⟩ := List.getElem_of_mem hreport
    rw [List.getElem_zipWith]
    rfl
  rw [hhistory, quiesceReads_append, hnone, List.append_nil]

namespace State

/-- The sum of `f` over the ops whose read may still be posted: those in the channel, those
whose box carries a read, and those that wait for theirs. -/
def unread (f : Nat → Nat) (s : State T) : Nat :=
  ((transfers s.callers.channel).map fun request => f request.number).sum
    + Assoc.weight (fun op => if op.quiesce.isSome then f op.number else 0) s.queues.raw
    + (s.queues.quiescing.map fun waiting => f waiting.inflight.number).sum
    + (s.phase.inHand.map fun op => f op.number).sum

end State

/-- An op was given a read, or may still be, and not both. -/
def Unread (s : State T) : Prop :=
  ∀ f : Nat → Nat, ((quiesceReads s.wire.history).map f).sum + s.unread f
    ≤ (s.callers.sent.map fun request => f request.number).sum

namespace Unread

variable {setup : Setup} {s s' : State T} {m : Move T}

/-- At the start no read was posted. -/
theorem start (setup : Setup) : Unread (State.start setup : State T) := fun _ => Nat.le_refl 0

/-- A move that sends nothing and posts no read. -/
theorem of_unread (h : Unread s) (hsent : s'.callers.sent = s.callers.sent)
    (hreads : quiesceReads s'.wire.history = quiesceReads s.wire.history)
    (hunread : ∀ f, s'.unread f ≤ s.unread f) : Unread s' := by
  intro f
  have hle := h f
  have hf := hunread f
  rw [hsent, hreads]
  omega

/-- A move that leaves the channel, the boxes and the hand, and posts no read. -/
theorem of_hand (h : Unread s) (hsent : s'.callers.sent = s.callers.sent)
    (hchannel : s'.callers.channel = s.callers.channel) (hraw : s'.queues.raw = s.queues.raw)
    (hquiescing : s'.queues.quiescing = s.queues.quiescing)
    (hinHand : s'.phase.inHand = s.phase.inHand)
    (hreads : quiesceReads s'.wire.history = quiesceReads s.wire.history) : Unread s' := by
  refine h.of_unread hsent hreads fun f => Nat.le_of_eq ?_
  simp only [State.unread, hchannel, hraw, hquiescing, hinHand]

/-- Taking a message that is no transfer. -/
theorem of_message (h : Unread s) (htakes : Takes s) {number : Nat}
    {message : WorkerMessage (Tagged T)} {channel : List (Nat × WorkerMessage (Tagged T))}
    (hchannel : s.callers.channel = (number, message) :: channel)
    (hmessage : ∀ request, message ≠ .transfer request) (hsent : s'.callers.sent = s.callers.sent)
    (hchannel' : s'.callers.channel = channel) (hqueues : s'.queues = s.queues)
    (hwire : s'.wire = s.wire) (hinHand : s'.phase.inHand = []) : Unread s' := by
  refine h.of_unread hsent (by rw [hwire]) fun f => ?_
  simp only [State.unread, hchannel', hchannel, transfers_other hmessage, hqueues, hinHand,
    htakes.rests.inHand, le_refl]

variable [Operands T]

/-- A request that is sent is counted on both sides. -/
theorem step_callers (h : Unread s) (hmove : MovesIn setup s .callers m s') : Unread s' := by
  cases hmove with
  | submit | sendFails | dropService => exact h.of_hand rfl rfl rfl rfl rfl rfl
  | send i request hi hphase =>
    intro f
    have hle := h f
    simp only [State.unread, transfers_append, List.map_append, List.sum_append] at hle ⊢
    simp only [transfers, List.filterMap_cons, List.filterMap_nil, List.map_cons, List.map_nil,
      List.sum_cons, List.sum_nil] at hle ⊢
    omega
  | message message hserving hmessage =>
    refine h.of_unread rfl rfl fun f => Nat.le_of_eq ?_
    simp only [State.unread, State.enqueue, transfers_append, transfers_other hmessage]
    simp only [transfers, List.filterMap_nil, List.append_nil]
  | refused => exact h

/-- A pin gives no reads. -/
theorem step_pinning (h : Unread s) (hmove : MovesIn setup s .pinning m s') : Unread s' := by
  cases hmove with
  | pinnedQuiesce base limit result phase hphase hnext =>
    rcases hnext with rfl | rfl
    all_goals exact h.of_hand rfl rfl rfl rfl (by rw [hphase]; rfl) rfl
  | _ => exact h.of_hand rfl rfl rfl rfl (by rw [‹s.phase = _›]; rfl) rfl

/-- The count goes from the channel to the box, as far as the box has a read. -/
theorem step_intake (h : Unread s) (ho : Owned s)
    (hmove : MovesIn setup s .intake m s') : Unread s' := by
  cases hmove with
  | accept number request channel op prepared htakes hchannel hprepare =>
    obtain ⟨hcontext, -, -, hpointer, -, -⟩ := prepare_ok hprepare
    have hnumber : op.number = request.number := by
      rw [InFlight.number, hcontext]
      rfl
    have hnone := ho.lookup_of_channel hchannel
    rw [← hpointer] at hnone
    refine h.of_unread rfl rfl fun f => ?_
    simp only [State.unread, State.popped, hchannel, transfers_cons_transfer, htakes.rests.inHand,
      Phase.rests_intake.inHand, Assoc.weight_insert_of_none hnone, hnumber, List.map_cons,
      List.sum_cons]
    split <;> omega
  | refuse number request channel completion htakes hchannel hprepare =>
    refine h.of_unread rfl rfl fun f => ?_
    simp only [State.unread, State.popped, hchannel, transfers_cons_transfer, htakes.rests.inHand,
      Phase.rests_intake.inHand, List.map_cons, List.sum_cons]
    omega
  | addPeer number client address inserted entry channel books htakes hchannel hinsert
  | addPeerFails number client address inserted error channel books htakes hchannel hinsert
  | removePeer number client channel htakes hchannel
  | pinMessage number base length channel htakes hchannel
  | nothingToPin number base length channel htakes hchannel =>
    exact h.of_message htakes hchannel (by simp) rfl rfl rfl rfl rfl

/-- A transfer is posted as a write or as a read, never as the read that follows. -/
theorem step_posting (h : Unread s) (hmove : MovesIn setup s .posting m s') : Unread s' := by
  cases hmove with
  | posted prepared entry operand now op hphase hclock hraw =>
    refine h.of_unread rfl ?_ fun f => ?_
    · -- A transfer is posted as a write or as a read.
      show quiesceReads (s.wire.history ++ _) = _
      rw [quiesceReads_append]
      cases hdirection : prepared.direction <;>
        simp [quiesceReads, Report.read, State.postedOp, hdirection]
    · have hweight := Assoc.weight_insert_of_some hraw
        (fun op => if op.quiesce.isSome then f op.number else 0)
        (State.posted op prepared operand.lease)
      simp only [State.unread, hphase, Phase.inHand]
      simp only [State.posted, Option.isSome_map, InFlight.number] at hweight ⊢
      omega
  | failed prepared error op hphase hraw =>
    refine h.of_unread rfl rfl fun f => ?_
    have hweight := Assoc.weight_of_lookup hraw
      fun op => if op.quiesce.isSome then f op.number else 0
    simp only [State.unread, hphase, Phase.inHand]
    omega
  | _ => exact h.of_hand rfl rfl rfl rfl (by rw [‹s.phase = _›]; rfl) rfl

/-- A box whose read is due goes to the queue with it. -/
theorem step_reaping (h : Unread s) (hmove : MovesIn setup s .reaping m s') : Unread s' := by
  cases hmove with
  | reap reaped wire hphase htake =>
    exact h.of_hand rfl rfl rfl rfl (by rw [hphase]; rfl) (quiesceReads_take htake)
  | toQuiescing context reaped op read hphase hreaped hraw hquiesce =>
    refine h.of_unread rfl rfl fun f => ?_
    have hweight := Assoc.weight_of_lookup hraw
      fun op => if op.quiesce.isSome then f op.number else 0
    simp only [hquiesce, Option.isSome_some, if_true, InFlight.number] at hweight
    simp only [State.unread, InFlight.number, List.map_append, List.sum_append, List.map_cons,
      List.map_nil, List.sum_cons, List.sum_nil] at hweight ⊢
    omega
  | toCrc context result reaped op hphase hreaped hraw hquiesce
  | toCompletion context result reaped op hphase hreaped hraw hquiesce =>
    refine h.of_unread rfl rfl fun f => ?_
    have hweight := Assoc.weight_of_lookup hraw
      fun op => if op.quiesce.isSome then f op.number else 0
    simp only [State.unread]
    omega

/-- A write has its read, or waits for it. -/
theorem step_quiescing (h : Unread s) (ho : Owned s) (hb : Boxed setup s)
    (hmove : MovesIn setup s .quiescing m s') : Unread s' := by
  cases hmove with
  | quiesce waiting quiescing inserted entry books hphase hquiescing hinsert
  | quiesceFails waiting quiescing inserted error books hphase hquiescing hinsert =>
    refine h.of_unread rfl rfl fun f => ?_
    simp only [State.unread, hphase, Phase.inHand, hquiescing, List.map_cons, List.map_nil,
      List.sum_cons, List.sum_nil]
    omega
  | quiesced waiting entry operand now hphase hclock =>
    have hhand : waiting.inflight ∈ s.phase.inHand := by rw [hphase]; exact .head _
    have hnone := ho.lookup_of_inHand hhand
    have hquiesce := hb.waiting _ (List.mem_append_right _ hhand)
    intro f
    have hle := h f
    -- The op goes from those that wait to those that have a read.
    simp only [State.unread, hphase, Phase.inHand, Wire.post, quiesceReads_append,
      Assoc.weight_insert_of_none hnone, hquiesce, List.map_append, List.sum_append,
      List.map_cons, List.map_nil, List.sum_cons, List.sum_nil] at hle ⊢
    simp only [quiesceReads, Report.read, State.quiesceOp, List.flatMap_cons, List.flatMap_nil,
      if_true, List.append_nil, List.map_cons, List.map_nil, List.sum_cons, List.sum_nil,
      Option.isSome_none, Bool.false_eq_true, if_false] at hle ⊢
    omega
  | requiesce waiting entry operand since now hphase hclock =>
    have hhand : waiting.inflight ∈ s.phase.inHand := by rw [hphase]; exact .head _
    have hnone := ho.lookup_of_inHand hhand
    refine h.of_unread rfl rfl fun f => ?_
    simp only [State.unread, hphase, Phase.inHand, Assoc.erase_insert_of_none hnone,
      List.map_append, List.sum_append, List.map_cons, List.map_nil, List.sum_cons, List.sum_nil]
    simp only [InFlight.number]
    omega
  | quiescePostFails waiting entry operand now error hphase hclock =>
    have hhand : waiting.inflight ∈ s.phase.inHand := by rw [hphase]; exact .head _
    have hnone := ho.lookup_of_inHand hhand
    refine h.of_unread rfl rfl fun f => Nat.le_of_eq ?_
    simp only [State.unread, hphase, Phase.inHand, Assoc.erase_insert_of_none hnone,
      List.map_cons, List.map_nil]
    rfl
  | failedQuiesce op error hphase =>
    refine h.of_unread rfl rfl fun f => ?_
    simp only [State.unread, hphase, Phase.inHand, List.map_cons, List.map_nil, List.sum_cons,
      List.sum_nil]
    omega
  | _ => exact h.of_hand rfl rfl rfl rfl (by rw [‹s.phase = _›]; rfl) rfl

/-- At the end of a pass no read is given. -/
theorem step_ending (h : Unread s) (hs : Settled s)
    (hmove : MovesIn setup s .ending m s') : Unread s' := by
  cases hmove with
  | leftover ops raw hphase hreclaim =>
    obtain ⟨rfl, rfl, -, -⟩ := hs.leftover hphase hreclaim
    exact h.of_hand rfl rfl rfl rfl (by rw [hphase]; rfl) rfl
  | _ => exact h.of_hand rfl rfl rfl rfl (by rw [‹s.phase = _›]; rfl) rfl

/-- Every move keeps the count. -/
theorem step (h : Unread s) (hs : Settled s) (ho : Owned s) (hb : Boxed setup s)
    (hmove : Moves setup s m s') : Unread s' := by
  obtain ⟨part, hmove⟩ := hmove
  cases part with
  | callers => exact h.step_callers hmove
  | others => cases hmove <;> exact h.of_hand rfl rfl rfl rfl rfl rfl
  | turning =>
    cases hmove with
    | turn hturn =>
      obtain ⟨hrests, hrests', -⟩ := hturn.rests
      exact h.of_hand rfl rfl rfl rfl (hrests'.inHand.trans hrests.inHand.symm) rfl
  | pinning => exact h.step_pinning hmove
  | intake => exact h.step_intake ho hmove
  | posting => exact h.step_posting hmove
  | reaping => exact h.step_reaping hmove
  | quiescing => exact h.step_quiescing ho hb hmove
  | ending => exact h.step_ending hs hmove
  | dangling => exact (hmove.not_dangling hs ho.backed).elim

end Unread

/-- In every run an op whose read was posted is not given another. -/
theorem unread_reach [Operands T] {setup : Setup} {ok : State T → Move T → Prop} {s : State T}
    (h : (service T setup).Reach ok s) : Unread s := by
  refine service_invariant (J := Invariants setup) (I := Unread)
    (fun s hs => invariants_reach hs) (.start setup) ?_ h
  intro s m s' hs hs' hok hmove hunread
  exact hunread.step hs.settled hs.owned hs.boxed hmove

/-- An op is given at most one read. -/
theorem count_quiesceReads_le [Operands T] {s : State T} (h : Unread s) (ho : Owned s)
    (number : Nat) : (quiesceReads s.wire.history).count number ≤ 1 := by
  have hle := h (indicator number)
  have hreads : ((quiesceReads s.wire.history).map (indicator number)).sum = _ :=
    sum_map_indicator id number (quiesceReads s.wire.history)
  have hsent := sum_map_indicator TransferRequest.number number s.callers.sent
  have hone := List.nodup_iff_count_le_one.mp ho.unique number
  rw [List.map_id] at hreads
  omega

/-! ### What fails stays failed -/

/-- The op that is about to be failed. -/
def Phase.failed : Phase T → Option Nat
  | .failing prepared _ => some prepared.context
  | .failingQuiesce op _ => some op.number
  | _ => none

/-- With nothing in hand no op is on its way to fail. -/
theorem Phase.Rests.failed {phase : Phase T} (h : phase.Rests) : phase.failed = none := by
  have hprepared := h.prepared
  have hinHand := h.inHand
  cases phase with
  | failing prepared error => cases hprepared
  | failingQuiesce op error => cases hinHand
  | _ => rfl

/-- An op is on its way to an `Err` completion, or has one. -/
inductive Erring (s : State T) (number : Nat) : Prop
  | failing (h : s.phase.failed = some number)
  | reaped (r : Reaped) (h : r ∈ s.queues.reaped) (hnumber : r.1 = number)
      (herror : r.2.isOk = false)
  | hashing (op : ReapedOp T) (h : op ∈ s.hashes) (hnumber : op.1.number = number)
      (herror : op.2.isOk = false)
  | completed (c : Completion (Tagged T)) (h : c ∈ s.completed) (hnumber : c.number = number)
      (herror : c.outcome.isOk = false)

/-- A result that is an error makes an `Err` completion. -/
theorem InFlight.isOk_intoCompletion (crc : Nat → Nat → UInt32) (op : InFlight T)
    (result : Except DmaError Unit) :
    (op.intoCompletion crc result).outcome.isOk = result.isOk := by
  cases result <;> rfl

namespace Erring

variable {setup : Setup} {s s' : State T} {m : Move T} {number : Nat}

/-- A move that fails nobody it was about to fail, and loses nothing. -/
theorem of_subset (h : Erring s number) (hfailed : s.phase.failed = none)
    (hreaped : s.queues.reaped ⊆ s'.queues.reaped) (hhashes : s.hashes ⊆ s'.hashes)
    (hcompleted : s.completed ⊆ s'.completed) : Erring s' number := by
  cases h with
  | failing hfailing =>
    rw [hfailed] at hfailing
    cases hfailing
  | reaped r hr hnumber herror => exact .reaped r (hreaped hr) hnumber herror
  | hashing op hop hnumber herror => exact .hashing op (hhashes hop) hnumber herror
  | completed c hc hnumber herror => exact .completed c (hcompleted hc) hnumber herror

/-- A move of somebody who is not the worker. -/
theorem of_phase (h : Erring s number) (hphase : s'.phase = s.phase)
    (hreaped : s'.queues.reaped = s.queues.reaped) (hhashes : s'.hashes = s.hashes)
    (hcompleted : s'.completed = s.completed) : Erring s' number := by
  cases h with
  | failing hfailing => exact .failing (by rw [hphase]; exact hfailing)
  | reaped r hr hnumber herror => exact .reaped r (by rwa [hreaped]) hnumber herror
  | hashing op hop hnumber herror => exact .hashing op (by rwa [hhashes]) hnumber herror
  | completed c hc hnumber herror => exact .completed c (by rwa [hcompleted]) hnumber herror

/-- The worker fails the op it was about to fail. -/
theorem of_failed (h : Erring s number) (setup : Setup) (op : InFlight T) (error : DmaError)
    (hfailed : s.phase.failed = some op.number) (hreaped : s'.queues.reaped = s.queues.reaped)
    (hhashes : s'.hashes = s.hashes)
    (hcompleted : ∀ c, c ∈ s.completed ∨ c = op.intoCompletion (s.crc setup) (.error error) →
      c ∈ s'.completed) : Erring s' number := by
  cases h with
  | failing hfailing =>
    rw [hfailed] at hfailing
    cases hfailing
    exact .completed _ (hcompleted _ (.inr rfl)) rfl rfl
  | reaped r hr hnumber herror => exact .reaped r (by rwa [hreaped]) hnumber herror
  | hashing op hop hnumber herror => exact .hashing op (by rwa [hhashes]) hnumber herror
  | completed c hc hnumber herror => exact .completed c (hcompleted c (.inl hc)) hnumber herror

/-- The op at the head of the reaped batch is finished with its result. -/
theorem of_dispatched (h : Erring s number) {context : Nat} {result : Except DmaError Unit}
    {reaped : List Reaped} (hfailed : s.phase.failed = none)
    (hreaped : s.queues.reaped = (context, result) :: reaped)
    (hreaped' : s'.queues.reaped = reaped) (hhashes : s.hashes ⊆ s'.hashes)
    (hcompleted : s.completed ⊆ s'.completed)
    (hnew : result.isOk = false → Erring s' context) : Erring s' number := by
  cases h with
  | failing hfailing =>
    rw [hfailed] at hfailing
    cases hfailing
  | reaped r hr hnumber herror =>
    rw [hreaped] at hr
    rcases List.mem_cons.mp hr with rfl | hrest
    · rw [← hnumber]
      exact hnew herror
    · exact .reaped r (by rwa [hreaped']) hnumber herror
  | hashing op hop hnumber herror => exact .hashing op (hhashes hop) hnumber herror
  | completed c hc hnumber herror => exact .completed c (hcompleted hc) hnumber herror

variable [Operands T]

/-- The pool keeps an op's error: what it hashes it completes with the result it was given. -/
theorem step_others (h : Erring s number) (hmove : MovesIn setup s .others m s') :
    Erring s' number := by
  cases hmove with
  | hash before after op result batch done hpool =>
    cases h with
    | failing hfailing => exact .failing hfailing
    | reaped r hr hnumber herror => exact .reaped r hr hnumber herror
    | hashing op' hop' hnumber herror =>
      by_cases hnew : op' = (op, result)
      · -- The op that is hashed takes its error along.
        subst hnew
        refine .completed (op.intoCompletion (s.crc setup) result) ?_ hnumber ?_
        · simp only [State.completed, List.flatMap_append, List.flatMap_cons, List.mem_append,
            List.mem_cons]
          tauto
        · rw [InFlight.isOk_intoCompletion]
          exact herror
      · refine .hashing op' ?_ hnumber herror
        simp only [State.hashes, hpool, List.flatMap_append, List.flatMap_cons, List.mem_append,
          List.mem_cons] at hop' ⊢
        tauto
    | completed c hc hnumber herror =>
      refine .completed c ?_ hnumber herror
      simp only [State.completed, hpool, List.flatMap_append, List.flatMap_cons, List.mem_append]
        at hc ⊢
      tauto
  | finish before after done hpool =>
    cases h with
    | failing hfailing => exact .failing hfailing
    | reaped r hr hnumber herror => exact .reaped r hr hnumber herror
    | hashing op' hop' hnumber herror =>
      refine .hashing op' ?_ hnumber herror
      simp only [State.hashes, hpool, List.flatMap_append, List.flatMap_cons, List.nil_append]
        at hop' ⊢
      exact hop'
    | completed c hc hnumber herror =>
      refine .completed c ?_ hnumber herror
      simp only [State.completed, hpool, List.flatMap_append, List.flatMap_cons, List.mem_append]
        at hc ⊢
      tauto
  | thread | write | releasePool => exact h.of_phase rfl rfl rfl rfl

/-- The intake fails nobody it was not about to fail. -/
theorem step_intake (h : Erring s number) (hmove : MovesIn setup s .intake m s') :
    Erring s' number := by
  cases hmove with
  | accept number request channel op prepared htakes
  | addPeer number client address inserted entry channel books htakes
  | addPeerFails number client address inserted error channel books htakes
  | removePeer number client channel htakes | pinMessage number base length channel htakes
  | nothingToPin number base length channel htakes =>
    exact h.of_subset htakes.rests.failed (fun _ => id) (fun _ => id) fun _ => id
  | refuse number request channel completion htakes =>
    refine h.of_subset htakes.rests.failed (fun _ => id) (fun _ => id) fun c hc => ?_
    simp only [State.completed, State.popped, List.mem_append] at hc ⊢
    tauto

/-- An op whose post fails gets its completion. -/
theorem step_posting (h : Erring s number) (ho : Owned s) (hmove : MovesIn setup s .posting m s') :
    Erring s' number := by
  cases hmove with
  | failed prepared error op hphase hraw =>
    have hnumber : op.number = prepared.context := ho.named _ _ hraw
    refine h.of_failed setup op error (by rw [hphase, hnumber]; rfl) rfl rfl fun c hc => ?_
    simp only [State.completed, List.mem_append, List.mem_singleton] at hc ⊢
    tauto
  | _ => exact h.of_subset (by rw [‹s.phase = _›]; rfl) (fun _ => id) (fun _ => id) fun _ => id

/-- A reaped error goes on to the pool or to a completion. -/
theorem step_reaping (h : Erring s number) (hs : Settled s) (ho : Owned s)
    (hmove : MovesIn setup s .reaping m s') : Erring s' number := by
  cases hmove with
  | reap reaped wire hphase htake =>
    -- The batch before was dispatched.
    have hnone := hs.reaped (by simp [hphase])
    refine h.of_subset (by rw [hphase]; rfl) (fun r hr => ?_) (fun _ => id) fun _ => id
    rw [hnone] at hr
    cases hr
  | toQuiescing context reaped op read hphase hreaped hraw hquiesce =>
    exact h.of_dispatched (by rw [hphase]; rfl) hreaped rfl (fun _ => id) (fun _ => id)
      fun h => by cases h
  | toCrc context result reaped op hphase hreaped hraw hquiesce =>
    refine h.of_dispatched (by rw [hphase]; rfl) hreaped rfl (fun op' hop' => ?_) (fun _ => id)
      fun herror => .hashing (op, result) ?_ (ho.named context op hraw) herror
    · simp only [State.hashes, List.mem_append] at hop' ⊢
      tauto
    · simp only [State.hashes, List.mem_append, List.mem_singleton]
      tauto
  | toCompletion context result reaped op hphase hreaped hraw hquiesce =>
    refine h.of_dispatched (by rw [hphase]; rfl) hreaped rfl (fun _ => id) (fun c hc => ?_)
      fun herror => .completed (op.intoCompletion (s.crc setup) result) ?_
        (ho.named context op hraw) ?_
    · simp only [State.completed, List.mem_append] at hc ⊢
      tauto
    · simp only [State.completed, List.mem_append, List.mem_singleton]
      tauto
    · rw [InFlight.isOk_intoCompletion]
      exact herror

/-- A write whose read fails gets its completion. -/
theorem step_quiescing (h : Erring s number) (hmove : MovesIn setup s .quiescing m s') :
    Erring s' number := by
  cases hmove with
  | failedQuiesce op error hphase =>
    refine h.of_failed setup op error (by rw [hphase]; rfl) rfl rfl fun c hc => ?_
    simp only [State.completed, List.mem_append, List.mem_singleton] at hc ⊢
    tauto
  | _ => exact h.of_subset (by rw [‹s.phase = _›]; rfl) (fun _ => id) (fun _ => id) fun _ => id

/-- At the end of a pass ops change hands with their results. -/
theorem step_ending (h : Erring s number) (hs : Settled s) (hmove : MovesIn setup s .ending m s') :
    Erring s' number := by
  cases hmove with
  | flush hphase =>
    refine h.of_subset (by rw [hphase]; rfl) (fun _ => id) (fun op hop => ?_) fun c hc => ?_
    · simp only [State.hashes, List.flatMap_append, List.flatMap_cons, List.flatMap_nil,
        List.mem_append] at hop ⊢
      tauto
    · simp only [State.completed, List.flatMap_append, List.flatMap_cons, List.flatMap_nil,
        List.append_nil] at hc ⊢
      exact hc
  | deliver hphase =>
    refine h.of_subset (by rw [hphase]; rfl) (fun _ => id) (fun _ => id) fun c hc => ?_
    simp only [State.completed, List.mem_append] at hc ⊢
    tauto
  | leftover ops raw hphase hreclaim =>
    obtain ⟨rfl, -, -, hcrc⟩ := hs.leftover hphase hreclaim
    refine h.of_subset (by rw [hphase]; rfl) (fun _ => id) (fun op hop => ?_) fun c hc => ?_
    · rw [State.hashes, hcrc] at hop
      exact hop
    · simp only [State.completed, List.mem_append] at hc ⊢
      tauto
  | _ => exact h.of_subset (by rw [‹s.phase = _›]; rfl) (fun _ => id) (fun _ => id) fun _ => id

/-- Every move keeps a failed op failed. -/
theorem step (h : Erring s number) (hs : Settled s) (ho : Owned s) (hmove : Moves setup s m s') :
    Erring s' number := by
  obtain ⟨part, hmove⟩ := hmove
  cases part with
  | callers =>
    cases hmove with
    | refused => exact h
    | _ => exact h.of_phase rfl rfl rfl rfl
  | others => exact h.step_others hmove
  | turning =>
    cases hmove with
    | turn hturn =>
      exact h.of_subset hturn.rests.1.failed (fun _ => id) (fun _ => id) fun _ => id
  | pinning =>
    -- A pin fails nobody.
    cases hmove
    all_goals
      exact h.of_subset (by rw [‹s.phase = _›]; rfl) (fun _ => id) (fun _ => id) fun _ => id
  | intake => exact h.step_intake hmove
  | posting => exact h.step_posting ho hmove
  | reaping => exact h.step_reaping hs ho hmove
  | quiescing => exact h.step_quiescing hmove
  | ending => exact h.step_ending hs hmove
  | dangling => exact (hmove.not_dangling hs ho.backed).elim

end Erring

section
variable [Operands T] {setup : Setup} {s s' : State T} {m : Move T} {number : Nat}

/-- An op that has a completion is nowhere else. -/
theorem Owned.alone (h : Owned s) {c : Completion (Tagged T)} (hc : c ∈ s.completed) :
    s.live (fun op => indicator c.number op.number) = 0 ∧
      s.hashing (fun op => indicator c.number op.number) = 0 := by
  have howners := h.owners_le c.number
  have hfinished := le_finished hc fun c' => indicator c.number c'.callerContext.number
  have hone : indicator c.number c.callerContext.number = 1 := if_pos rfl
  simp only [State.owners] at howners
  constructor
  · show s.live (fun op => indicator c.number op.callerContext.number) = 0
    omega
  · show s.hashing (fun op => indicator c.number op.callerContext.number) = 0
    omega

/-- An op has one completion. -/
theorem Owned.completed_unique (h : Owned s) {c c' : Completion (Tagged T)}
    (hc : c ∈ s.completed) (hc' : c' ∈ s.completed) (hnumber : c'.number = c.number) : c' = c := by
  by_contra hne
  have howners := h.owners_le c.number
  have hsum := add_le_sum_map hc' hc hne fun d => indicator c.number d.callerContext.number
  have hone : indicator c.number c.callerContext.number = 1 := if_pos rfl
  have hone' : indicator c.number c'.callerContext.number = 1 := if_pos hnumber
  rw [sum_completed] at hsum
  simp only [State.owners] at howners
  omega

/-- The op that is about to be failed is in hand, or in a box behind its pointer. -/
theorem Owned.live_of_failed (h : Owned s) (hfailed : s.phase.failed = some number) :
    0 < s.live fun op => indicator number op.number := by
  cases hphase : s.phase with
  | failing prepared error =>
    rw [hphase] at hfailed
    cases hfailed
    have hhand : prepared ∈ s.phase.prepared := by rw [hphase]; exact .head _
    obtain ⟨op, hop⟩ := Option.ne_none_iff_exists'.mp (h.backed.prepared prepared hhand)
    have hweight := h.le_weight hop
    simp only [State.live]
    omega
  | failingQuiesce op error =>
    rw [hphase] at hfailed
    cases hfailed
    have hone : indicator op.number op.number = 1 := if_pos rfl
    simp only [State.live, hphase, Phase.inHand, List.map_cons, List.sum_cons]
    omega
  | _ =>
    rw [hphase] at hfailed
    cases hfailed

/-- A completion of an op that failed is an error. -/
theorem Erring.isOk_completed (h : Erring s number) (ho : Owned s) {c : Completion (Tagged T)}
    (hc : c ∈ s.completed) (hnumber : c.number = number) : c.outcome.isOk = false := by
  -- The completion owns the number alone, so what still fails or waits under it is something else.
  obtain ⟨hlive, hhashing⟩ := ho.alone hc
  rw [hnumber] at hlive hhashing
  cases h with
  | failing hfailed =>
    have hpos := ho.live_of_failed hfailed
    omega
  | reaped r hr hnumber' herror =>
    obtain ⟨op, hop⟩ := Option.ne_none_iff_exists'.mp (ho.backed.reaped r hr)
    have hweight := ho.le_weight hop
    rw [hnumber'] at hweight
    simp only [State.live] at hlive
    omega
  -- A job on the pool is another transfer's.
  | hashing op hop hnumber' herror =>
    have hone : indicator number op.1.number = 1 := if_pos hnumber'
    have hle := le_sum_map hop fun op => indicator number op.1.number
    have hsum := sum_hashes s fun op => indicator number op.number
    omega
  | completed c' hc' hnumber' herror =>
    -- The number is completed once, with the error it was given.
    rw [ho.completed_unique hc' hc (hnumber.trans hnumber'.symm)]
    exact herror

/-- A completion that libfabric hands back as failed fails its op. -/
theorem Moves.erring_of_reported (hs : Settled s) (ho : Owned s) (hmove : Moves setup s m s')
    {post : PostedOp} (hreport : .reaped post false ∈ s'.wire.history)
    (hnew : .reaped post false ∉ s.wire.history) : Erring s' post.context := by
  obtain ⟨part, hmove⟩ := hmove
  cases hmove with
  | reap reaped wire hphase htake =>
    rcases Wire.reaped_of_take htake hreport with hold | ⟨-, r, hr, hcontext, herror⟩
    · exact absurd hold hnew
    · exact .reaped r hr hcontext herror
  | posted prepared entry operand now op hphase hclock hraw =>
    rcases List.mem_append.mp hreport with hold | hpost
    · exact absurd hold hnew
    · cases List.mem_singleton.mp hpost
  | quiesced waiting entry operand now hphase hclock first =>
    rcases List.mem_append.mp hreport with hold | hpost
    · exact absurd hold hnew
    · cases List.mem_singleton.mp hpost
  | dangling context hraw howned => exact (ho.backed.not_dangling hraw howned).elim
  | danglingPending hphase hreclaim => exact (hs.not_danglingPending hphase hreclaim).elim
  | _ => exact absurd hreport hnew

end

/-! ### What fails -/

section
variable [Operands T] {setup : Setup} {s s' : State T} {number : Nat}

/-- The transfer at the head of the channel, when `prepare` refuses it. -/
def State.refuses (setup : Setup) (s : State T) : Option Nat :=
  match s.callers.channel with
  | (_, .transfer request) :: _ =>
    match prepare request setup.configuration.quiesceWrites with
    | .error _ => some request.number
    | .ok _ => none
  | _ => none

/-- A transfer that is refused is on the channel. -/
theorem channel_of_refuses (hrefuses : s.refuses setup = some number) : s.callers.channel ≠ [] := by
  intro hnone
  rw [State.refuses, hnone] at hrefuses
  cases hrefuses

/-- A refused transfer is completed with an error. -/
theorem erring_of_refuses (hrefuses : s.refuses setup = some number)
    (hstep : s.takeMessage setup .none = some s') : Erring s' number := by
  unfold State.refuses at hrefuses
  split at hrefuses
  · next number' request channel hchannel =>
    split at hrefuses
    · next completion hprepare =>
      cases hrefuses
      obtain ⟨hcontext, error, herror⟩ := prepare_error hprepare
      simp only [State.takeMessage, hchannel, State.receive, accept, hprepare,
        Option.some.injEq] at hstep
      rw [← hstep]
      refine .completed completion ?_ ?_ ?_
      · simp only [State.completed, List.mem_append, List.mem_singleton]
        tauto
      · rw [Completion.number, hcontext]
        rfl
      · rw [herror]
        rfl
    · cases hrefuses
  · cases hrefuses

end

section
variable {setup : Setup}

/-- Whether a post that answered `code` is given up. One that answered `-FI_EAGAIN` is put off
until the deadline. -/
def Setup.givesUp (setup : Setup) (stalledSince : Option Nat) (code : Int) (first now : Nat) :
    Bool :=
  decide (code ≠ 0) &&
    !(decide (code = -fiEagain) &&
      decide (now - stalledSince.getD first < setup.configuration.progressDeadline))

/-- What is given up was not posted, and is not put off. -/
theorem givesUp_iff {stalledSince : Option Nat} {code : Int} {first now : Nat} :
    setup.givesUp stalledSince code first now = true ↔ code ≠ 0 ∧
      (code = -fiEagain →
        ¬ now - stalledSince.getD first < setup.configuration.progressDeadline) := by
  simp only [Setup.givesUp, Bool.and_eq_true, Bool.not_eq_true', Bool.and_eq_false_imp,
    decide_eq_true_eq, decide_eq_false_iff_not]

/-- A post that gives up has its op fail. -/
theorem failed_postOperand {prepared : Prepared} {code : Int} {first now : Nat}
    (h : setup.givesUp prepared.stalledSince code first now = true) (s : State T) (entry : Nat)
    (operand : LocalOperand) :
    (s.postOperand setup prepared entry operand code first now).phase.failed
      = some prepared.context := by
  obtain ⟨hcode, hdeadline⟩ := givesUp_iff.mp h
  rw [State.postOperand, if_neg hcode]
  dsimp only
  split
  · next hagain =>
    rw [if_neg (hdeadline hagain)]
    rfl
  · rfl

/-- So has a quiesce read that gives up. -/
theorem failed_postQuiesce {waiting : Quiescing T} {code : Int} {first now : Nat}
    (h : setup.givesUp waiting.stalledSince code first now = true) (s : State T) (entry : Nat)
    (operand : LocalOperand) :
    (s.postQuiesce setup waiting entry operand code first now).phase.failed
      = some waiting.inflight.number := by
  obtain ⟨hcode, hdeadline⟩ := givesUp_iff.mp h
  rw [State.postQuiesce]
  dsimp only
  rw [if_neg hcode, reclaim_insert]
  dsimp only
  split
  · next hagain =>
    rw [if_neg (hdeadline hagain)]
    rfl
  · rfl

end

section
variable [Operands T] {setup : Setup} {s s' : State T} {m : Move T} {number : Nat}

/-- The op that a move finds it cannot post: the request, the peer or the operand is refused, the
post fails, or the deadline is past. -/
def State.unpostable (setup : Setup) (s : State T) : Move T → Option Nat
  | .worker (.avInsert inserted) =>
    match s.phase, s.queues.pending, s.queues.quiescing with
    | .posting, prepared :: _, _ =>
      match (s.books.insertPeer prepared.context prepared.clientId prepared.peerAddress
        inserted).2 with
      | .error _ => some prepared.context
      | .ok _ => none
    | .quiescing, _, waiting :: _ =>
      match (s.books.insertPeer waiting.inflight.number waiting.inflight.clientId
        waiting.read.peerAddress inserted).2 with
      | .error _ => some waiting.inflight.number
      | .ok _ => none
    | _, _, _ => none
  | .worker .none =>
    match s.phase with
    | .intake => s.refuses setup
    | .parking => if s.pass.idle ∧ ¬ s.pass.disconnected then s.refuses setup else none
    | .operand prepared _ (.failed _) => some prepared.context
    | .quiesceOperand waiting _ (.failed _) => some waiting.inflight.number
    | _ => none
  | .worker (.rma code first now) =>
    match s.phase with
    | .operand prepared _ (.done _) =>
      if setup.givesUp prepared.stalledSince code first now then some prepared.context else none
    | .quiesceOperand waiting _ (.done _) =>
      if setup.givesUp waiting.stalledSince code first now then some waiting.inflight.number
      else none
    | _ => none
  | _ => none

/-- An op that cannot be posted is failed. -/
theorem unpostable_fails (hstep : (service T setup).step s m = some s')
    (hm : s.unpostable setup m = some number) : Erring s' number := by
  cases m with
  | worker answer =>
    change s.stepWorker setup answer = some s' at hstep
    -- Which answer makes it fail is which call the libfabric answered.
    unfold State.unpostable at hm
    cases answer with
    | avInsert inserted =>
      dsimp only at hm
      split at hm
      · -- The attempt in hand has no entry for its peer.
        next prepared pending quiescing hphase hpending =>
        simp only [State.stepWorker, hphase, State.stepPosting, hpending] at hstep
        split at hstep
        · split at hm
          · next error herror =>
            rw [herror] at hstep
            cases hstep
            exact .failing hm
          · cases hm
        · cases hstep
      · -- Neither has the read's.
        next waiting quiescing hphase hquiescing =>
        simp only [State.stepWorker, hphase, State.stepQuiescing, hquiescing] at hstep
        split at hstep
        · split at hm
          · next error herror =>
            rw [herror] at hstep
            cases hstep
            exact .failing hm
          · cases hm
        · cases hstep
      · cases hm
    | none =>
      dsimp only at hm
      split at hm
      · -- A message taken at intake is refused before it is prepared.
        next hphase =>
        have hchannel := channel_of_refuses hm
        simp only [State.stepWorker, hphase, State.stepIntake, if_neg hchannel] at hstep
        exact erring_of_refuses hm hstep
      · -- At rest the worker takes one message too, with the same refusal.
        next hphase =>
        split at hm
        · next hidle =>
          have hchannel := channel_of_refuses hm
          simp only [State.stepWorker, hphase, State.stepParking, hidle.1, hidle.2, and_true,
            if_true, if_neg hchannel] at hstep
          exact erring_of_refuses hm hstep
        · cases hm
      · -- The operand has no registration.
        next prepared entry error hphase =>
        simp only [State.stepWorker, hphase, State.stepOperand, Option.some.injEq] at hstep
        rw [← hstep]
        exact .failing hm
      · -- The operand of the read has none.
        next waiting entry error hphase =>
        simp only [State.stepWorker, hphase, State.stepQuiesceOperand, Option.some.injEq] at hstep
        rw [← hstep]
        exact .failing hm
      · cases hm
    | rma code first now =>
      dsimp only at hm
      split at hm
      · -- The post itself is refused for good: with a code that is no shortage, or past the
        -- deadline.
        next prepared entry operand hphase =>
        simp only [State.stepWorker, hphase, State.stepOperand] at hstep
        split at hstep
        · split at hm
          · next hgives =>
            cases hstep
            cases hm
            exact .failing (failed_postOperand hgives _ entry operand)
          · cases hm
        · cases hstep
      · -- The read's post is refused for good.
        next waiting entry operand hphase =>
        simp only [State.stepWorker, hphase, State.stepQuiesceOperand] at hstep
        split at hstep
        · split at hm
          · next hgives =>
            cases hstep
            cases hm
            exact .failing (failed_postQuiesce hgives _ entry operand)
          · cases hm
        · cases hstep
      · cases hm
    | _ => cases hm
  | _ => cases hm

/-- In every run, an op that libfabric reported as failed is on its way to an `Err`. -/
theorem erring_of_reported (h : (service T setup).Reachable s) {post : PostedOp}
    (hreport : .reaped post false ∈ s.wire.history) : Erring s post.context := by
  refine service_invariant (J := Invariants setup)
    (I := fun s => ∀ post, .reaped post false ∈ s.wire.history → Erring s post.context)
    (fun s hs => invariants_reach hs) ?_ ?_ h post hreport
  · intro post hreport
    cases hreport
  · intro s m s' hs hs' hok hmove herring post hreport
    by_cases hold : .reaped post false ∈ s.wire.history
    · exact (herring post hold).step hs.settled hs.owned hmove
    · exact hmove.erring_of_reported hs.settled hs.owned hreport hold

/-- An op that fails stays failed for the rest of the run. -/
theorem erring_reach {s₁ : State T} (h₁ : (service T setup).Reachable s₁)
    (herring : Erring s₁ number) (h : ((service T setup).startingAt s₁).Reachable s) :
    Erring s number := by
  refine h.invariant_given (J := Invariants setup) (I := fun s => Erring s number)
    (fun s hs => invariants_reach (Machine.Reach.of_startingAt h₁ hs)) ?_ ?_
  · intro s hinit
    rw [show s = s₁ from hinit]
    exact herring
  · intro s m s' hs hs' hok hstep herring
    exact herring.step hs.settled hs.owned (moves_of_step hstep)

/-- Every completion of op `number` is an error, and once the worker has exited and the pool has
drained there is one, delivered. -/
def FailsWith (s : State T) (number : Nat) : Prop :=
  (∀ c ∈ s.completed, c.number = number → c.outcome.isOk = false) ∧
    (s.phase = .exited → s.pool = [] →
      ∃ c ∈ s.delivered, c.number = number ∧ c.outcome.isOk = false)

/-- An op that is bound to fail completes with `Err` only, and does complete before the service is
gone. -/
theorem Erring.failsWith (h : Erring s number) (hs : Settled s) (ho : Owned s) :
    FailsWith s number := by
  refine ⟨fun c hc hnumber => h.isOk_completed ho hc hnumber, fun hphase hpool => ?_⟩
  have hquiet := hs.quiet (by rw [hphase]; rfl)
  have hnone := hs.reaped (by simp [hphase])
  cases h with
  | failing hfailed =>
    rw [hphase] at hfailed
    cases hfailed
  | reaped r hr hnumber herror =>
    rw [hnone] at hr
    cases hr
  | hashing op hop hnumber herror =>
    rw [State.hashes, hquiet.crcPending, hpool] at hop
    cases hop
  | completed c hc hnumber herror =>
    rw [State.completed, hquiet.completions, hpool] at hc
    exact ⟨c, hc, hnumber, herror⟩

/-! ### A quiesced write -/

/-- A post of a transfer that has bytes to write and is to be quiesced: the write of its source,
or the read of its last byte. -/
theorem PostFor.toPeer {sent : List (TransferRequest (Tagged T))} {cells : List RegisteredAddress}
    {post : PostedOp} {request : TransferRequest (Tagged T)} {source : Slice}
    (h : PostFor setup sent cells post) (hquiesces : setup.configuration.quiesceWrites = true)
    (hrequest : ∀ request' ∈ sent, request'.number = post.context → request' = request)
    (hdirection : request.direction = .toPeer)
    (hsource : Operands.source request.callerContext.user = some source)
    (hlength : 0 < source.length) :
    post.remoteKey = request.remoteKey ∧ cells[post.entry]? = some ⟨request.peerAddress⟩ ∧
      (post.kind ≠ .quiesce → post.kind = .write ∧ post.quiesces = true ∧
        post.remoteAddress = request.remoteAddress ∧ post.pointer = source.pointer ∧
        post.length = source.length) ∧
      (post.kind = .quiesce → post.length = 1 ∧ post.pointer = setup.quiescePointer ∧
        post.remoteAddress.toNat = request.remoteAddress.toNat + (source.length - 1)) := by
  obtain ⟨request', op, prepared, horigin, hcell, hshape⟩ := h
  -- Numbers are not used twice, so the post is this request's.
  have hsame : request' = request := hrequest request' horigin.mem horigin.number_eq
  subst hsame
  obtain ⟨hoperand, hquiesce, hkey, haddress, hdirection'⟩ := prepare_built horigin.built
  simp only [resolveOperand, hdirection, hsource, Except.ok.injEq, Prod.mk.injEq] at hoperand
  obtain ⟨hpointer, hslice⟩ := hoperand
  rw [hquiesces] at hquiesce
  have hread := quiesceOf_isSome hquiesce hdirection (by omega)
  rcases hshape with heq | ⟨hkind, hone, hquiescePointer, read, hsome, hreadKey, hreadAddress⟩
  · -- Either the write itself was posted, or the read that follows it.
    have hkind : post.kind = .write := by
      rw [heq]
      simp only [State.postedOp, hdirection', hdirection]
    refine ⟨?_, hcell, fun _ => ⟨hkind, ?_, ?_, ?_, ?_⟩, fun hquiesceKind => ?_⟩
    · rw [heq]
      exact hkey
    · rw [heq]
      exact hread
    · rw [heq]
      exact haddress
    · rw [heq]
      exact hpointer.symm
    · rw [heq]
      exact hslice.symm
    · rw [hkind] at hquiesceKind
      cases hquiesceKind
  · rw [hsome] at hquiesce
    -- The read is of the last byte the write wrote.
    obtain ⟨-, -, hremoteKey, hlast⟩ := quiesceOf_some hquiesce
    refine ⟨hreadKey.trans hremoteKey, hcell, fun hnot => absurd hkind hnot,
      fun _ => ⟨hone, hquiescePointer, ?_⟩⟩
    rw [hreadAddress, hlast, hslice]

/-- A write that is quiesced is read back before it succeeds. An `Ok` completion of a transfer to
a peer comes only after its write was reaped `Ok`, and after a read of the last byte that was
written was posted, with the same key and at exactly the address of the request, and reaped
`Ok`. An op that libfabric reports as failed, or that cannot be posted, completes with `Err`, and
no op is ever given two reads. -/
theorem quiesced_before_ok (hquiesces : setup.configuration.quiesceWrites = true)
    (h : (service T setup).Reachable s) :
    (∀ request ∈ s.callers.sent, ∀ source : Slice, request.direction = .toPeer →
      Operands.source request.callerContext.user = some source → 0 < source.length →
      ∀ c ∈ s.completed, c.number = request.number → ∀ done, c.outcome = .ok done →
        ∃ write read : PostedOp,
          [.posted write, .reaped write true, .posted read, .reaped read true].Sublist
            s.wire.history ∧
          write.context = request.number ∧ write.kind = .write ∧
          write.remoteKey = request.remoteKey ∧ write.remoteAddress = request.remoteAddress ∧
          write.pointer = source.pointer ∧ write.length = source.length ∧
          read.context = request.number ∧ read.kind = .quiesce ∧
          read.remoteKey = request.remoteKey ∧
          read.remoteAddress.toNat = request.remoteAddress.toNat + (source.length - 1) ∧
          read.length = 1 ∧
          s.books.peers.handles.cells[read.entry]? = some ⟨request.peerAddress⟩) ∧
    (∀ post : PostedOp, .reaped post false ∈ s.wire.history → FailsWith s post.context) ∧
    (∀ (m : Move T) (s₁ : State T) (number : Nat), (service T setup).step s m = some s₁ →
      s.unpostable setup m = some number →
      ∀ t, ((service T setup).startingAt s₁).Reachable t → FailsWith t number) ∧
    ∀ number, (quiesceReads s.wire.history).count number ≤ 1 := by
  have hs := invariants_reach h
  refine ⟨fun request hsent source hdirection hsource hlength c hc hnumber done hok => ?_,
    fun post hreport => (erring_of_reported h hreport).failsWith hs.settled hs.owned,
    fun m s₁ number hstep hm t ht => ?_, count_quiesceReads_le (unread_reach h) hs.owned⟩
  · have hposts : ∀ post : PostedOp, .posted post ∈ s.wire.history →
        post.context = request.number → _ := fun post hreport hcontext =>
      (recorded_reach h post hreport).toPeer hquiesces
        (fun request' hsent' hnumber' => List.inj_on_of_nodup_map hs.owned.unique hsent' hsent
          (hnumber'.trans hcontext)) hdirection hsource hlength
    obtain ⟨main, hmain, -, hmainContext, hmainKind, hread⟩ :=
      (told_reach h).completed c hc done hok
    obtain ⟨-, -, hwrite, -⟩ := hposts main hmain (hmainContext.trans hnumber)
    -- The transfer had a read, and its report comes behind a write of the same op.
    obtain ⟨read, hreadPosted, hreaped, hreadContext, hreadKind⟩ := hread (hwrite hmainKind).2.1
    obtain ⟨write, horder, hcontext, hkind⟩ := (ordered_reach h).reads read true hreaped hreadKind
    have hreadNumber : read.context = request.number := hreadContext.trans hnumber
    have hwriteNumber : write.context = request.number := hcontext.trans hreadNumber
    obtain ⟨hreadKey, hcell, -, hlast⟩ := hposts read hreadPosted hreadNumber
    obtain ⟨hwriteKey, -, hshape, -⟩ := hposts write (horder.subset (.head _)) hwriteNumber
    obtain ⟨hwriteKind, -, haddress, hpointer, hwriteLength⟩ := hshape hkind
    obtain ⟨hone, -, hreadAddress⟩ := hlast hreadKind
    exact ⟨write, read, horder, hwriteNumber, hwriteKind, hwriteKey, haddress, hpointer,
      hwriteLength, hreadNumber, hreadKind, hreadKey, hreadAddress, hone, hcell⟩
  · have h₁ := h.step trivial hstep
    have ht' := invariants_reach (Machine.Reach.of_startingAt h₁ ht)
    exact (erring_reach h₁ (unpostable_fails hstep hm) ht).failsWith ht'.settled
      ht'.owned

end

/-- A write of 64 bytes is quiesced, hashed and delivered `Ok`, after a read of the byte at
`8192 + 63`. -/
theorem quiesced_before_ok_delivered :
    ∃ s, (service Buffer bufferSetup).run (State.start bufferSetup)
        (startUp ++ postWrite (writeTo 1 (List.replicate 32 254) true 4096) ++ quiesceAndHash
          ++ [.hash 0, .finish 0] ++ shutDown) = some s ∧
      s.delivered = [⟨⟨0, ⟨4096, 64⟩⟩, .ok ⟨64, some 0⟩⟩] ∧
      (∃ write read : PostedOp,
        [.posted write, .reaped write true, .posted read, .reaped read true].Sublist
          s.wire.history ∧ read.kind = .quiesce ∧ read.length = 1 ∧
          read.remoteAddress.toNat = 8192 + 63) ∧
      (quiesceReads s.wire.history).count 0 ≤ 1 := by
  -- The run is evaluated; what it shows is read off the general theorem.
  obtain ⟨s, hrun, hsent, hdelivered⟩ :
      ∃ s, (service Buffer bufferSetup).run (State.start bufferSetup)
          (startUp ++ postWrite (writeTo 1 (List.replicate 32 254) true 4096) ++ quiesceAndHash
            ++ [.hash 0, .finish 0] ++ shutDown) = some s ∧
        s.callers.sent
          = [State.tagRequest 0 (writeTo 1 (List.replicate 32 254) true 4096)] ∧
        s.delivered = [⟨⟨0, ⟨4096, 64⟩⟩, .ok ⟨64, some 0⟩⟩] :=
    ⟨_, rfl, rfl, rfl⟩
  have hquiesces : bufferSetup.configuration.quiesceWrites = true := rfl
  obtain ⟨hreads, -, -, hcount⟩ := quiesced_before_ok hquiesces (Machine.reach_run rfl _ hrun)
  refine ⟨s, hrun, hdelivered, ?_, hcount 0⟩
  obtain ⟨write, read, horder, -, -, -, -, -, -, -, hkind, -, haddress, hlength, -⟩ :=
    hreads _ (by rw [hsent]; exact .head _) ⟨4096, 64⟩ rfl rfl (by decide)
      ⟨⟨0, ⟨4096, 64⟩⟩, .ok ⟨64, some 0⟩⟩
      (by rw [State.completed, hdelivered]; exact List.mem_append_right _ (.head _)) rfl _ rfl
  exact ⟨write, read, horder, hkind, hlength, haddress⟩

end Vdma.Fabric
