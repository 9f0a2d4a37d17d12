import Vdma.Proofs.Worker.Accounts

/-!
# `Vdma.Proofs.Worker.Completion`: each transfer completes once

`Told` follows what libfabric reported about an op to the completion that is made of it.
A write waits for its quiesce read only when it was reaped `Ok` itself, and an `Ok`
completion was confirmed by every operation posted for it (`Confirmed`).

`completes_exactly_once` reads the rest off `Owned`. An op is in one place at a time, and
at the exit of the worker the only places left are the pool and the delivered batches.
-/

set_option autoImplicit false

namespace Vdma.Fabric

open Vdma.Lib

variable {T : Type}

/-- The transfer of op `number` was posted and reaped `Ok`, and has a quiesce read. -/
def Written (history : List Report) (number : Nat) : Prop :=
  ∃ main : PostedOp, .posted main ∈ history ∧ .reaped main true ∈ history ∧
    main.context = number ∧ main.kind ≠ .quiesce ∧ main.quiesces = true

/-- The transfer of op `number` was posted and reaped `Ok`, and so was its quiesce read when
it has one. -/
def Confirmed (history : List Report) (number : Nat) : Prop :=
  ∃ main : PostedOp, .posted main ∈ history ∧ .reaped main true ∈ history ∧
    main.context = number ∧ main.kind ≠ .quiesce ∧
    (main.quiesces = true →
      ∃ read : PostedOp, .posted read ∈ history ∧ .reaped read true ∈ history ∧
        read.context = number ∧ read.kind = .quiesce)

/-- What was reported stays reported. -/
theorem Written.mono {history history' : List Report} (hsub : history ⊆ history') {number : Nat}
    (h : Written history number) : Written history' number := by
  obtain ⟨main, hposted, hreaped, hrest⟩ := h
  exact ⟨main, hsub hposted, hsub hreaped, hrest⟩

/-- What was confirmed stays confirmed. -/
theorem Confirmed.mono {history history' : List Report} (hsub : history ⊆ history') {number : Nat}
    (h : Confirmed history number) : Confirmed history' number := by
  obtain ⟨main, hposted, hreaped, hcontext, hkind, hread⟩ := h
  refine ⟨main, hsub hposted, hsub hreaped, hcontext, hkind, fun hquiesces => ?_⟩
  obtain ⟨read, hposted', hreaped', hrest⟩ := hread hquiesces
  exact ⟨read, hsub hposted', hsub hreaped', hrest⟩

namespace State

/-- The boxes of the writes that wait for their quiesce read. -/
def waiting (s : State T) : List (InFlight T) :=
  s.queues.quiescing.map Quiescing.inflight ++ s.phase.inHand

/-- The finished ops that are yet to be hashed. -/
def hashes (s : State T) : List (ReapedOp T) := s.queues.crcPending ++ s.pool.flatMap Job.batch

/-- The completions, staged and delivered. -/
def completed (s : State T) : List (Completion (Tagged T)) :=
  s.queues.completions ++ s.pool.flatMap Job.done ++ s.delivered

end State

/-- An op gets as far as libfabric's reports take it. -/
structure Told (s : State T) : Prop where
  posts : ∀ post ∈ s.wire.posts, .posted post ∈ s.wire.history
  reaped : ∀ (post : PostedOp) (ok : Bool), .reaped post ok ∈ s.wire.history →
    .posted post ∈ s.wire.history
  reads : ∀ post : PostedOp, .posted post ∈ s.wire.history → post.kind = .quiesce →
    post.quiesces = false ∧ Written s.wire.history post.context
  waiting : ∀ op ∈ s.waiting, Written s.wire.history op.number
  hashes : ∀ op ∈ s.hashes, op.2 = .ok () → Confirmed s.wire.history op.1.number
  completed : ∀ c ∈ s.completed, ∀ done, c.outcome = .ok done →
    Confirmed s.wire.history c.number

namespace Told

variable {setup : Setup} {s s' : State T}

/-- At the start nothing was told. -/
theorem start (setup : Setup) : Told (State.start setup : State T) where
  posts post h := by cases h
  reaped post ok h := by cases h
  reads post h := by cases h
  waiting op h := by cases h
  hashes op h := by cases h
  completed c h := by cases h

/-- A move that reports nothing. What is new among the ops and completions must be
confirmed. -/
theorem of_wire (h : Told s) (hwire : s'.wire = s.wire)
    (hwaiting : ∀ op ∈ s'.waiting, Written s.wire.history op.number)
    (hhashes : ∀ op ∈ s'.hashes, op ∈ s.hashes ∨
      (op.2 = .ok () → Confirmed s.wire.history op.1.number))
    (hcompleted : ∀ c ∈ s'.completed, c ∈ s.completed ∨
      ∀ done, c.outcome = .ok done → Confirmed s.wire.history c.number) : Told s' where
  posts := by rw [hwire]; exact h.posts
  reaped := by rw [hwire]; exact h.reaped
  reads := by rw [hwire]; exact h.reads
  waiting := by rw [hwire]; exact hwaiting
  hashes op hop hok := by
    rw [hwire]
    rcases hhashes op hop with hold | hnew
    · exact h.hashes op hold hok
    · exact hnew hok
  completed c hc done hok := by
    rw [hwire]
    rcases hcompleted c hc with hold | hnew
    · exact h.completed c hold done hok
    · exact hnew done hok

/-- A move that reports nothing and finishes nothing. -/
theorem of_same (h : Told s) (hwire : s'.wire = s.wire)
    (hwaiting : ∀ op ∈ s'.waiting, op ∈ s.waiting)
    (hhashes : s'.hashes = s.hashes) (hcompleted : s'.completed = s.completed) : Told s' :=
  h.of_wire hwire (fun op hop => h.waiting op (hwaiting op hop))
    (fun op hop => .inl (by rwa [← hhashes])) fun c hc => .inl (by rwa [← hcompleted])

/-- A move that keeps the box in hand, and finishes nothing. -/
theorem of_hand (h : Told s) (hwire : s'.wire = s.wire)
    (hquiescing : s'.queues.quiescing = s.queues.quiescing)
    (hinHand : s'.phase.inHand = s.phase.inHand) (hhashes : s'.hashes = s.hashes)
    (hcompleted : s'.completed = s.completed) : Told s' := by
  refine h.of_same hwire (fun op hop => ?_) hhashes hcompleted
  rwa [State.waiting, hquiescing, hinHand] at hop

/-- Ops go to the pool, are hashed there, and are delivered. An `Ok` completion is made of an
op that was reaped `Ok`. -/
theorem of_pool (h : Told s) (setup : Setup) (hwire : s'.wire = s.wire)
    (hwaiting : ∀ op ∈ s'.waiting, op ∈ s.waiting)
    (hhashes : ∀ op ∈ s'.hashes, op ∈ s.hashes)
    (hcompleted : ∀ c ∈ s'.completed, c ∈ s.completed ∨
      ∃ op ∈ s.hashes, c = op.1.intoCompletion (s.crc setup) op.2) : Told s' := by
  refine h.of_wire hwire (fun op hop => h.waiting op (hwaiting op hop))
    (fun op hop => .inl (hhashes op hop)) fun c hc => ?_
  rcases hcompleted c hc with hold | ⟨op, hop, rfl⟩
  · exact .inl hold
  · refine .inr fun done hok => h.hashes op hop ?_
    cases hresult : op.2 with
    | ok u => rfl
    | error error =>
      rw [InFlight.intoCompletion, hresult] at hok
      cases hok

/-- An op that fails adds a completion that claims nothing. -/
theorem completed_error {crc : Nat → Nat → UInt32} {op : InFlight T} {error : DmaError}
    {c : Completion (Tagged T)} {history : List Report}
    (hc : c ∈ (s.queues.completions ++ [op.intoCompletion crc (.error error)])
      ++ s.pool.flatMap Job.done ++ s.delivered) :
    c ∈ s.completed ∨ ∀ done, c.outcome = .ok done → Confirmed history c.number := by
  by_cases hnew : c = op.intoCompletion crc (.error error)
  · refine .inr fun done hok => ?_
    rw [hnew] at hok
    cases hok
  · left
    simp only [State.completed, List.mem_append, List.mem_singleton] at hc ⊢
    tauto

/-- A new post is reported. -/
theorem post (h : Told s) {new : PostedOp} (hwire : s'.wire = s.wire.post new)
    (hread : new.kind = .quiesce → new.quiesces = false ∧ Written s.wire.history new.context)
    (hwaiting : ∀ op ∈ s'.waiting, op ∈ s.waiting) (hhashes : s'.hashes = s.hashes)
    (hcompleted : s'.completed = s.completed) : Told s' := by
  -- A post is one report more.
  have hsub : s.wire.history ⊆ s'.wire.history := by
    rw [hwire]
    exact List.subset_append_left _ _
  refine ⟨fun post hpost => ?_, fun post ok hreport => ?_, fun post hreport hkind => ?_,
    fun op hop => (h.waiting op (hwaiting op hop)).mono hsub, fun op hop hok => ?_,
    fun c hc done hok => ?_⟩
  · -- The new post is reported as posted.
    rw [hwire] at hpost ⊢
    rcases List.mem_append.mp hpost with hold | hnew
    · exact List.mem_append_left _ (h.posts post hold)
    · rw [List.mem_singleton.mp hnew]
      exact List.mem_append_right _ (.head _)
  · -- It is not reported as reaped.
    refine hsub (h.reaped post ok ?_)
    rw [hwire] at hreport
    rcases List.mem_append.mp hreport with hold | hnew
    · exact hold
    · cases List.mem_singleton.mp hnew
  · -- Nor does it change what the reads that came back follow.
    rw [hwire] at hreport
    rcases List.mem_append.mp hreport with hold | hnew
    · exact ⟨(h.reads post hold hkind).1, (h.reads post hold hkind).2.mono hsub⟩
    · cases List.mem_singleton.mp hnew
      exact ⟨(hread hkind).1, (hread hkind).2.mono hsub⟩
  · rw [hhashes] at hop
    exact (h.hashes op hop hok).mono hsub
  · rw [hcompleted] at hc
    exact (h.completed c hc done hok).mono hsub

/-- Reaped completions are reported, for ops that were posted. -/
theorem reap (h : Told s) {reaped : List Reaped} (htake : s.wire.take reaped = some s'.wire)
    (hwaiting : ∀ op ∈ s'.waiting, op ∈ s.waiting) (hhashes : s'.hashes = s.hashes)
    (hcompleted : s'.completed = s.completed) : Told s' := by
  obtain ⟨claimed, -, hperm, hhistory⟩ := Wire.take_spec htake
  have hsub : s.wire.history ⊆ s'.wire.history := by
    rw [hhistory]
    exact List.subset_append_left _ _
  refine ⟨fun post hpost => ?_, fun post ok hreport => ?_, fun post hreport hkind => ?_,
    fun op hop => (h.waiting op (hwaiting op hop)).mono hsub, fun op hop hok => ?_,
    fun c hc done hok => ?_⟩
  · exact hsub (h.posts post (hperm.mem_iff.mpr (List.mem_append_right _ hpost)))
  · rcases Wire.reaped_of_take htake hreport with hold | ⟨hpost, -⟩
    · exact hsub (h.reaped post ok hold)
    · -- It was among the posts.
      exact hsub (h.posts post hpost)
  · have hread := h.reads post (Wire.posted_of_take htake hreport) hkind
    exact ⟨hread.1, hread.2.mono hsub⟩
  · rw [hhashes] at hop
    exact (h.hashes op hop hok).mono hsub
  · rw [hcompleted] at hc
    exact (h.completed c hc done hok).mono hsub

/-- The box whose quiesce read is about to be posted was written. -/
theorem written_inHand (h : Told s) {waiting : Quiescing T} {entry : Nat} {call : OperandCall}
    (hphase : s.phase = .quiesceOperand waiting entry call) :
    Written s.wire.history waiting.inflight.number := by
  have hhand : waiting.inflight ∈ s.phase.inHand := by
    rw [hphase]
    exact .head _
  exact h.waiting _ (List.mem_append_right _ hhand)

variable [Operands T]

/-- A write that was reaped `Ok` and has a read to post was written. -/
theorem written (h : Told s) (hb : Boxed setup s) (ho : Owned s) {context : Nat} {op : InFlight T}
    {read : QuiesceRead} (hreaped : (context, .ok ()) ∈ s.queues.reaped)
    (hraw : s.queues.raw.lookup context = some op) (hquiesce : op.quiesce = some read) :
    Written s.wire.history op.number := by
  obtain ⟨post, hcontext, hbox, hreport⟩ := hb.reaped _ hreaped
  have hquiesces := (hbox.of_lookup hraw).quiesces
  rw [hquiesce] at hquiesces
  have hposted := h.reaped post _ hreport
  refine ⟨post, hposted, hreport, ?_, fun hkind => ?_, hquiesces.symm⟩
  · rw [hcontext, ho.named context op hraw]
  · -- A quiesce read has no quiesce read.
    rw [(h.reads post hposted hkind).1] at hquiesces
    cases hquiesces

/-- An op that was reaped `Ok` with no read to post is confirmed. -/
theorem confirmed (h : Told s) (hb : Boxed setup s) (ho : Owned s) {context : Nat}
    {op : InFlight T} (hreaped : (context, .ok ()) ∈ s.queues.reaped)
    (hraw : s.queues.raw.lookup context = some op) (hquiesce : op.quiesce = none) :
    Confirmed s.wire.history op.number := by
  obtain ⟨post, hcontext, hbox, hreport⟩ := hb.reaped _ hreaped
  have hquiesces := (hbox.of_lookup hraw).quiesces
  rw [hquiesce] at hquiesces
  have hposted := h.reaped post _ hreport
  have hnumber : post.context = op.number := by rw [hcontext, ho.named context op hraw]
  by_cases hkind : post.kind = .quiesce
  · -- What was reaped is the read, and the write was reaped before.
    obtain ⟨main, hmain, hmainReaped, hmainContext, hmainKind, -⟩ := (h.reads post hposted hkind).2
    exact ⟨main, hmain, hmainReaped, hmainContext.trans hnumber, hmainKind,
      fun _ => ⟨post, hposted, hreport, hnumber, hkind⟩⟩
  · refine ⟨post, hposted, hreport, hnumber, hkind, fun htrue => ?_⟩
    rw [htrue] at hquiesces
    cases hquiesces

variable {m : Move T}

/-- The pool completes what it has with the result that was reaped. -/
theorem step_others (h : Told s) (hmove : MovesIn setup s .others m s') : Told s' := by
  cases hmove with
  | hash before after op result batch done hpool =>
    refine h.of_pool setup rfl (fun _ => id) (fun op' hop' => ?_) fun c hc => ?_
    · simp only [State.hashes, hpool, List.flatMap_append, List.flatMap_cons, List.mem_append,
        List.mem_cons] at hop' ⊢
      tauto
    · simp only [State.completed, hpool, List.flatMap_append, List.flatMap_cons, List.mem_append,
        List.mem_cons, List.not_mem_nil, or_false] at hc ⊢
      by_cases hnew : c = op.intoCompletion (s.crc setup) result
      · refine .inr ⟨(op, result), ?_, hnew⟩
        simp only [State.hashes, hpool, List.flatMap_append, List.flatMap_cons, List.mem_append,
          List.mem_cons]
        tauto
      · left
        tauto
  | finish before after done hpool =>
    refine h.of_pool setup rfl (fun _ => id) (fun op' hop' => ?_) fun c hc => .inl ?_
    · simp only [State.hashes, hpool, List.flatMap_append, List.flatMap_cons, List.mem_append]
        at hop' ⊢
      tauto
    · simp only [State.completed, hpool, List.flatMap_append, List.flatMap_cons, List.mem_append]
        at hc ⊢
      tauto
  | thread | write | releasePool => exact h.of_hand rfl rfl rfl rfl rfl

/-- A pin holds no box. -/
theorem step_pinning (h : Told s) (hmove : MovesIn setup s .pinning m s') : Told s' := by
  cases hmove with
  | pinnedQuiesce base limit result phase hphase hnext =>
    rcases hnext with rfl | rfl
    all_goals exact h.of_hand rfl rfl (by rw [hphase]; rfl) rfl rfl
  | _ => exact h.of_hand rfl rfl (by rw [‹s.phase = _›]; rfl) rfl rfl

/-- A refused request gets a completion that claims nothing. -/
theorem step_intake (h : Told s) (hmove : MovesIn setup s .intake m s') : Told s' := by
  cases hmove with
  | accept number request channel op prepared htakes hchannel hprepare
  | addPeer number client address inserted entry channel books htakes hchannel hinsert
  | addPeerFails number client address inserted error channel books htakes hchannel hinsert
  | removePeer number client channel htakes hchannel
  | pinMessage number base length channel htakes hchannel
  | nothingToPin number base length channel htakes hchannel =>
    exact h.of_hand rfl rfl htakes.rests.inHand.symm rfl rfl
  | refuse number request channel completion htakes hchannel hprepare =>
    obtain ⟨-, error, herror⟩ := prepare_error hprepare
    refine h.of_wire rfl (fun op hop => h.waiting op ?_) (fun op => .inl) fun c hc => ?_
    · rw [State.waiting, htakes.rests.inHand]
      exact hop
    · by_cases hnew : c = completion
      · refine .inr fun done hok => ?_
        rw [hnew, herror] at hok
        cases hok
      · left
        simp only [State.completed, State.popped, List.mem_append, List.mem_singleton] at hc ⊢
        tauto

/-- A post is reported, and an op that fails gets a completion that claims nothing. -/
theorem step_posting (h : Told s) (hmove : MovesIn setup s .posting m s') : Told s' := by
  cases hmove with
  | posted prepared entry operand now op hphase hclock hraw =>
    refine h.post rfl (fun hkind => ?_) (fun op' hop' => ?_) rfl rfl
    · -- A transfer is posted as a write or as a read.
      simp only [State.postedOp] at hkind
      split at hkind <;> cases hkind
    · rw [State.waiting, hphase]
      exact hop'
  | failed prepared error op hphase hraw =>
    refine h.of_wire rfl (fun op' hop' => h.waiting op' ?_) (fun op' => .inl) fun c hc => ?_
    · rw [State.waiting, hphase]
      exact hop'
    · exact completed_error hc
  | _ => exact h.of_hand rfl rfl (by rw [‹s.phase = _›]; rfl) rfl rfl

/-- What was reaped `Ok` waits for its read, or is confirmed. -/
theorem step_reaping (h : Told s) (ho : Owned s) (hb : Boxed setup s)
    (hmove : MovesIn setup s .reaping m s') : Told s' := by
  cases hmove with
  | reap reaped wire hphase htake =>
    refine h.reap htake (fun op hop => ?_) rfl rfl
    rw [State.waiting, hphase]
    exact hop
  | toQuiescing context reaped op read hphase hreaped hraw hquiesce =>
    have hwritten := h.written hb ho (by rw [hreaped]; exact .head _) hraw hquiesce
    refine h.of_wire rfl (fun op' hop' => ?_) (fun op' => .inl) fun c => .inl
    simp only [State.waiting, List.map_append, List.map_cons, List.map_nil] at hop'
    rcases List.mem_append.mp hop' with hop' | hop'
    · rcases List.mem_append.mp hop' with hold | hnew
      · exact h.waiting op' (List.mem_append_left _ hold)
      · rw [List.mem_singleton.mp hnew]
        exact hwritten
    · exact h.waiting op' (List.mem_append_right _ hop')
  | toCrc context result reaped op hphase hreaped hraw hquiesce =>
    refine h.of_wire rfl h.waiting (fun op' hop' => ?_) fun c => .inl
    by_cases hnew : op' = (op, result)
    · refine .inr fun hok => ?_
      rw [hnew] at hok ⊢
      cases hok
      exact h.confirmed hb ho (by rw [hreaped]; exact .head _) hraw (hquiesce rfl)
    · left
      simp only [State.hashes, List.mem_append, List.mem_singleton] at hop' ⊢
      tauto
  | toCompletion context result reaped op hphase hreaped hraw hquiesce =>
    refine h.of_wire rfl h.waiting (fun op' => .inl) fun c hc => ?_
    by_cases hnew : c = op.intoCompletion (s.crc setup) result
    · refine .inr fun done hok => ?_
      rw [hnew] at hok ⊢
      cases result with
      | error error => cases hok
      | ok u => exact h.confirmed hb ho (by rw [hreaped]; exact .head _) hraw (hquiesce rfl)
    · left
      simp only [State.completed, List.mem_append, List.mem_singleton] at hc ⊢
      tauto

/-- A write that waits for its read was reaped `Ok`, however often the read is put off. -/
theorem step_quiescing (h : Told s) (hmove : MovesIn setup s .quiescing m s') : Told s' := by
  cases hmove with
  | quiesce waiting quiescing inserted entry books hphase hquiescing hinsert
  | quiesceFails waiting quiescing inserted error books hphase hquiescing hinsert =>
    refine h.of_same rfl (fun op hop => ?_) rfl rfl
    simp only [State.waiting, hquiescing, Phase.inHand, List.mem_append, List.map_cons,
      List.mem_cons] at hop ⊢
    tauto
  | quiesced waiting entry operand now hphase hclock =>
    have hwritten := h.written_inHand hphase
    refine h.post rfl (fun _ => ⟨rfl, hwritten⟩) (fun op hop => ?_) rfl rfl
    rcases List.mem_append.mp hop with hop | hop
    · exact List.mem_append_left _ hop
    · cases hop
  | requiesce waiting entry operand since now hphase hclock =>
    have hwritten := h.written_inHand hphase
    refine h.of_wire rfl (fun op hop => ?_) (fun op => .inl) fun c => .inl
    simp only [State.waiting, Phase.inHand, List.append_nil, List.map_append, List.map_cons,
      List.map_nil] at hop
    rcases List.mem_append.mp hop with hold | hnew
    · exact h.waiting op (List.mem_append_left _ hold)
    · rw [List.mem_singleton.mp hnew]
      exact hwritten
  | quiescePostFails waiting entry operand now error hphase hclock =>
    have hwritten := h.written_inHand hphase
    refine h.of_wire rfl (fun op hop => ?_) (fun op => .inl) fun c => .inl
    rcases List.mem_append.mp hop with hold | hnew
    · exact h.waiting op (List.mem_append_left _ hold)
    · rw [List.mem_singleton.mp hnew]
      exact hwritten
  | failedQuiesce op error hphase =>
    refine h.of_wire rfl (fun op' hop' => h.waiting op' ?_) (fun op' => .inl) fun c hc => ?_
    · rcases List.mem_append.mp hop' with hop' | hop'
      · exact List.mem_append_left _ hop'
      · cases hop'
    · exact completed_error hc
  | _ => exact h.of_hand rfl rfl (by rw [‹s.phase = _›]; rfl) rfl rfl

/-- At the end of a pass ops and completions change hands. -/
theorem step_ending (h : Told s) (hs : Settled s)
    (hmove : MovesIn setup s .ending m s') : Told s' := by
  cases hmove with
  | flush hphase =>
    refine h.of_pool setup rfl (fun op hop => ?_) (fun op hop => ?_) fun c hc => .inl ?_
    · rw [State.waiting, hphase]
      exact hop
    · simp only [State.hashes, List.flatMap_append, List.flatMap_cons, List.flatMap_nil,
        List.append_nil, List.nil_append, List.mem_append] at hop ⊢
      tauto
    · simp only [State.completed, List.flatMap_append, List.flatMap_cons, List.flatMap_nil,
        List.append_nil] at hc ⊢
      exact hc
  | deliver hphase =>
    refine h.of_pool setup rfl (fun op hop => ?_) (fun op => id) fun c hc => .inl ?_
    · rw [State.waiting, hphase]
      exact hop
    · simp only [State.completed, List.nil_append, List.mem_append] at hc ⊢
      tauto
  | leftover ops raw hphase hreclaim =>
    obtain ⟨rfl, rfl, -, hcrc⟩ := hs.leftover hphase hreclaim
    refine h.of_pool setup rfl (fun op hop => ?_) (fun op hop => ?_) fun c hc => .inl ?_
    · rw [State.waiting, hphase]
      exact hop
    · rw [State.hashes, hcrc]
      exact hop
    · simp only [State.completed, hcrc, List.map_nil, List.append_nil] at hc ⊢
      exact hc
  | _ => exact h.of_hand rfl rfl (by rw [‹s.phase = _›]; rfl) rfl rfl

/-- Every move keeps what the completions say true. -/
theorem step (h : Told s) (hs : Settled s) (ho : Owned s) (hb : Boxed setup s)
    (hmove : Moves setup s m s') : Told s' := by
  obtain ⟨part, hmove⟩ := hmove
  cases part with
  | callers => cases hmove <;> exact h.of_hand rfl rfl rfl rfl rfl
  | others => exact h.step_others hmove
  | turning =>
    cases hmove with
    | turn hturn =>
      obtain ⟨hrests, hrests', -⟩ := hturn.rests
      exact h.of_hand rfl rfl (hrests'.inHand.trans hrests.inHand.symm) rfl rfl
  | pinning => exact h.step_pinning hmove
  | intake => exact h.step_intake hmove
  | posting => exact h.step_posting hmove
  | reaping => exact h.step_reaping ho hb hmove
  | quiescing => exact h.step_quiescing hmove
  | ending => exact h.step_ending hs hmove
  | dangling => exact (hmove.not_dangling hs ho.backed).elim

end Told

/-- In every run the completions say what libfabric reported. -/
theorem told_reach [Operands T] {setup : Setup} {ok : State T → Move T → Prop} {s : State T}
    (h : (service T setup).Reach ok s) : Told s := by
  refine service_invariant (J := fun s => (Settled s ∧ Owned s) ∧ Boxed setup s) (I := Told)
    (fun s hs => ⟨owned_reach hs, boxed_reach hs⟩) (.start setup) ?_ h
  intro s m s' hs hs' hok hmove htold
  exact htold.step hs.1.1 hs.1.2 hs.2 hmove

/-- No move of a run is a fault. -/
theorem not_faulted [Operands T] {setup : Setup} {ok : State T → Move T → Prop} {s : State T}
    (h : (service T setup).Reach ok s) : s.phase ≠ .faulted := by
  refine service_invariant (J := fun s => Settled s ∧ Owned s) (I := fun s => s.phase ≠ .faulted)
    (fun s hs => owned_reach hs) (by simp [State.start]) ?_ h
  intro s m s' hs hs' hok hmove hphase
  obtain ⟨part, hmove⟩ := hmove
  cases hmove with
  | turn hturn => cases hturn <;> simp
  | pinnedQuiesce base limit result phase hphase hnext => rcases hnext with rfl | rfl <;> simp
  | dangling context hraw howned => exact (hs.2.backed.not_dangling hraw howned).elim
  | danglingPending hphase hreclaim => exact (hs.1.not_danglingPending hphase hreclaim).elim
  | _ => first | exact hphase | simp

namespace State

/-- The number of places that op `number` is in: the channel, the pending queue, the post in
hand, libfabric, the reaped batch, the quiescing queue, the hand, `crc_pending`, a pool job, or
the completions that are staged, made by a pool job, or delivered. -/
def places (s : State T) (number : Nat) : Nat :=
  ((transfers s.callers.channel).map TransferRequest.number).count number
    + (s.queues.pending.map Prepared.context).count number
    + (s.phase.prepared.map Prepared.context).count number
    + (s.wire.posts.map PostedOp.context).count number
    + (s.queues.reaped.map Prod.fst).count number
    + (s.queues.quiescing.map fun waiting => waiting.inflight.number).count number
    + (s.phase.inHand.map InFlight.number).count number
    + (s.queues.crcPending.map fun op => op.1.number).count number
    + (s.pool.map fun job => (job.batch.map fun op => op.1.number).count number).sum
    + (s.queues.completions.map Completion.number).count number
    + (s.pool.map fun job => (job.done.map Completion.number).count number).sum
    + (s.delivered.map Completion.number).count number

/-- The contexts of the ops that the pool has. -/
def inPool (s : State T) : List (Tagged T) :=
  s.pool.flatMap fun job =>
    job.batch.map (fun op => op.1.callerContext) ++ job.done.map Completion.callerContext

end State

/-- The places of an op add up to its owners. -/
theorem places_eq_owners [Operands T] {s : State T} (h : Owned s) (number : Nat) :
    s.places number = s.owners fun context => indicator number context.number := by
  -- The box of an op is where its pointer is.
  have hraw : s.pointers (indicator number)
      = Assoc.weight (fun op => indicator number op.callerContext.number) s.queues.raw :=
    h.pointed (indicator number)
  have hpending := sum_map_indicator Prepared.context number s.queues.pending
  have hprepared := sum_map_indicator Prepared.context number s.phase.prepared
  have hposts := sum_map_indicator PostedOp.context number s.wire.posts
  have hreaped : (s.queues.reaped.map fun r => indicator number r.1).sum
      = (s.queues.reaped.map Prod.fst).count number := sum_map_indicator _ _ _
  have hchannel : ((transfers s.callers.channel).map fun request =>
        indicator number (returned request).number).sum
      = ((transfers s.callers.channel).map TransferRequest.number).count number :=
    sum_map_indicator _ _ _
  have hquiescing : (s.queues.quiescing.map fun waiting =>
        indicator number waiting.inflight.callerContext.number).sum
      = (s.queues.quiescing.map fun waiting => waiting.inflight.number).count number :=
    sum_map_indicator _ _ _
  have hinHand : (s.phase.inHand.map fun op => indicator number op.callerContext.number).sum
      = (s.phase.inHand.map InFlight.number).count number := sum_map_indicator _ _ _
  have hcrc : (s.queues.crcPending.map fun op =>
        indicator number op.1.callerContext.number).sum
      = (s.queues.crcPending.map fun op => op.1.number).count number := sum_map_indicator _ _ _
  have hbatch : (s.pool.map fun job =>
        (job.batch.map fun op => indicator number op.1.callerContext.number).sum)
      = s.pool.map fun job => (job.batch.map fun op => op.1.number).count number :=
    List.map_congr_left fun job _ => sum_map_indicator _ _ _
  have hcompletions : (s.queues.completions.map fun c =>
        indicator number c.callerContext.number).sum
      = (s.queues.completions.map Completion.number).count number := sum_map_indicator _ _ _
  have hdone : (s.pool.map fun job =>
        (job.done.map fun c => indicator number c.callerContext.number).sum)
      = s.pool.map fun job => (job.done.map Completion.number).count number :=
    List.map_congr_left fun job _ => sum_map_indicator _ _ _
  have hdelivered : (s.delivered.map fun c => indicator number c.callerContext.number).sum
      = (s.delivered.map Completion.number).count number := sum_map_indicator _ _ _
  simp only [State.pointers] at hraw
  simp only [State.places, State.owners, State.live, State.hashing, State.finished, hbatch, hdone]
  omega

/-- No two delivered completions have one number. -/
theorem Owned.delivered_nodup [Operands T] {s : State T} (ho : Owned s) :
    (s.delivered.map Completion.number).Nodup := by
  rw [List.nodup_iff_count_le_one]
  intro number
  have hle := ho.owners_le number
  have hcount : (s.delivered.map fun c => indicator number c.callerContext.number).sum
      = (s.delivered.map Completion.number).count number := sum_map_indicator _ _ _
  simp only [State.owners, State.finished] at hle
  omega

/-- A worker with nothing queued, posted or in hand has no box behind a pointer. -/
theorem raw_of_drained [Operands T] {s : State T} (ho : Owned s) (hs : Settled s)
    (hdrained : Drained s)
    (hdispatching : s.phase ≠ .dispatching) (hprepared : s.phase.prepared = []) :
    s.wire.posts = [] ∧ s.queues.raw = ∅ := by
  have hposts : s.wire.posts = [] := by
    have hlength := hs.inFlight
    rw [hdrained.inFlight] at hlength
    exact List.length_eq_zero_iff.mp hlength.symm
  refine ⟨hposts, ?_⟩
  have hpointed := ho.pointed fun _ => 1
  simp only [State.pointers, hdrained.pending, hprepared, hposts, hs.reaped hdispatching,
    List.map_nil, List.sum_nil] at hpointed
  exact eq_empty_of_weight hpointed.symm

/-- Outside the loop no box is left behind a pointer. -/
theorem raw_of_quiet [Operands T] {s : State T} (ho : Owned s) (hs : Settled s)
    (hloops : s.phase.loops = false) (hprepared : s.phase.prepared = []) :
    s.queues.raw = ∅ := by
  refine (raw_of_drained ho hs (hs.quiet hloops).toDrained ?_ hprepared).2
  intro hphase
  rw [hphase] at hloops
  cases hloops

/-- With nothing queued, posted or in hand, every transfer that was sent is still in the channel,
delivered or in the pool. -/
theorem perm_of_drained [Operands T] {s : State T} (ho : Owned s) (hdrained : Drained s)
    (hcompletions : s.queues.completions = []) (hraw : s.queues.raw = ∅)
    (hinHand : s.phase.inHand = []) :
    ((transfers s.callers.channel).map returned
        ++ (s.delivered.map Completion.callerContext ++ s.inPool)).Perm
      (s.callers.sent.map returned) := by
  refine perm_of_sums fun f => ?_
  have htickets := ho.tickets f
  have hpool : (s.inPool.map f).sum
      = (s.pool.map fun job => (job.batch.map fun op => f op.1.callerContext).sum).sum
        + (s.pool.map fun job => (job.done.map fun c => f c.callerContext).sum).sum := by
    simp only [State.inPool, sum_map_flatMap, List.map_append, List.sum_append, List.map_map,
      Function.comp_def, List.sum_map_add]
  simp only [State.owners, State.live, State.hashing, State.finished,
    hdrained.quiescing, hdrained.crcPending, hcompletions, hraw, hinHand,
    Assoc.weight_empty, List.map_nil, List.sum_nil] at htickets
  simp only [List.map_append, List.sum_append, List.map_map, Function.comp_def, hpool]
  omega

/-- With nothing in the channel either, it is delivered or in the pool. -/
theorem perm_of_empty_channel [Operands T] {s : State T} (ho : Owned s) (hdrained : Drained s)
    (hchannel : s.callers.channel = []) (hcompletions : s.queues.completions = [])
    (hraw : s.queues.raw = ∅) (hinHand : s.phase.inHand = []) :
    (s.delivered.map Completion.callerContext ++ s.inPool).Perm
      (s.callers.sent.map returned) := by
  have hperm := perm_of_drained ho hdrained hcompletions hraw hinHand
  rwa [hchannel, show transfers ([] : List (Nat × WorkerMessage (Tagged T))) = [] from rfl,
    List.map_nil, List.nil_append] at hperm

/-- Past the loop, every transfer that was sent is delivered or in the pool. -/
theorem perm_of_quiet [Operands T] {s : State T} (ho : Owned s) (hquiet : Quiet s)
    (hraw : s.queues.raw = ∅) (hinHand : s.phase.inHand = []) :
    (s.delivered.map Completion.callerContext ++ s.inPool).Perm (s.callers.sent.map returned) :=
  perm_of_empty_channel ho hquiet.toDrained hquiet.channel hquiet.completions hraw hinHand

/-- The completions are the finished ops. -/
theorem sum_completed (s : State T) (f : Completion (Tagged T) → Nat) :
    (s.completed.map f).sum = s.finished f := by
  simp only [State.completed, State.finished, List.map_append, List.sum_append, sum_map_flatMap]

/-- The ops to hash are in `crc_pending` and in the pool. -/
theorem sum_hashes (s : State T) (f : InFlight T → Nat) :
    (s.hashes.map fun op => f op.1).sum = s.hashing f := by
  simp only [State.hashes, State.hashing, List.map_append, List.sum_append, sum_map_flatMap]

/-- A completion adds its part to the finished ops. -/
theorem le_finished {s : State T} {c : Completion (Tagged T)} (hc : c ∈ s.completed)
    (f : Completion (Tagged T) → Nat) : f c ≤ s.finished f := by
  rw [← sum_completed]
  exact le_sum_map hc f

/-- Each transfer completes once. No reclaim meets a pointer to nothing. Every transfer that
was sent is in one place at a time, and nothing else is in any. Every box behind a pointer has
one pointer to it, and every pointer has a box. A completion carries the
context of a transfer that was sent, and is `Ok` only when everything posted for that op was
reaped `Ok`. When the worker has exited, no box is left, and every context is delivered or in
the pool, so that with the pool drained each has been delivered exactly once. -/
theorem completes_exactly_once [Operands T] {setup : Setup} {s : State T}
    (h : (service T setup).Reachable s) :
    s.phase ≠ .faulted ∧
    (∀ number, s.places number
      = if number ∈ s.callers.sent.map TransferRequest.number then 1 else 0) ∧
    (∀ context, s.queues.raw.lookup context ≠ none ↔ s.pointers (indicator context) = 1) ∧
    (∀ c ∈ s.completed, ∃ request ∈ s.callers.sent, c.callerContext = returned request) ∧
    (∀ c ∈ s.completed, ∀ done, c.outcome = .ok done → Confirmed s.wire.history c.number) ∧
    (s.phase = .exited →
      s.queues.raw = ∅ ∧
      (s.delivered.map Completion.callerContext ++ s.inPool).Perm (s.callers.sent.map returned) ∧
      (s.pool = [] →
        (s.delivered.map Completion.callerContext).Perm (s.callers.sent.map returned))) := by
  obtain ⟨hs, ho⟩ := owned_reach h
  -- Each place is counted by the owners, and those by the requests that were sent.
  refine ⟨not_faulted h, fun number => ?_, fun context => ⟨fun hbox => ?_, fun hone => ?_⟩,
    fun c hc => ?_, (told_reach h).completed, fun hphase => ?_⟩
  · have hcount : s.places number
        = (s.callers.sent.map TransferRequest.number).count number := by
      rw [places_eq_owners ho, ho.tickets]
      exact sum_map_indicator TransferRequest.number number s.callers.sent
    rw [hcount]
    split
    · next hmem => exact List.count_eq_one_of_mem ho.unique hmem
    · next hnot => exact List.count_eq_zero_of_not_mem hnot
  · -- A box is behind a pointer: libfabric's, or the worker's own.
    obtain ⟨op, hop⟩ := Option.ne_none_iff_exists'.mp hbox
    have hle := ho.pointers_le context
    have hweight := ho.le_weight hop
    rw [← ho.pointed] at hweight
    omega
  · exact ho.lookup_of_pointed (by omega)
  · -- The completion is one of the owners of its context.
    classical
    let same : Tagged T → Nat := fun context => if context = c.callerContext then 1 else 0
    have hone : same c.callerContext = 1 := if_pos rfl
    have hfinished := le_finished hc fun c => same c.callerContext
    have htickets := ho.tickets same
    simp only [State.owners] at htickets
    have hsent : (s.callers.sent.map fun request => same (returned request)).sum ≠ 0 := by omega
    by_contra hnone
    refine hsent (List.sum_eq_zero fun n hn => ?_)
    obtain ⟨request, hrequest, rfl⟩ := List.mem_map.mp hn
    exact if_neg fun heq => hnone ⟨request, hrequest, heq.symm⟩
  · -- After the loop every queue is empty, and what is not delivered is the pool's.
    have hloops : s.phase.loops = false := by rw [hphase]; rfl
    have hraw := raw_of_quiet ho hs hloops (by rw [hphase]; rfl)
    have hperm := perm_of_quiet ho (hs.quiet hloops) hraw (by rw [hphase]; rfl)
    refine ⟨hraw, hperm, fun hpool => ?_⟩
    have hnone : s.inPool = [] := by rw [State.inPool, hpool]; rfl
    rwa [hnone, List.append_nil] at hperm

/-- A write is reaped and waits for its quiesce read, which is posted and reaped too. The pool
hashes it. -/
def quiesceAndHash : List (Move Buffer) :=
  [.worker .none, .worker (.cq [.entries [some 0], .code (-11)]), .worker .none, .worker .none,
    .worker (.avInsert 1), .worker (.region .none), .worker (.rma 0 0 0), .worker .none,
    .worker .none, .worker .none, .worker .none, .worker .none, .worker .none,
    .worker (.cq [.entries [some 0], .code (-11)]), .worker .none, .worker .none, .worker .none,
    .worker .none]

/-- The service is dropped and the worker exits. -/
def shutDown : List (Move Buffer) :=
  [.dropService, .worker .none, .worker .none, .worker .none, .worker .none, .worker .none,
    .worker .none, .worker .none]

/-- A checksummed write, quiesced and hashed on the pool, is delivered once, with its own
context, and was confirmed. -/
theorem completes_exactly_once_quiesced :
    ∃ s, (service Buffer bufferSetup).run (State.start bufferSetup)
        (startUp ++ postWrite (writeTo 1 (List.replicate 32 254) true 4096) ++ quiesceAndHash
          ++ [.hash 0, .finish 0] ++ shutDown) = some s ∧
      (s.delivered.map Completion.callerContext).Perm [⟨0, ⟨4096, 64⟩⟩] ∧
      Confirmed s.wire.history 0 := by
  obtain ⟨s, hrun, hphase, hpool, hsent, hdelivered⟩ :
      ∃ s, (service Buffer bufferSetup).run (State.start bufferSetup)
          (startUp ++ postWrite (writeTo 1 (List.replicate 32 254) true 4096) ++ quiesceAndHash
            ++ [.hash 0, .finish 0] ++ shutDown) = some s ∧
        s.phase = .exited ∧ s.pool = [] ∧ s.callers.sent.map returned = [⟨0, ⟨4096, 64⟩⟩] ∧
        s.delivered = [⟨⟨0, ⟨4096, 64⟩⟩, .ok ⟨64, some 0⟩⟩] :=
    ⟨_, rfl, rfl, rfl, rfl, rfl⟩
  obtain ⟨-, -, -, -, hconfirmed, hexited⟩ := completes_exactly_once (Machine.reach_run rfl _ hrun)
  refine ⟨s, hrun, ?_, ?_⟩
  · rw [← hsent]
    exact (hexited hphase).2.2 hpool
  · refine hconfirmed ⟨⟨0, ⟨4096, 64⟩⟩, .ok ⟨64, some 0⟩⟩ ?_ ⟨64, some 0⟩ rfl
    rw [State.completed, hdelivered]
    exact List.mem_append_right _ (.head _)

end Vdma.Fabric
