import Vdma.Proofs.Worker.Peers

/-!
# `Vdma.Proofs.Worker.Removal`: a removed client's peer

`RemovePeer` releases a client's entry at once, or leaves that to whichever step finishes
the client's last op. Until then every post and every quiesce read of the client resolves
its peer again, and may insert it again.

`Leaving s c` is what holds from the removal on: while `c` has ops its removal is
deferred, and without ops it holds nothing. Nothing but a message for `c` ends it.
`removed_client` puts that beside the other half, that no removal takes the hold of a
client that has ops.
-/

set_option autoImplicit false

namespace Vdma.Fabric

open Vdma.Lib

variable {T : Type}

/-- The client that a message is for. -/
def WorkerMessage.client : WorkerMessage T → Option ClientId
  | .transfer request => some request.clientId
  | .addPeer client _ => some client
  | .removePeer client => some client
  | .register _ _ => none

/-- No message for a client is on the channel. -/
def State.NoneFor (s : State T) (client : ClientId) : Prop :=
  ∀ q ∈ s.callers.channel, q.2.client ≠ some client

instance (s : State T) (client : ClientId) : Decidable (s.NoneFor client) :=
  inferInstanceAs (Decidable (∀ q ∈ s.callers.channel, q.2.client ≠ some client))

/-- The message at the head of the channel is another client's. -/
theorem State.NoneFor.head {s : State T} {client client' : ClientId} (h : s.NoneFor client)
    {number : Nat} {message : WorkerMessage (Tagged T)}
    (hhead : s.callers.channel.head? = some (number, message))
    (hclient : message.client = some client') : client' ≠ client := by
  rintro rfl
  exact h _ (List.mem_of_mem_head? hhead) hclient

namespace PeerAddresses

variable {p p' : PeerAddresses} {c c' : ClientId} {address : Bytes} {inserted : Int}

/-- A resolution gives nothing to another client. -/
theorem lookup_handle_none (hne : c' ≠ c) (hnone : p.byClient.lookup c' = none) (address : Bytes)
    (inserted : Int) : (p.handle c address inserted).1.byClient.lookup c' = none := by
  rcases p.lookup_handle_ne hne address inserted with hsame | ⟨hgone, -⟩
  · exact hsame.trans hnone
  · exact hgone

/-- A failed resolution gives nothing to anybody. -/
theorem lookup_handle_error {error : DmaError} (hnone : p.byClient.lookup c' = none)
    (hhandle : p.handle c address inserted = (p', .error error)) :
    p'.byClient.lookup c' = none := by
  by_cases hne : c' = c
  · subst hne
    rcases Sound.handle_error hhandle with rfl | hr
    · exact hnone
    · rcases p.resolve_cases c' (p.format.identity address) address with ⟨entry, -, heq⟩ |
        ⟨stale, -, heq⟩ | ⟨-, heq⟩
      · rw [heq] at hr
        cases hr
      · rw [heq] at hr
        cases hr
        exact AList.lookup_erase _ _
      · rw [heq] at hr
        cases hr
        exact AList.lookup_erase _ _
  · have hsame := lookup_handle_none hne hnone address inserted
    rwa [hhandle] at hsame

end PeerAddresses

namespace Books

/-- A finished op takes its client off the deferred removals when it is the last. -/
theorem Tallied.pendingRemoval_finishOp {b : Books} {client : ClientId} {total : Nat}
    {count : ClientId → Nat} (h : Tallied b total fun c => count c + if client = c then 1 else 0) :
    (b.finishOp client).pendingRemoval
      = if 0 = count client then b.pendingRemoval.erase client else b.pendingRemoval := by
  rw [finishOp_eq h.lookup_counted]
  dsimp only
  split
  · exact (drained_spec _ client).2.2.2
  · rfl

/-- A removal is deferred for a client that has ops. -/
theorem pendingRemoval_removeOrDefer (b : Books) (client : ClientId) :
    (b.removeOrDefer client).pendingRemoval
      = if 0 = (b.outstandingByClient.lookup client).getD 0 then b.pendingRemoval
        else insert client b.pendingRemoval := by
  unfold removeOrDefer
  split
  · rfl
  · rfl

/-- A resolution defers no removal. -/
theorem pendingRemoval_insertPeer {b b' : Books} {message : Nat} {client : ClientId}
    {address : Bytes} {inserted : Int} {result : Except DmaError Nat}
    (h : b.insertPeer message client address inserted = (b', result)) :
    b'.pendingRemoval = b.pendingRemoval := by
  cases h
  rfl

end Books

/-- A client that was removed, and that no message has come for since. -/
structure Leaving (s : State T) (c : ClientId) : Prop where
  waits : 0 < s.unfinishedOf c → c ∈ s.books.pendingRemoval
  gone : s.unfinishedOf c = 0 → s.books.peers.byClient.lookup c = none

/-- What the worker posts for is not finished. -/
theorem unfinishedOf_pos_of_target {setup : Setup} {s : State T} (hb : Boxed setup s) {entry : Nat}
    {client : ClientId} {address : Bytes}
    (htarget : s.phase.target = some (entry, client, address)) :
    0 < s.unfinishedOf client := by
  unfold State.unfinishedOf State.live
  cases hphase : s.phase with
  | operand prepared entry' call =>
    rw [hphase] at htarget
    cases htarget
    obtain ⟨op, hlookup, hclient⟩ := hb.prepared prepared (by rw [hphase]; simp [Phase.prepared])
    have hweight := Assoc.le_weight_of_lookup hlookup
      fun op => if op.clientId = prepared.clientId then 1 else 0
    simp only [hclient, if_true] at hweight
    omega
  | quiesceOperand waiting entry' call =>
    rw [hphase] at htarget
    cases htarget
    simp [Phase.inHand]
  | _ =>
    rw [hphase] at htarget
    cases htarget

namespace Leaving

variable {setup : Setup} {s s' : State T} {m : Move T} {c : ClientId}

/-- A move that leaves the client's ops, its removal and its entry. -/
theorem of_same (h : Leaving s c) (hremoval : s'.books.pendingRemoval = s.books.pendingRemoval)
    (hclients : s'.books.peers.byClient = s.books.peers.byClient)
    (hcount : s'.unfinishedOf c = s.unfinishedOf c) : Leaving s' c where
  waits hpos := by
    rw [hremoval]
    exact h.waits (by omega)
  gone hzero := by
    rw [hclients]
    exact h.gone (by omega)

/-- Taking the removal off the channel starts it. -/
theorem of_remove (hbooks : Accounted s) (hb : s'.books = s.books.removeOrDefer c)
    (hcount : s'.unfinishedOf c = s.unfinishedOf c) : Leaving s' c where
  waits hpos := by
    have hcounted := hbooks.counted c
    rw [hb, s.books.pendingRemoval_removeOrDefer, if_neg (by omega)]
    exact Finset.mem_insert_self _ _
  gone hzero := by
    have hcounted := hbooks.counted c
    rw [hb, (s.books.removeOrDefer_past c).2.2, if_pos (by omega)]
    exact AList.lookup_erase _ _

/-- No move ends it, when none of the messages there is for the client. -/
theorem step [Operands T] (h : Leaving s c) (hs : Invariants setup s) (hs' : Invariants setup s')
    (hok : s.NoneFor c) (hmove : BooksMove s m s') : Leaving s' c := by
  cases hmove with
  | keep hb htarget htotal hcount | submit hb htarget htotal hcount =>
    exact h.of_same (by rw [hb]) (by rw [hb]) (hcount c)
  | refuse hb htarget htotal hcount | drop entry hphase hb htarget htotal hcount =>
    exact h.of_same (by rw [hb]; rfl) (by rw [hb]; rfl) (hcount c)
  | accept number request hchannel hb htarget htotal hcount =>
    -- The new op is another client's.
    have hne := hok.head hchannel rfl
    have hsame := hcount c
    rw [if_neg hne] at hsame
    exact h.of_same (by rw [hb]; rfl) (by rw [hb]; rfl) hsame
  | finish client hb hops hrest htarget htotal hcount =>
    have htallied := Books.Tallied.congr hs.accounted htotal hcount
    have hpeers := htallied.finishOp_past.2.2
    have hremoval := htallied.pendingRemoval_finishOp
    rw [← hb] at hpeers hremoval
    by_cases hclient : client = c
    · subst hclient
      have hcounted := hcount client
      rw [if_pos rfl] at hcounted
      have hwaits := h.waits (by omega)
      refine ⟨fun hpos => ?_, fun hzero => ?_⟩
      · rw [hremoval, if_neg (by omega)]
        exact hwaits
      · -- The last op does the removal.
        rw [hpeers, if_pos ⟨hzero.symm, hwaits⟩]
        exact AList.lookup_erase _ _
    · have hcounted := hcount c
      rw [if_neg hclient] at hcounted
      refine ⟨fun hpos => ?_, fun hzero => ?_⟩
      · have hwaits := h.waits (by omega)
        rw [hremoval]
        split
        · exact Finset.mem_erase.mpr ⟨Ne.symm hclient, hwaits⟩
        · exact hwaits
      · have hgone := h.gone (by omega)
        rw [hpeers]
        split
        · exact (AList.lookup_erase_ne (Ne.symm hclient)).trans hgone
        · exact hgone
  | remove number client hchannel hb hrest htarget htotal hcount =>
    have hclient := hok.head hchannel rfl
    refine ⟨fun hpos => ?_, fun hzero => ?_⟩
    · have hwaits := h.waits (by rw [← hcount c]; exact hpos)
      rw [hb, s.books.pendingRemoval_removeOrDefer]
      split
      · exact hwaits
      · exact Finset.mem_insert_of_mem hwaits
    · have hgone := h.gone (by rw [← hcount c]; exact hzero)
      rw [hb, (s.books.removeOrDefer_past client).2.2]
      split
      · exact (AList.lookup_erase_ne (Ne.symm hclient)).trans hgone
      · exact hgone
  | resolve message client address inserted entry hresolves hinsert hrest htarget htotal hcount =>
    have hhandle := Books.insertPeer_peers hinsert
    have hremoval := Books.pendingRemoval_insertPeer hinsert
    refine ⟨fun hpos => ?_, fun hzero => ?_⟩
    · rw [hremoval]
      exact h.waits (by rw [← hcount c]; exact hpos)
    · -- A post inserts the peer of a client that has an op.
      have hne : c ≠ client := by
        rintro rfl
        have hpos := unfinishedOf_pos_of_target hs'.boxed htarget
        omega
      have hnone := PeerAddresses.lookup_handle_none hne
        (h.gone (by rw [← hcount c]; exact hzero)) address inserted
      rwa [hhandle] at hnone
  | greet message client address inserted entry books hchannel hresolves hinsert hb hrest htarget
      htotal hcount =>
    have hhandle := Books.insertPeer_peers hinsert
    have hremoval : s'.books.pendingRemoval = s.books.pendingRemoval := by
      have hsame := Books.pendingRemoval_insertPeer hinsert
      rw [hb]
      exact hsame
    have hne := hok.head hchannel rfl
    refine ⟨fun hpos => ?_, fun hzero => ?_⟩
    · rw [hremoval]
      exact h.waits (by rw [← hcount c]; exact hpos)
    · have hnone := PeerAddresses.lookup_handle_none (Ne.symm hne)
        (h.gone (by rw [← hcount c]; exact hzero)) address inserted
      rw [hhandle] at hnone
      rw [hb]
      exact hnone
  | unresolved message client address inserted error hresolves hinsert hrest htarget htotal
      hcount =>
    have hhandle := Books.insertPeer_peers hinsert
    have hremoval := Books.pendingRemoval_insertPeer hinsert
    refine ⟨fun hpos => ?_, fun hzero => ?_⟩
    · rw [hremoval]
      exact h.waits (by rw [← hcount c]; exact hpos)
    · have hgone := h.gone (by rw [← hcount c]; exact hzero)
      exact PeerAddresses.lookup_handle_error hgone hhandle
  | clear hloops hb hrest htarget htotal hcount =>
    refine ⟨fun hpos => ?_, fun hzero => by rw [hb]; rfl⟩
    rw [hb]
    exact h.waits (by rw [← hcount c]; exact hpos)

end Leaving

section
variable [Operands T] {setup : Setup} {s s' : State T} {m : Move T}

/-- A move that takes the message at the head of the channel is the one for that message. -/
theorem Moves.books_of_removal (hs : Settled s) (ho : Owned s) (hmove : Moves setup s m s')
    {number : Nat} {client : ClientId} {channel : List (Nat × WorkerMessage (Tagged T))}
    (hchannel : s.callers.channel = (number, .removePeer client) :: channel)
    (htaken : s'.callers.channel = channel) :
    s'.books = s.books.removeOrDefer client ∧ s'.unfinishedOf client = s.unfinishedOf client := by
  -- A channel is not its own tail.
  have hlonger : s'.callers.channel ≠ s.callers.channel := by
    rw [htaken, hchannel]
    exact (List.cons_ne_self _ _).symm
  have hhead : ∀ {message : Nat × WorkerMessage (Tagged T)}
      {rest : List (Nat × WorkerMessage (Tagged T))},
      s.callers.channel = message :: rest → message = (number, .removePeer client) := by
    intro message rest hrest
    rw [hchannel] at hrest
    exact (List.cons.inj hrest).1.symm
  obtain ⟨part, hmove⟩ := hmove
  cases hmove with
  | removePeer number' client' channel' htakes hchannel' =>
    cases hhead hchannel'
    refine ⟨rfl, ?_⟩
    simp only [State.unfinishedOf, State.live, State.popped, htakes.rests.inHand,
      Phase.rests_intake.inHand]
  | send i request hi hphase =>
    have hlength := congrArg List.length htaken
    simp [hchannel] at hlength
    omega
  | message message hserving hmessage =>
    have hlength := congrArg List.length htaken
    simp [State.enqueue, hchannel] at hlength
    omega
  | accept number' request channel' op prepared htakes hchannel' hprepare
  | refuse number' request channel' completion htakes hchannel' hprepare
  | addPeer number' client' address inserted entry channel' books htakes hchannel' hinsert
  | addPeerFails number' client' address inserted error channel' books htakes hchannel' hinsert
  | pinMessage number' base length channel' htakes hchannel'
  | nothingToPin number' base length channel' htakes hchannel' => cases hhead hchannel'
  | dangling context hraw howned => exact (ho.backed.not_dangling hraw howned).elim
  | danglingPending hphase hreclaim => exact (hs.not_danglingPending hphase hreclaim).elim
  | _ => exact absurd rfl hlonger

/-- From its removal on, a client is leaving for as long as no message comes for it. -/
theorem leaving_reach {s₁ : State T} {c : ClientId} (h₁ : (service T setup).Reachable s₁)
    (hleaving : Leaving s₁ c)
    (h : ((service T setup).startingAt s₁).Reach (fun s _ => s.NoneFor c) s) : Leaving s c := by
  refine h.invariant_given (J := Invariants setup) (I := fun s => Leaving s c)
    (fun s hs => invariants_reach (Machine.Reach.of_startingAt h₁ hs)) ?_ ?_
  · intro s hinit
    rw [show s = s₁ from hinit]
    exact hleaving
  · intro s m s' hs hs' hok hstep hleaving
    exact hleaving.step hs hs' hok ((moves_of_step hstep).booksMove hs.settled hs.owned)

end

/-- A removal of `c` was taken off the channel, and from there to `s` no message for `c` was on
it. -/
def State.RemovedSince [Operands T] (setup : Setup) (c : ClientId) (s : State T) : Prop :=
  ∃ (before after : State T) (m : Move T) (number : Nat)
      (channel : List (Nat × WorkerMessage (Tagged T))),
    (service T setup).Reachable before ∧
    before.callers.channel = (number, .removePeer c) :: channel ∧
    (service T setup).step before m = some after ∧ after.callers.channel = channel ∧
    ((service T setup).startingAt after).Reach (fun s _ => s.NoneFor c) s

/-- A client whose removal was taken off the channel is leaving. -/
theorem State.RemovedSince.leaving [Operands T] {setup : Setup} {s : State T} {c : ClientId}
    (h : s.RemovedSince setup c) : (service T setup).Reachable s ∧ Leaving s c := by
  obtain ⟨before, after, m, number, channel, hreach, hchannel, hstep, htaken, hafter⟩ := h
  have hs := invariants_reach hreach
  obtain ⟨hb, hcount⟩ :=
    (moves_of_step hstep).books_of_removal hs.settled hs.owned hchannel htaken
  have hreach' := hreach.step trivial hstep
  exact ⟨Machine.Reach.of_startingAt hreach' hafter,
    leaving_reach hreach' (.of_remove hs.accounted hb hcount) hafter⟩

/-- Removals are neither early nor lost. No move but a resolution touches the hold of a client
that has an op pending, posted or quiescing. And take any run that goes on from the move that
took a client's removal off the channel, with no message for that client on the channel since.
Whenever the client has no op that is not finished, and so whenever it has none pending, posted
or quiescing and the worker has nothing in hand, it holds no entry. -/
theorem removed_client [Operands T] (setup : Setup) (c : ClientId) :
    (∀ (s s' : State T) (m : Move T), (service T setup).Reachable s →
      (service T setup).step s m = some s' → s.resolves m = none → 0 < s.opsOf c →
        s'.books.peers.byClient.lookup c = s.books.peers.byClient.lookup c) ∧
    (∀ (s s₁ : State T) (m : Move T) (number : Nat)
        (channel : List (Nat × WorkerMessage (Tagged T))), (service T setup).Reachable s →
      s.callers.channel = (number, .removePeer c) :: channel →
      (service T setup).step s m = some s₁ → s₁.callers.channel = channel →
      ∀ t, ((service T setup).startingAt s₁).Reach (fun s _ => s.NoneFor c) t →
        (t.unfinishedOf c = 0 → t.books.peers.byClient.lookup c = none) ∧
        (t.phase.Rests → t.queues.reaped = [] → t.opsOf c = 0 →
          t.books.peers.byClient.lookup c = none)) := by
  constructor
  · intro s s' m h hstep hresolves hops
    have hs := invariants_reach h
    have hs' := invariants_reach (h.step trivial hstep)
    have hbooks := (moves_of_step hstep).booksMove hs.settled hs.owned
    rcases hbooks.hold hs hs' hops with hsame | ⟨-, message, client, address, inserted, hsome, -⟩
    · exact hsame
    · rw [hresolves] at hsome
      cases hsome
  · intro s s₁ m number channel h hchannel hstep htaken t ht
    have hremoved : t.RemovedSince setup c :=
      ⟨s, s₁, m, number, channel, h, hchannel, hstep, htaken, ht⟩
    obtain ⟨hreach, hleaving⟩ := hremoved.leaving
    refine ⟨hleaving.gone, fun hrests hreaped hops => hleaving.gone ?_⟩
    -- With nothing in hand, what is not finished is pending, posted or quiescing.
    have hinvariants := invariants_reach hreach
    have hweight := weight_eq_queued hinvariants.owned hinvariants.boxed hrests.prepared hreaped c
    have hquiescing := sum_indicator (fun waiting : Quiescing T => waiting.inflight.clientId) c
      t.queues.quiescing
    simp only [State.opsOf] at hops
    simp only [State.unfinishedOf, State.live, hrests.inHand, hweight, hquiescing, List.map_nil,
      List.sum_nil]
    omega

/-- A client's write is posted, and then its removal comes off the channel. -/
def removedEarly : List (Move Buffer) :=
  startUp ++ postWrite (writeTo 1 (List.replicate 32 254) false 4096) ++ reapNothing
    ++ [.removePeer 1]

/-- The write is reaped, its quiesce read is posted and reaped, and the op is finished. -/
def drainWrite : List (Move Buffer) :=
  [.worker .none, .worker .none, .worker (.cq [.entries [some 0], .code (-11)]), .worker .none,
    .worker .none, .worker (.avInsert 1), .worker (.region .none), .worker (.rma 0 0 0),
    .worker .none, .worker .none, .worker .none, .worker .none, .worker .none, .worker .none,
    .worker (.cq [.entries [some 0], .code (-11)]), .worker .none]

/-- The removal waits for the write, whose quiesce read asks for the peer once more. It is done
with the last op. -/
theorem removed_client_drained :
    ∃ s s₁ t, (service Buffer bufferSetup).run (State.start bufferSetup) removedEarly = some s ∧
      (service Buffer bufferSetup).step s (.worker .none) = some s₁ ∧
      s₁.books.peers.byClient.lookup 1 = s.books.peers.byClient.lookup 1 ∧
      s₁.books.peers.byClient.lookup 1 = some 0 ∧
      ((service Buffer bufferSetup).startingAt s₁).run s₁ drainWrite = some t ∧
      t.books.peers.byClient.lookup 1 = none := by
  obtain ⟨s, s₁, t, hrun, hstep, hops, hheld, hchannel, htaken, hrun', hok, hzero⟩ : ∃ s s₁ t,
      (service Buffer bufferSetup).run (State.start bufferSetup) removedEarly = some s ∧
      (service Buffer bufferSetup).step s (.worker .none) = some s₁ ∧ 0 < s.opsOf 1 ∧
      s₁.books.peers.byClient.lookup 1 = some 0 ∧ s.callers.channel = [(1, .removePeer 1)] ∧
      s₁.callers.channel = [] ∧
      ((service Buffer bufferSetup).startingAt s₁).run s₁ drainWrite = some t ∧
      ((service Buffer bufferSetup).startingAt s₁).Obeys (fun s _ => s.NoneFor 1) s₁ drainWrite ∧
      t.unfinishedOf 1 = 0 :=
    ⟨_, _, _, rfl, rfl, by decide +kernel, rfl, rfl, rfl, rfl, by decide +kernel, rfl⟩
  have hreach := Machine.reach_run (M := service Buffer bufferSetup) rfl _ hrun
  have hafter := (Machine.Reach.init (M := (service Buffer bufferSetup).startingAt s₁) rfl).run
    hok hrun'
  obtain ⟨hwaits, hlasts⟩ := removed_client (T := Buffer) bufferSetup 1
  refine ⟨s, s₁, t, hrun, hstep, hwaits s s₁ _ hreach hstep rfl hops, hheld, hrun', ?_⟩
  exact (hlasts s s₁ _ 1 [] hreach hchannel hstep htaken t hafter).1 hzero

end Vdma.Fabric
