import Vdma.Proofs.Worker.Boxed

/-!
# `Vdma.Proofs.Worker.Accounts`: the counters are right

The worker counts its ops four times over: `in_flight`, the tally `submit` raises, the
count of each client, and the set of clients whose removal waits for their count to
reach zero. `Books.Tallied` says what the last three are right about, and has one rule
for each function that changes them. `BooksMove` says which of these a move runs.
`worker_accounts` puts the parts together: no counter drifts, and so no subtraction wraps
or saturates.
-/

set_option autoImplicit false

namespace Vdma.Fabric

open Vdma.Lib

variable {T : Type}

namespace Books

/-- The counters are right about `total` ops that are not finished, `count c` of them taken
in for client `c`. -/
structure Tallied (b : Books) (total : Nat) (count : ClientId → Nat) : Prop where
  wrapped : b.wrapped = false
  outstanding : b.outstanding = total
  counted : ∀ c, (b.outstandingByClient.lookup c).getD 0 = count c
  positive : ∀ c n, b.outstandingByClient.lookup c = some n → 0 < n
  removal : ∀ c ∈ b.pendingRemoval, 0 < count c

namespace Tallied

variable {b b' : Books} {total total' : Nat} {count count' : ClientId → Nat}

/-- At the start nothing is counted. -/
theorem start (format : AddressFormat) : Tallied (Books.start format) 0 fun _ => 0 where
  wrapped := rfl
  outstanding := rfl
  counted _ := rfl
  positive c n h := by cases h
  removal c h := absurd h (Finset.notMem_empty c)

/-- Only the counts matter, not how they are written. -/
theorem congr (h : Tallied b total count) (htotal : total = total')
    (hcount : ∀ c, count c = count' c) : Tallied b total' count' := by
  have heq : count = count' := funext hcount
  subst htotal heq
  exact h

/-- The peers are no counter. -/
theorem of_same (h : Tallied b total count) (hwrapped : b'.wrapped = b.wrapped)
    (houtstanding : b'.outstanding = b.outstanding)
    (hclients : b'.outstandingByClient = b.outstandingByClient)
    (hremoval : b'.pendingRemoval = b.pendingRemoval) : Tallied b' total count where
  wrapped := hwrapped.trans h.wrapped
  outstanding := houtstanding.trans h.outstanding
  counted := by rw [hclients]; exact h.counted
  positive := by rw [hclients]; exact h.positive
  removal := by rw [hremoval]; exact h.removal

/-- The counts do not look at the peers. -/
theorem insertPeer (h : Tallied b total count) {message : Nat} {client : ClientId}
    {address : Bytes} {inserted : Int} {result : Except DmaError Nat}
    (hinsert : b.insertPeer message client address inserted = (b', result)) :
    Tallied b' total count := by
  cases hinsert
  exact h.of_same rfl rfl rfl rfl

/-- The counts do not look at the clone of an entry. -/
theorem dropPeer (h : Tallied b total count) (entry : Nat) :
    Tallied (b.dropPeer entry) total count := h.of_same rfl rfl rfl rfl

/-- `submit` counts one more. -/
theorem submit (h : Tallied b total count) :
    Tallied { b with outstanding := b.outstanding + 1 } (total + 1) count where
  wrapped := h.wrapped
  outstanding := congrArg (· + 1) h.outstanding
  counted := h.counted
  positive := h.positive
  removal := h.removal

/-- Taking back a count that was given does not saturate. -/
theorem releaseOutstanding (h : Tallied b (total + 1) count) :
    Tallied b.releaseOutstanding total count where
  wrapped := by
    show (b.wrapped || b.outstanding == 0) = false
    rw [h.wrapped, h.outstanding]
    rfl
  outstanding := by
    show b.outstanding - 1 = total
    rw [h.outstanding]
    rfl
  counted := h.counted
  positive := h.positive
  removal := h.removal

/-- Taking a transfer counts one more for its client. -/
theorem countOp (h : Tallied b total count) (client : ClientId) :
    Tallied (b.countOp client) total fun c => count c + if client = c then 1 else 0 where
  wrapped := h.wrapped
  outstanding := h.outstanding
  counted c := by
    -- The client's counter is one up, the others stay.
    have hc := h.counted c
    show ((b.outstandingByClient.insert client _).lookup c).getD 0 = _
    by_cases heq : c = client
    · subst heq
      rw [AList.lookup_insert, Option.getD_some, hc, if_pos rfl]
    · rw [AList.lookup_insert_ne heq, hc, if_neg (Ne.symm heq)]
      rfl
  positive c n hlookup := by
    change (b.outstandingByClient.insert client _).lookup c = some n at hlookup
    by_cases heq : c = client
    · subst heq
      rw [AList.lookup_insert] at hlookup
      cases hlookup
      exact Nat.succ_pos _
    · rw [AList.lookup_insert_ne heq] at hlookup
      exact h.positive c n hlookup
  removal c hc := by
    -- Whoever waits for a removal had an op already.
    have hpos := h.removal c hc
    omega

/-- A removal waits only for a client with ops. -/
theorem removeOrDefer (h : Tallied b total count) (client : ClientId) :
    Tallied (b.removeOrDefer client) total count := by
  unfold Books.removeOrDefer
  split
  · exact h.of_same rfl rfl rfl rfl
  · next hne =>
    refine ⟨h.wrapped, h.outstanding, h.counted, h.positive, fun c hc => ?_⟩
    rcases Finset.mem_insert.mp hc with rfl | hold
    · have hcount := h.counted c
      omega
    · exact h.removal c hold

end Tallied

/-- A client without ops leaves both tables. -/
theorem drained_spec (b : Books) (client : ClientId) :
    (b.drained client).wrapped = b.wrapped ∧ (b.drained client).outstanding = b.outstanding ∧
      (b.drained client).outstandingByClient = b.outstandingByClient.erase client ∧
      (b.drained client).pendingRemoval = b.pendingRemoval.erase client := by
  unfold drained
  dsimp only
  split
  · exact ⟨rfl, rfl, rfl, rfl⟩
  · next hnot => exact ⟨rfl, rfl, rfl, (Finset.erase_eq_of_notMem hnot).symm⟩

/-- `finish_op` for a client that is counted. -/
theorem finishOp_eq {b : Books} {client : ClientId} {n : Nat}
    (h : b.outstandingByClient.lookup client = some (n + 1)) :
    b.finishOp client =
      let b := { b.releaseOutstanding with
        outstandingByClient := b.outstandingByClient.insert client n
        wrapped := b.releaseOutstanding.wrapped || n + 1 == 0 }
      if 0 = n then b.drained client else b := by
  unfold finishOp
  have hlookup : b.releaseOutstanding.outstandingByClient.lookup client = some (n + 1) := h
  simp only [hlookup, Nat.add_sub_cancel]
  rfl

namespace Tallied

variable {b : Books} {total : Nat} {count : ClientId → Nat}

/-- A client with an op to finish has a counter. -/
theorem lookup_counted {client : ClientId}
    (h : Tallied b total fun c => count c + if client = c then 1 else 0) :
    b.outstandingByClient.lookup client = some (count client + 1) := by
  have hclient := h.counted client
  rw [if_pos rfl] at hclient
  cases hl : b.outstandingByClient.lookup client with
  | none =>
    rw [hl] at hclient
    cases hclient
  | some n =>
    rw [hl] at hclient
    exact congrArg some hclient

/-- Finishing an op that is counted takes it out of every counter. -/
theorem finishOp {client : ClientId}
    (h : Tallied b (total + 1) fun c => count c + if client = c then 1 else 0) :
    Tallied (b.finishOp client) total count := by
  have hlookup := h.lookup_counted
  have hreleased := h.releaseOutstanding
  have hwrapped : (b.releaseOutstanding.wrapped || count client + 1 == 0) = false := by
    rw [hreleased.wrapped]
    rfl
  -- What the other clients are counted for stays.
  have hother : ∀ c, c ≠ client → (b.outstandingByClient.lookup c).getD 0 = count c := by
    intro c hne
    have hc := h.counted c
    rw [if_neg (Ne.symm hne)] at hc
    exact hc
  have hremoval : ∀ c ∈ b.pendingRemoval, c ≠ client → 0 < count c := by
    intro c hc hne
    have hpos := h.removal c hc
    rw [if_neg (Ne.symm hne)] at hpos
    exact hpos
  rw [finishOp_eq hlookup]
  dsimp only
  split
  · next hzero =>
    -- The last op of its client.
    obtain ⟨hw, ho, hclients, hpending⟩ := drained_spec
      { b.releaseOutstanding with
        outstandingByClient := b.outstandingByClient.insert client (count client)
        wrapped := b.releaseOutstanding.wrapped || count client + 1 == 0 } client
    refine ⟨hw.trans hwrapped, ho.trans hreleased.outstanding, fun c => ?_, fun c n hc => ?_,
      fun c hc => ?_⟩
    · rw [hclients]
      by_cases heq : c = client
      · subst heq
        rw [AList.lookup_erase]
        exact hzero
      · rw [AList.lookup_erase_ne heq, AList.lookup_insert_ne heq]
        exact hother c heq
    · rw [hclients] at hc
      by_cases heq : c = client
      · subst heq
        rw [AList.lookup_erase] at hc
        cases hc
      · rw [AList.lookup_erase_ne heq, AList.lookup_insert_ne heq] at hc
        exact h.positive c n hc
    · rw [hpending] at hc
      exact hremoval c (Finset.mem_of_mem_erase hc) (Finset.ne_of_mem_erase hc)
  · next hne =>
    have hpos : 0 < count client := Nat.pos_of_ne_zero (Ne.symm hne)
    refine ⟨hwrapped, hreleased.outstanding, fun c => ?_, fun c n hc => ?_, fun c hc => ?_⟩
    · show ((b.outstandingByClient.insert client (count client)).lookup c).getD 0 = count c
      by_cases heq : c = client
      · subst heq
        rw [AList.lookup_insert]
        rfl
      · rw [AList.lookup_insert_ne heq]
        exact hother c heq
    · change (b.outstandingByClient.insert client (count client)).lookup c = some n at hc
      by_cases heq : c = client
      · subst heq
        rw [AList.lookup_insert] at hc
        cases hc
        exact hpos
      · rw [AList.lookup_insert_ne heq] at hc
        exact h.positive c n hc
    · by_cases heq : c = client
      · rw [heq]
        exact hpos
      · exact hremoval c hc heq

end Tallied

end Books

namespace State

/-- The number of transfers that were counted by `submit` and are not finished. -/
def unfinished (s : State T) : Nat :=
  s.callers.submitting.length + (transfers s.callers.channel).length + s.live fun _ => 1

/-- The number of ops that were taken in for a client and are not finished. -/
def unfinishedOf (s : State T) (client : ClientId) : Nat :=
  s.live fun op => if op.clientId = client then 1 else 0

/-- The number of a client's ops that are pending, posted or quiescing. -/
def opsOf (s : State T) (client : ClientId) : Nat :=
  (s.queues.pending.map Prepared.clientId).count client
    + (s.wire.posts.map PostedOp.client).count client
    + (s.queues.quiescing.map fun waiting => waiting.inflight.clientId).count client

end State

/-- How a move changes the books, and with them the ops that are not finished. -/
inductive BooksMove (s : State T) (m : Move T) (s' : State T) : Prop
  | keep (hbooks : s'.books = s.books) (htarget : s'.phase.target = s.phase.target)
      (htotal : s'.unfinished = s.unfinished) (hcount : ∀ c, s'.unfinishedOf c = s.unfinishedOf c)
  | submit (hbooks : s'.books = { s.books with outstanding := s.books.outstanding + 1 })
      (htarget : s'.phase.target = s.phase.target) (htotal : s'.unfinished = s.unfinished + 1)
      (hcount : ∀ c, s'.unfinishedOf c = s.unfinishedOf c)
  /-- A submitted transfer was not sent, or its operand did not resolve. -/
  | refuse (hbooks : s'.books = s.books.releaseOutstanding)
      (htarget : s'.phase.target = s.phase.target) (htotal : s.unfinished = s'.unfinished + 1)
      (hcount : ∀ c, s'.unfinishedOf c = s.unfinishedOf c)
  | accept (number : Nat) (request : TransferRequest (Tagged T))
      (hchannel : s.callers.channel.head? = some (number, .transfer request))
      (hbooks : s'.books = s.books.countOp request.clientId)
      (htarget : s'.phase.target = s.phase.target) (htotal : s'.unfinished = s.unfinished)
      (hcount : ∀ c, s'.unfinishedOf c
        = s.unfinishedOf c + if request.clientId = c then 1 else 0)
  | finish (client : ClientId) (hbooks : s'.books = s.books.finishOp client)
      (hops : ∀ c, s'.opsOf c = s.opsOf c) (hrest : s.phase.target = none)
      (htarget : s'.phase.target = none)
      (htotal : s.unfinished = s'.unfinished + 1)
      (hcount : ∀ c, s.unfinishedOf c = s'.unfinishedOf c + if client = c then 1 else 0)
  | remove (number : Nat) (client : ClientId)
      (hchannel : s.callers.channel.head? = some (number, .removePeer client))
      (hbooks : s'.books = s.books.removeOrDefer client)
      (hrest : s.phase.target = none) (htarget : s'.phase.target = none)
      (htotal : s'.unfinished = s.unfinished) (hcount : ∀ c, s'.unfinishedOf c = s.unfinishedOf c)
  /-- A peer was resolved for a post, which has a clone of its entry. -/
  | resolve (message : Nat) (client : ClientId) (address : Bytes) (inserted : Int) (entry : Nat)
      (hresolves : s.resolves m = some (message, client, address))
      (hinsert : s.books.insertPeer message client address inserted = (s'.books, .ok entry))
      (hrest : s.phase.target = none) (htarget : s'.phase.target = some (entry, client, address))
      (htotal : s'.unfinished = s.unfinished) (hcount : ∀ c, s'.unfinishedOf c = s.unfinishedOf c)
  /-- A peer was resolved for a hello, which drops the entry at once. -/
  | greet (message : Nat) (client : ClientId) (address : Bytes) (inserted : Int) (entry : Nat)
      (books : Books) (hchannel : s.callers.channel.head? = some (message, .addPeer client address))
      (hresolves : s.resolves m = some (message, client, address))
      (hinsert : s.books.insertPeer message client address inserted = (books, .ok entry))
      (hbooks : s'.books = books.dropPeer entry)
      (hrest : s.phase.target = none) (htarget : s'.phase.target = none)
      (htotal : s'.unfinished = s.unfinished) (hcount : ∀ c, s'.unfinishedOf c = s.unfinishedOf c)
  | unresolved (message : Nat) (client : ClientId) (address : Bytes) (inserted : Int)
      (error : DmaError) (hresolves : s.resolves m = some (message, client, address))
      (hinsert : s.books.insertPeer message client address inserted = (s'.books, .error error))
      (hrest : s.phase.target = none) (htarget : s'.phase.target = none)
      (htotal : s'.unfinished = s.unfinished) (hcount : ∀ c, s'.unfinishedOf c = s.unfinishedOf c)
  | drop (entry : Nat) (hphase : s.phase.peer = some entry)
      (hbooks : s'.books = s.books.dropPeer entry) (htarget : s'.phase.target = none)
      (htotal : s'.unfinished = s.unfinished) (hcount : ∀ c, s'.unfinishedOf c = s.unfinishedOf c)
  | clear (hloops : s.phase.loops = false)
      (hbooks : s'.books = { s.books with peers := s.books.peers.clear })
      (hrest : s.phase.target = none) (htarget : s'.phase.target = none)
      (htotal : s'.unfinished = s.unfinished) (hcount : ∀ c, s'.unfinishedOf c = s.unfinishedOf c)

/-- The ops that were taken in stay, whatever a move does to their other fields, and so do the
transfers that were not. -/
structure OpsStay (s s' : State T) : Prop where
  submitting : s'.callers.submitting = s.callers.submitting
  channel : s'.callers.channel = s.callers.channel
  live (f : ClientId → Nat) : (s'.live fun op => f op.clientId) = s.live fun op => f op.clientId

namespace OpsStay

variable {s s' : State T}

/-- The ops stay where neither the channel, the boxes nor the hand change. -/
theorem of_hand (hsubmitting : s'.callers.submitting = s.callers.submitting)
    (hchannel : s'.callers.channel = s.callers.channel) (hraw : s'.queues.raw = s.queues.raw)
    (hquiescing : s'.queues.quiescing = s.queues.quiescing)
    (hinHand : s'.phase.inHand = s.phase.inHand) : OpsStay s s' where
  submitting := hsubmitting
  channel := by rw [hchannel]
  live f := by simp only [State.live, hraw, hquiescing, hinHand]

/-- Ops that stay are counted as before. -/
theorem unfinished (h : OpsStay s s') : s'.unfinished = s.unfinished := by
  have hone := h.live fun _ => 1
  simp only [State.unfinished, h.submitting, h.channel, hone]

/-- Ops that stay are counted as before for each client. -/
theorem unfinishedOf (h : OpsStay s s') (c : ClientId) : s'.unfinishedOf c = s.unfinishedOf c :=
  h.live fun client => if client = c then 1 else 0

end OpsStay

namespace BooksMove

variable {s s' : State T} {m : Move T}

/-- A move that leaves books and ops. -/
theorem keep_of_opsStay (hbooks : s'.books = s.books) (htarget : s'.phase.target = s.phase.target)
    (hstay : OpsStay s s') : BooksMove s m s' :=
  .keep hbooks htarget hstay.unfinished hstay.unfinishedOf

/-- A move that drops the clone in hand, and leaves the ops. -/
theorem drop_of_opsStay {entry : Nat} (hphase : s.phase.peer = some entry)
    (hbooks : s'.books = s.books.dropPeer entry) (htarget : s'.phase.target = none)
    (hstay : OpsStay s s') : BooksMove s m s' :=
  .drop entry hphase hbooks htarget hstay.unfinished hstay.unfinishedOf

/-- A resolution that leaves the ops. -/
theorem resolve_of_opsStay {message : Nat} {client : ClientId} {address : Bytes} {inserted : Int}
    {entry : Nat} (hresolves : s.resolves m = some (message, client, address))
    (hinsert : s.books.insertPeer message client address inserted = (s'.books, .ok entry))
    (hrest : s.phase.target = none) (htarget : s'.phase.target = some (entry, client, address))
    (hstay : OpsStay s s') : BooksMove s m s' :=
  .resolve message client address inserted entry hresolves hinsert hrest htarget
    hstay.unfinished hstay.unfinishedOf

/-- A resolution that fails, and leaves the ops. -/
theorem unresolved_of_opsStay {message : Nat} {client : ClientId} {address : Bytes} {inserted : Int}
    {error : DmaError} (hresolves : s.resolves m = some (message, client, address))
    (hinsert : s.books.insertPeer message client address inserted = (s'.books, .error error))
    (hrest : s.phase.target = none) (htarget : s'.phase.target = none)
    (hstay : OpsStay s s') : BooksMove s m s' :=
  .unresolved message client address inserted error hresolves hinsert hrest htarget hstay.unfinished
    hstay.unfinishedOf

/-- An op that leaves the worker is one less, and one less of its client. -/
theorem finish_of_live {op : InFlight T} (hbooks : s'.books = s.books.finishOp op.clientId)
    (hops : ∀ c, s'.opsOf c = s.opsOf c) (hrest : s.phase.target = none)
    (htarget : s'.phase.target = none)
    (hsubmitting : s'.callers.submitting = s.callers.submitting)
    (hchannel : s'.callers.channel = s.callers.channel)
    (hlive : ∀ f : ClientId → Nat,
      (s.live fun op => f op.clientId) = (s'.live fun op => f op.clientId) + f op.clientId) :
    BooksMove s m s' := by
  have hone := hlive fun _ => 1
  refine .finish op.clientId hbooks hops hrest htarget ?_
    fun c => hlive fun client => if client = c then 1 else 0
  simp only [State.unfinished, hsubmitting, hchannel, hone]
  omega

end BooksMove

section
variable {setup : Setup} {s s' : State T} {m : Move T}

/-- Taking a message that is no transfer leaves the ops. -/
theorem unfinished_of_message {number : Nat} {message : WorkerMessage (Tagged T)}
    {channel : List (Nat × WorkerMessage (Tagged T))} (htakes : Takes s)
    (hchannel : s.callers.channel = (number, message) :: channel)
    (hmessage : ∀ request, message ≠ .transfer request) (hinHand : s'.phase.inHand = [])
    (hqueues : s'.queues = s.queues) (hsubmitting : s'.callers.submitting = s.callers.submitting)
    (hchannel' : s'.callers.channel = channel) : s'.unfinished = s.unfinished := by
  simp only [State.unfinished, State.live, hinHand, htakes.rests.inHand, hqueues, hsubmitting,
    hchannel, hchannel', transfers_other hmessage]

/-- Nor does it change whose they are. -/
theorem unfinishedOf_of_takes (htakes : Takes s) (hinHand : s'.phase.inHand = [])
    (hqueues : s'.queues = s.queues) (client : ClientId) :
    s'.unfinishedOf client = s.unfinishedOf client := by
  simp only [State.unfinishedOf, State.live, hinHand, htakes.rests.inHand, hqueues]

/-- What a message in its place at the head of the channel resolves. -/
theorem Takes.resolves (htakes : Takes s) {number : Nat} {client : ClientId} {address : Bytes}
    {channel : List (Nat × WorkerMessage (Tagged T))}
    (hchannel : s.callers.channel = (number, .addPeer client address) :: channel) (inserted : Int) :
    s.resolves (.worker (.avInsert inserted)) = some (number, client, address) := by
  cases htakes with
  | intake hphase => simp only [State.resolves, hphase, hchannel]
  | parking hphase hidle => simp only [State.resolves, hphase, hchannel]

variable [Operands T]

namespace BooksMove

/-- A transfer is counted when it is submitted, and when its channel is found closed it no longer
is. -/
theorem of_callers (hmove : MovesIn setup s .callers m s') : BooksMove s m s' := by
  cases hmove with
  | submit request hserving =>
    refine .submit rfl rfl ?_ fun _ => rfl
    simp only [State.unfinished, State.live, List.length_append, List.length_singleton]
    omega
  | send i request hi hphase =>
    have hlt : i < s.callers.submitting.length := (List.getElem?_eq_some_iff.mp hi).1
    refine .keep rfl rfl ?_ fun _ => rfl
    simp only [State.unfinished, State.live, transfers_append, transfers_cons_transfer,
      List.length_append, List.length_cons, List.length_eraseIdx, hlt, if_true]
    simp only [transfers, List.filterMap_nil, List.length_nil]
    omega
  | sendFails i request hi hphase =>
    have hlt : i < s.callers.submitting.length := (List.getElem?_eq_some_iff.mp hi).1
    refine .refuse rfl rfl ?_ fun _ => rfl
    simp only [State.unfinished, State.live, List.length_eraseIdx, hlt, if_true]
    omega
  | message message hserving hmessage =>
    refine .keep rfl rfl ?_ fun _ => rfl
    simp only [State.unfinished, State.live, State.enqueue, transfers_append,
      transfers_other hmessage]
    simp only [transfers, List.filterMap_nil, List.append_nil]
  | refused | dropService => exact .keep rfl rfl rfl fun _ => rfl

/-- A pin leaves the books. -/
theorem of_pinning (hmove : MovesIn setup s .pinning m s') : BooksMove s m s' := by
  cases hmove with
  | pinnedQuiesce base limit result phase hphase hnext =>
    rcases hnext with rfl | rfl
    all_goals
      exact .keep_of_opsStay rfl (by rw [hphase]; rfl)
        (.of_hand rfl rfl rfl rfl (by rw [hphase]; rfl))
  | _ =>
    exact .keep_of_opsStay rfl (by rw [‹s.phase = _›]; rfl)
      (.of_hand rfl rfl rfl rfl (by rw [‹s.phase = _›]; rfl))

/-- A message does to the books what it says. -/
theorem of_intake (ho : Owned s) (hmove : MovesIn setup s .intake m s') : BooksMove s m s' := by
  cases hmove with
  | accept number request channel op prepared htakes hchannel hprepare =>
    obtain ⟨-, hclient, -, hcontext, hclient', -⟩ := prepare_ok hprepare
    have hnone := ho.lookup_of_channel hchannel
    rw [← hcontext] at hnone
    have hrests := htakes.rests
    have hintake : (Phase.intake : Phase T).Rests := Phase.rests_intake
    -- The transfer leaves the channel and its box comes in.
    refine .accept number request (by rw [hchannel]; rfl) (congrArg s.books.countOp hclient')
      (hintake.target.trans hrests.target.symm) ?_ ?_
    · simp only [State.unfinished, State.live, State.popped, hchannel, transfers_cons_transfer,
        hrests.inHand, hintake.inHand, Assoc.weight_insert_of_none hnone, List.length_cons]
      omega
    · intro c
      simp only [State.unfinishedOf, State.live, hrests.inHand, hintake.inHand,
        Assoc.weight_insert_of_none hnone, hclient]
      omega
  | refuse number request channel completion htakes hchannel hprepare =>
    have hrests := htakes.rests
    have hintake : (Phase.intake : Phase T).Rests := Phase.rests_intake
    refine .refuse rfl (hintake.target.trans hrests.target.symm) ?_ ?_
    · simp only [State.unfinished, State.live, State.popped, hchannel, transfers_cons_transfer,
        hrests.inHand, hintake.inHand, List.length_cons]
      omega
    · intro c
      simp only [State.unfinishedOf, State.live, hrests.inHand, hintake.inHand]
  | addPeer number client address inserted entry channel books htakes hchannel hinsert =>
    exact .greet number client address inserted entry books (by rw [hchannel]; rfl)
      (htakes.resolves hchannel inserted) hinsert rfl htakes.rests.target rfl
      (unfinished_of_message htakes hchannel (by simp) rfl rfl rfl rfl)
      (unfinishedOf_of_takes htakes rfl rfl)
  | addPeerFails number client address inserted error channel books htakes hchannel hinsert =>
    exact .unresolved number client address inserted error (htakes.resolves hchannel inserted)
      hinsert htakes.rests.target rfl
      (unfinished_of_message htakes hchannel (by simp) rfl rfl rfl rfl)
      (unfinishedOf_of_takes htakes rfl rfl)
  | removePeer number client channel htakes hchannel =>
    exact .remove number client (by rw [hchannel]; rfl) rfl htakes.rests.target rfl
      (unfinished_of_message htakes hchannel (by simp) rfl rfl rfl rfl)
      (unfinishedOf_of_takes htakes rfl rfl)
  | pinMessage number base length channel htakes hchannel
  | nothingToPin number base length channel htakes hchannel =>
    exact .keep rfl htakes.rests.target.symm
      (unfinished_of_message htakes hchannel (by simp) rfl rfl rfl rfl)
      (unfinishedOf_of_takes htakes rfl rfl)

/-- An attempt resolves the peer of its op and drops it again. An op that fails is finished. -/
theorem of_posting (hmove : MovesIn setup s .posting m s') : BooksMove s m s' := by
  cases hmove with
  | attempt prepared pending inserted entry books hphase hpending hinsert =>
    refine .resolve_of_opsStay ?_ hinsert (by rw [hphase]; rfl) rfl
      (.of_hand rfl rfl rfl rfl (by rw [hphase]; rfl))
    simp only [State.resolves, hphase, hpending]
  | attemptFails prepared pending inserted error books hphase hpending hinsert =>
    refine .unresolved_of_opsStay ?_ hinsert (by rw [hphase]; rfl) rfl
      (.of_hand rfl rfl rfl rfl (by rw [hphase]; rfl))
    simp only [State.resolves, hphase, hpending]
  | operandFails prepared entry error hphase
  | requeued prepared entry operand since now hphase hclock
  | postFails prepared entry operand now error hphase hclock =>
    exact .drop_of_opsStay (by rw [hphase]; rfl) rfl rfl
      (.of_hand rfl rfl rfl rfl (by rw [hphase]; rfl))
  | posted prepared entry operand now op hphase hclock hraw =>
    refine .drop_of_opsStay (by rw [hphase]; rfl) rfl rfl ⟨rfl, rfl, fun f => ?_⟩
    have hinsert := Assoc.weight_insert_of_some hraw (fun op => f op.clientId)
      (State.posted op prepared operand.lease)
    have hposted : (State.posted op prepared operand.lease).clientId = op.clientId := rfl
    rw [hposted] at hinsert
    simp only [State.live, hphase, Phase.inHand]
    omega
  | failed prepared error op hphase hraw =>
    refine .finish_of_live rfl (fun _ => rfl) (by rw [hphase]; rfl) rfl rfl rfl fun f => ?_
    have hweight := Assoc.weight_of_lookup hraw fun op => f op.clientId
    simp only [State.live, hphase, Phase.inHand, hweight]
    omega
  | _ =>
    exact .keep_of_opsStay rfl (by rw [‹s.phase = _›]; rfl)
      (.of_hand rfl rfl rfl rfl (by rw [‹s.phase = _›]; rfl))

/-- A reaped op is finished, unless it has a read to wait for. -/
theorem of_reaping (hs : Settled s) (hmove : MovesIn setup s .reaping m s') : BooksMove s m s' := by
  cases hmove with
  | reap reaped wire hphase htake =>
    obtain ⟨claimed, hcontexts, hperm, -⟩ := Wire.take_spec htake
    have hclaimed : claimed.length = reaped.length := by simpa using congrArg List.length hcontexts
    have hlength := hperm.length_eq
    rw [List.length_append] at hlength
    have hinFlight := hs.inFlight
    -- No more is reaped than was in flight.
    have hnot : ¬s.pass.inFlight < reaped.length := by omega
    have hbooks : ({ s.books with
        wrapped := s.books.wrapped || decide (s.pass.inFlight < reaped.length) } : Books)
          = s.books := by
      rw [decide_eq_false hnot, Bool.or_false]
    refine .keep_of_opsStay hbooks (by rw [hphase]; rfl) ⟨rfl, rfl, fun f => ?_⟩
    simp only [State.live, hphase, Phase.inHand]
  | toQuiescing context reaped op read hphase hreaped hraw hquiesce =>
    refine .keep_of_opsStay rfl rfl ⟨rfl, rfl, fun f => ?_⟩
    have hweight := Assoc.weight_of_lookup hraw fun op => f op.clientId
    simp only [State.live, hweight, List.map_append, List.sum_append, List.map_cons, List.map_nil,
      List.sum_cons, List.sum_nil]
    omega
  | toCrc context result reaped op hphase hreaped hraw hquiesce
  | toCompletion context result reaped op hphase hreaped hraw hquiesce =>
    have hrest : s.phase.target = none := by rw [hphase]; rfl
    refine .finish_of_live rfl (fun _ => rfl) hrest hrest rfl rfl fun f => ?_
    have hweight := Assoc.weight_of_lookup hraw fun op => f op.clientId
    simp only [State.live, hweight]
    omega

/-- A read resolves its peer and drops it again. A write whose read fails is finished. -/
theorem of_quiescing (ho : Owned s) (hmove : MovesIn setup s .quiescing m s') :
    BooksMove s m s' := by
  cases hmove with
  | quiesce waiting quiescing inserted entry books hphase hquiescing hinsert =>
    refine .resolve_of_opsStay ?_ hinsert (by rw [hphase]; rfl) rfl ⟨rfl, rfl, fun f => ?_⟩
    · simp only [State.resolves, hphase, hquiescing]
    · simp only [State.live, hphase, Phase.inHand, hquiescing, List.map_cons, List.sum_cons,
        List.map_nil, List.sum_nil]
      omega
  | quiesceFails waiting quiescing inserted error books hphase hquiescing hinsert =>
    refine .unresolved_of_opsStay ?_ hinsert (by rw [hphase]; rfl) rfl ⟨rfl, rfl, fun f => ?_⟩
    · simp only [State.resolves, hphase, hquiescing]
    · simp only [State.live, hphase, Phase.inHand, hquiescing, List.map_cons, List.sum_cons,
        List.map_nil, List.sum_nil]
      omega
  | quiesced waiting entry operand now hphase hclock first =>
    have hhand : waiting.inflight ∈ s.phase.inHand := by rw [hphase]; exact .head _
    have hnone := ho.lookup_of_inHand hhand
    refine .drop_of_opsStay (by rw [hphase]; rfl) rfl rfl ⟨rfl, rfl, fun f => ?_⟩
    simp only [State.live, hphase, Phase.inHand, Assoc.weight_insert_of_none hnone, List.map_cons,
      List.sum_cons, List.map_nil, List.sum_nil]
    omega
  | requiesce waiting entry operand since now hphase hclock =>
    have hhand : waiting.inflight ∈ s.phase.inHand := by rw [hphase]; exact .head _
    have hnone := ho.lookup_of_inHand hhand
    refine .drop_of_opsStay (by rw [hphase]; rfl) rfl rfl ⟨rfl, rfl, fun f => ?_⟩
    simp only [State.live, hphase, Phase.inHand, Assoc.erase_insert_of_none hnone,
      List.map_append, List.sum_append, List.map_cons, List.sum_cons, List.map_nil, List.sum_nil]
    omega
  | quiescePostFails waiting entry operand now error hphase hclock =>
    have hhand : waiting.inflight ∈ s.phase.inHand := by rw [hphase]; exact .head _
    have hnone := ho.lookup_of_inHand hhand
    refine .drop_of_opsStay (by rw [hphase]; rfl) rfl rfl ⟨rfl, rfl, fun f => ?_⟩
    simp only [State.live, hphase, Phase.inHand, Assoc.erase_insert_of_none hnone, List.map_cons,
      List.sum_cons, List.map_nil, List.sum_nil]
  | quiesceOperandFails waiting entry error hphase =>
    exact .drop_of_opsStay (by rw [hphase]; rfl) rfl rfl
      (.of_hand rfl rfl rfl rfl (by rw [hphase]; rfl))
  | failedQuiesce op error hphase =>
    refine .finish_of_live rfl (fun _ => rfl) (by rw [hphase]; rfl) rfl rfl rfl fun f => ?_
    simp only [State.live, hphase, Phase.inHand, List.map_cons, List.sum_cons, List.map_nil,
      List.sum_nil]
    omega
  | _ =>
    exact .keep_of_opsStay rfl (by rw [‹s.phase = _›]; rfl)
      (.of_hand rfl rfl rfl rfl (by rw [‹s.phase = _›]; rfl))

/-- Past the loop the addresses are cleared. -/
theorem of_ending (hs : Settled s) (hmove : MovesIn setup s .ending m s') : BooksMove s m s' := by
  cases hmove with
  | leftover ops raw hphase hreclaim =>
    obtain ⟨rfl, rfl, -, -⟩ := hs.leftover hphase hreclaim
    exact .keep_of_opsStay rfl (by rw [hphase]; rfl)
      (.of_hand rfl rfl rfl rfl (by rw [hphase]; rfl))
  | drop cleared hphase =>
    refine .clear (by rw [hphase]; rfl) rfl (by rw [hphase]; rfl) rfl ?_ ?_
    · simp only [State.unfinished, State.live, hphase, Phase.inHand]
    · intro c
      simp only [State.unfinishedOf, State.live, hphase, Phase.inHand]
  | _ =>
    exact .keep_of_opsStay rfl (by rw [‹s.phase = _›]; rfl)
      (.of_hand rfl rfl rfl rfl (by rw [‹s.phase = _›]; rfl))

end BooksMove

/-- What every move does to the books. -/
theorem Moves.booksMove (hs : Settled s) (ho : Owned s) (hmove : Moves setup s m s') :
    BooksMove s m s' := by
  obtain ⟨part, hmove⟩ := hmove
  cases part with
  | callers => exact .of_callers hmove
  | others => cases hmove <;> exact .keep rfl rfl rfl fun _ => rfl
  | turning =>
    cases hmove with
    | turn hturn =>
      obtain ⟨hrests, hrests', -⟩ := hturn.rests
      exact .keep_of_opsStay rfl (hrests'.target.trans hrests.target.symm)
        (.of_hand rfl rfl rfl rfl (hrests'.inHand.trans hrests.inHand.symm))
  | pinning => exact .of_pinning hmove
  | intake => exact .of_intake ho hmove
  | posting => exact .of_posting hmove
  | reaping => exact .of_reaping hs hmove
  | quiescing => exact .of_quiescing ho hmove
  | ending => exact .of_ending hs hmove
  | dangling => exact (hmove.not_dangling hs ho.backed).elim

end

/-- The counters are right about the ops there are. -/
abbrev Accounted (s : State T) : Prop := s.books.Tallied s.unfinished s.unfinishedOf

/-- Every move keeps the counters right. -/
theorem Accounted.step {s s' : State T} {m : Move T} (h : Accounted s) (hmove : BooksMove s m s') :
    Accounted s' := by
  -- One case for each thing a move does to the books, with the lemma about the function that does
  -- it.
  cases hmove with
  | keep hbooks htarget htotal hcount =>
    show s'.books.Tallied _ _
    rw [hbooks]
    exact Books.Tallied.congr h htotal.symm fun c => (hcount c).symm
  | submit hbooks htarget htotal hcount =>
    show s'.books.Tallied _ _
    rw [hbooks]
    exact (Books.Tallied.submit h).congr htotal.symm fun c => (hcount c).symm
  | refuse hbooks htarget htotal hcount =>
    show s'.books.Tallied _ _
    rw [hbooks]
    exact Books.Tallied.releaseOutstanding (Books.Tallied.congr h htotal fun c => (hcount c).symm)
  | accept number request hchannel hbooks htarget htotal hcount =>
    show s'.books.Tallied _ _
    rw [hbooks]
    exact (Books.Tallied.countOp h request.clientId).congr htotal.symm fun c => (hcount c).symm
  | finish client hbooks hops hrest htarget htotal hcount =>
    show s'.books.Tallied _ _
    rw [hbooks]
    exact Books.Tallied.finishOp (Books.Tallied.congr h htotal hcount)
  | remove number client hchannel hbooks hrest htarget htotal hcount =>
    show s'.books.Tallied _ _
    rw [hbooks]
    exact (Books.Tallied.removeOrDefer h client).congr htotal.symm fun c => (hcount c).symm
  | resolve message client address inserted entry hresolves hinsert hrest htarget htotal hcount
  | unresolved message client address inserted error hresolves hinsert hrest htarget htotal
      hcount =>
    exact (Books.Tallied.insertPeer h hinsert).congr htotal.symm fun c => (hcount c).symm
  | greet message client address inserted entry books hchannel hresolves hinsert hbooks hrest
      htarget htotal hcount =>
    show s'.books.Tallied _ _
    rw [hbooks]
    exact ((Books.Tallied.insertPeer h hinsert).dropPeer entry).congr htotal.symm
      fun c => (hcount c).symm
  | drop entry hphase hbooks htarget htotal hcount =>
    show s'.books.Tallied _ _
    rw [hbooks]
    exact (Books.Tallied.dropPeer h entry).congr htotal.symm fun c => (hcount c).symm
  | clear hloops hbooks hrest htarget htotal hcount =>
    -- Clearing the addresses leaves every count.
    have hclear : ({ s.books with peers := s.books.peers.clear } : Books).Tallied s.unfinished
        s.unfinishedOf := Books.Tallied.of_same h rfl rfl rfl rfl
    show s'.books.Tallied _ _
    rw [hbooks]
    exact hclear.congr htotal.symm fun c => (hcount c).symm

/-- In every run the counters are right. -/
theorem accounted_reach [Operands T] {setup : Setup} {ok : State T → Move T → Prop} {s : State T}
    (h : (service T setup).Reach ok s) : Accounted s := by
  refine service_invariant (J := fun s => Settled s ∧ Owned s) (I := Accounted)
    (fun s hs => owned_reach hs) (Books.Tallied.start setup.device.format) ?_ h
  intro s m s' hs hs' hok hmove hbooks
  exact hbooks.step (hmove.booksMove hs.1 hs.2)

namespace State

/-- The number of transfers that `accept` refused or `finish_op` finished: they wait for
their hash, are staged, or were delivered. -/
def finishedOps (s : State T) : Nat := s.hashing (fun _ => 1) + s.finished fun _ => 1

end State

/-- The boxes behind pointers that are a client's are those of its pending and its posted ops,
and of what is in hand or reaped. -/
theorem weight_split [Operands T] {setup : Setup} {s : State T} (ho : Owned s)
    (hb : Boxed setup s) (client : ClientId) :
    ∃ rest, Assoc.weight (fun op => if op.clientId = client then 1 else 0) s.queues.raw
        = (s.queues.pending.map Prepared.clientId).count client
          + (s.wire.posts.map PostedOp.client).count client + rest ∧
      (s.phase.prepared = [] → s.queues.reaped = [] → rest = 0) := by
  -- The client of the box behind a pointer.
  let owner : Nat → Nat := fun context =>
    if (s.queues.raw.lookup context).map InFlight.clientId = some client then 1 else 0
  have hboxes : Assoc.weight (fun op => owner op.number) s.queues.raw
      = Assoc.weight (fun op => if op.clientId = client then 1 else 0) s.queues.raw := by
    refine Assoc.weight_congr fun op hop => ?_
    obtain ⟨context, hlookup⟩ := Assoc.mem_values_iff.mp hop
    simp only [owner, ho.named context op hlookup, hlookup, Option.map_some, Option.some.injEq]
  have hpending : (s.queues.pending.map fun p => owner p.context)
      = s.queues.pending.map fun p => if p.clientId = client then 1 else 0 := by
    refine List.map_congr_left fun p hp => ?_
    obtain ⟨op, hlookup, hclient⟩ := hb.prepared p (List.mem_append_left _ hp)
    simp only [owner, hlookup, hclient, Option.map_some, Option.some.injEq]
  have hposts : (s.wire.posts.map fun post => owner post.context)
      = s.wire.posts.map fun post => if post.client = client then 1 else 0 := by
    refine List.map_congr_left fun post hpost => ?_
    obtain ⟨op, hlookup, hmatches⟩ := hb.posts post hpost
    simp only [owner, hlookup, hmatches.client, Option.map_some, Option.some.injEq]
  have hpointed := ho.pointed owner
  have hqueued := sum_indicator Prepared.clientId client s.queues.pending
  have hposted := sum_indicator PostedOp.client client s.wire.posts
  simp only [State.pointers, hpending, hposts, hboxes, hqueued, hposted] at hpointed
  refine ⟨(s.phase.prepared.map fun p => owner p.context).sum
    + (s.queues.reaped.map fun r => owner r.1).sum, by omega, fun hprepared hreaped => ?_⟩
  rw [hprepared, hreaped]
  rfl

/-- With nothing in hand, the boxes behind pointers are those of the pending and the posted
ops. -/
theorem weight_eq_queued [Operands T] {setup : Setup} {s : State T} (ho : Owned s)
    (hb : Boxed setup s) (hprepared : s.phase.prepared = []) (hreaped : s.queues.reaped = [])
    (client : ClientId) :
    Assoc.weight (fun op => if op.clientId = client then 1 else 0) s.queues.raw
      = (s.queues.pending.map Prepared.clientId).count client
        + (s.wire.posts.map PostedOp.client).count client := by
  obtain ⟨rest, hweight, hrest⟩ := weight_split ho hb client
  have hzero := hrest hprepared hreaped
  omega

/-- Pending, posted and quiescing ops are not finished. -/
theorem opsOf_le_unfinishedOf [Operands T] {setup : Setup} {s : State T} (ho : Owned s)
    (hb : Boxed setup s) (client : ClientId) : s.opsOf client ≤ s.unfinishedOf client := by
  obtain ⟨rest, hweight, -⟩ := weight_split ho hb client
  have hquiescing := sum_indicator (fun waiting : Quiescing T => waiting.inflight.clientId)
    client s.queues.quiescing
  simp only [State.opsOf, State.unfinishedOf, State.live, hweight, hquiescing]
  omega

/-- The same, counted without regard to clients. -/
theorem weight_eq_length [Operands T] {s : State T} (ho : Owned s)
    (hprepared : s.phase.prepared = []) (hreaped : s.queues.reaped = []) :
    Assoc.weight (fun _ => 1) s.queues.raw = s.queues.pending.length + s.wire.posts.length := by
  have hpointed := ho.pointed fun _ => 1
  simp only [State.pointers, hprepared, hreaped, List.map_nil, List.sum_nil, sum_map_one]
    at hpointed
  omega

/-- The counters of the worker. No subtraction ever wrapped or saturated. The shared tally
is the number of transfers submitted and not finished. At the head of the loop `in_flight`
counts the posted ops, and the tables of clients are right about the ops of each client. -/
theorem worker_accounts [Operands T] {setup : Setup} {s : State T}
    (h : (service T setup).Reachable s) :
    s.books.wrapped = false ∧
    s.books.outstanding + s.finishedOps
      = s.callers.submitting.length + s.callers.sent.length ∧
    (s.phase = .intake →
      s.pass.inFlight = s.wire.posts.length ∧
      (∀ client, (s.books.outstandingByClient.lookup client).getD 0 = s.opsOf client) ∧
      (∀ client, client ∈ s.books.outstandingByClient ↔ 0 < s.opsOf client) ∧
      (∀ client ∈ s.books.pendingRemoval, client ∈ s.books.outstandingByClient) ∧
      s.books.outstanding = s.callers.submitting.length
        + (transfers s.callers.channel).length + s.queues.pending.length + s.wire.posts.length
        + s.queues.quiescing.length) := by
  obtain ⟨hs, ho⟩ := owned_reach h
  have hb := boxed_reach h
  have hbooks := accounted_reach h
  refine ⟨hbooks.wrapped, ?_, fun hphase => ?_⟩
  · -- Each transfer that was sent is in one place.
    have htickets := ho.tickets fun _ => 1
    have houtstanding := hbooks.outstanding
    simp only [State.owners, sum_map_one] at htickets
    simp only [State.unfinished] at houtstanding
    simp only [State.finishedOps]
    omega
  · -- At the start of a pass nothing is in hand and nothing reaped waits.
    have hprepared : s.phase.prepared = [] := by rw [hphase]; rfl
    have hinHand : s.phase.inHand = [] := by rw [hphase]; rfl
    have hreaped := hs.reaped (by simp [hphase])
    have hcounted : ∀ client,
        (s.books.outstandingByClient.lookup client).getD 0 = s.opsOf client := by
      intro client
      have hweight := weight_eq_queued ho hb hprepared hreaped client
      have hquiescing := sum_indicator (fun waiting : Quiescing T => waiting.inflight.clientId)
        client s.queues.quiescing
      rw [hbooks.counted client]
      simp only [State.unfinishedOf, State.live, hinHand, hweight, hquiescing, State.opsOf,
        List.map_nil, List.sum_nil, Nat.add_zero]
    -- A client has an entry exactly when its count is positive: the entry goes with the last op.
    have hkeys : ∀ client, client ∈ s.books.outstandingByClient ↔ 0 < s.opsOf client := by
      intro client
      have hclient := hcounted client
      rw [← AList.lookup_isSome]
      cases hlookup : s.books.outstandingByClient.lookup client with
      | none =>
        rw [hlookup] at hclient
        simp only [Option.isSome_none, Option.getD_none] at hclient ⊢
        simp [← hclient]
      | some n =>
        have hpos := hbooks.positive client n hlookup
        rw [hlookup, Option.getD_some] at hclient
        simp only [Option.isSome_some, true_iff]
        omega
    refine ⟨hs.inFlight, hcounted, hkeys, fun client hclient => ?_, ?_⟩
    · rw [hkeys, ← hcounted, hbooks.counted]
      exact hbooks.removal client hclient
    · have hweight := weight_eq_length ho hprepared hreaped
      rw [hbooks.outstanding]
      simp only [State.unfinished, State.live, hinHand, hweight, sum_map_one, List.map_nil,
        List.sum_nil]
      omega

/-! ### A run -/

/-- A caller context over a buffer, which it sends from or lands in. -/
structure Buffer where
  pointer : Nat
  length : Nat

instance : Operands Buffer where
  source buffer := some ⟨buffer.pointer, buffer.length⟩
  allocate buffer _ := (some ⟨buffer.pointer, buffer.length⟩, buffer)

/-- An EFA service that quiesces its writes. -/
def bufferSetup : Setup where
  configuration := ⟨true, none, 1000000000⟩
  device := ⟨7, true, 0, .efa⟩
  lib := default
  checksum := fun _ => 0
  quiescePointer := 65536

/-- The worker pins its quiesce buffer and is ready. -/
def startUp : List (Move Buffer) :=
  [.worker .none, .worker (.region (.mrReg 0)), .worker (.region .none), .worker (.region .none),
    .worker (.region .none), .worker .none, .worker (.address (.ok []))]

/-- A write of 64 bytes to a peer. -/
def writeTo (client : ClientId) (address : Bytes) (wantChecksum : Bool) (pointer : Nat) :
    TransferRequest Buffer :=
  ⟨client, address, 9, 8192, .toPeer, wantChecksum, ⟨pointer, 64⟩⟩

/-- A transfer is submitted, taken in and posted, from a buffer with no cacheable span. -/
def postWrite (request : TransferRequest Buffer) : List (Move Buffer) :=
  [.submit request, .send 0, .worker .none, .worker .none, .worker (.avInsert 1),
    .worker (.region .none), .worker (.region (.span none)), .worker (.region (.mrReg 0)),
    .worker (.rma 0 0 0)]

/-- The rest of a pass in which nothing is reaped. -/
def reapNothing : List (Move Buffer) :=
  [.worker .none, .worker (.cq [.code (-11)]), .worker .none, .worker .none, .worker .none,
    .worker .none, .worker .none]

/-- The counters at the head of the second pass, with one write in flight and one transfer in
the channel. -/
theorem worker_accounts_posted :
    ∃ s, (service Buffer bufferSetup).run (State.start bufferSetup)
        (startUp ++ postWrite (writeTo 1 (List.replicate 32 254) false 4096) ++ reapNothing
          ++ [.submit (writeTo 2 [] true 4096), .send 0]) = some s ∧
      s.pass.inFlight = 1 ∧ s.books.outstanding = 2 ∧ s.opsOf 1 = 1 ∧
      1 ∈ s.books.outstandingByClient := by
  obtain ⟨s, hrun, hphase, hinFlight, houtstanding, hops⟩ :
      ∃ s, (service Buffer bufferSetup).run (State.start bufferSetup)
          (startUp ++ postWrite (writeTo 1 (List.replicate 32 254) false 4096) ++ reapNothing
            ++ [.submit (writeTo 2 [] true 4096), .send 0]) = some s ∧
        s.phase = .intake ∧ s.pass.inFlight = 1 ∧ s.books.outstanding = 2 ∧ s.opsOf 1 = 1 :=
    ⟨_, rfl, rfl, rfl, rfl, by decide +kernel⟩
  have haccounts := worker_accounts (Machine.reach_run rfl _ hrun)
  refine ⟨s, hrun, hinFlight, houtstanding, hops, ?_⟩
  exact ((haccounts.2.2 hphase).2.2.1 1).mpr (by rw [hops]; decide)

end Vdma.Fabric
