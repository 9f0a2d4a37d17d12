import Vdma.Proofs.Worker.Traced

/-!
# `Vdma.Proofs.Worker.Entries`: entries and the ops posted against them

An op in flight holds no clone of its entry. `Anchored` says what keeps the entry in the
vector: the op's client holds it, or a superseding address evicted it. A removal waits for
the client's ops. A resolution does not: a client that asks for another slot lets go of
the entry its posted ops still use (`entry_removed_early`).

Addresses are resolved when an op is posted and not when its message arrives, and the one
resolved last stays. So an old message that is posted late takes the slot back from its
successor (`successor_evicted`).
-/

set_option autoImplicit false

namespace Vdma.Fabric

open Vdma.Lib

variable {T : Type}

namespace PeerAddresses

/-- An address that `handle` accepts is of the slot of an entry. -/
def SameSlot (p : PeerAddresses) (entry : Nat) (address : Bytes) : Prop :=
  match p.handles.cells[entry]?, p.format.identityLen address with
  | some r, .ok _ => p.format.identity r.address = p.format.identity address
  | _, _ => True

instance (p : PeerAddresses) (entry : Nat) (address : Bytes) :
    Decidable (p.SameSlot entry address) := by
  unfold SameSlot
  split <;> infer_instance

/-- A client that asks for the slot of its entry keeps it, unless the entry is superseded. -/
theorem lookup_handle_of_sameSlot {p : PeerAddresses} (h : p.Sound fun _ => 0) {c : ClientId}
    {address : Bytes} {inserted : Int} {i : Nat} (hc : p.byClient.lookup c = some i)
    (hslot : p.SameSlot i address) :
    (p.handle c address inserted).1.byClient.lookup c = some i ∨
      p.supersededBy address = some i := by
  cases hlength : p.format.identityLen address with
  | error error =>
    left
    simp only [handle, hlength]
    exact hc
  | ok length =>
    -- An entry that a client holds was made.
    have hpos := holders_pos_iff.mpr ⟨c, hc⟩
    have hopen := (h.open_iff i).mpr (Nat.lt_of_lt_of_eq hpos (Nat.add_zero _).symm)
    have hcell := List.getElem?_eq_getElem hopen.1
    refine h.lookup_handle_self hc hcell ?_
    rw [SameSlot, hcell, hlength] at hslot
    exact hslot

end PeerAddresses

/-! ### Posted ops -/

namespace State

/-- A move that resolves an address for a client whose posted ops use the entry it holds asks
for the slot of that entry. -/
def KeepsSlot (s : State T) (m : Move T) : Prop :=
  match s.resolves m with
  | some (_, client, address) =>
    ∀ post ∈ s.wire.posts, post.client = client →
      s.books.peers.byClient.lookup client = some post.entry →
        s.books.peers.SameSlot post.entry address
  | none => True

instance (s : State T) (m : Move T) : Decidable (s.KeepsSlot m) := by
  unfold KeepsSlot
  split <;> infer_instance

end State

/-- The entry of a posted op is held by the op's client, or was evicted. -/
def Anchored (s : State T) : Prop :=
  ∀ post ∈ s.wire.posts, s.books.peers.byClient.lookup post.client = some post.entry ∨
    ∃ e ∈ s.books.evictions, e.entry = post.entry

/-- A client with a posted op has an op. -/
theorem opsOf_pos_of_post {s : State T} {post : PostedOp} (hpost : post ∈ s.wire.posts) :
    0 < s.opsOf post.client := by
  have hcount : 0 < (s.wire.posts.map PostedOp.client).count post.client :=
    List.count_pos_iff.mpr (List.mem_map_of_mem hpost)
  unfold State.opsOf
  omega

section
variable [Operands T] {setup : Setup} {s s' : State T} {m : Move T}

/-- Posted ops stay anchored through a move that keeps the slots of their clients. -/
theorem Anchored.step (h : Anchored s) (hs : Invariants setup s) (hs' : Invariants setup s')
    (haimed : Aimed s) (hok : s.KeepsSlot m) (hmove : Moves setup s m s') : Anchored s' := by
  intro post hpost
  have hbooks := hmove.booksMove hs.settled hs.owned
  -- The post was on the wire, or is made for the peer of the op in hand.
  rcases (hmove.wireMove hs.settled hs.owned).mem_posts hpost with hold | ⟨address, htarget⟩
  · rcases h post hold with hheld | ⟨e, he, hentry⟩
    · rcases hbooks.hold hs hs' (opsOf_pos_of_post hold) with hsame | ⟨hsound, message, client,
        address, inserted, hresolves, hclients, hevictions⟩
      · exact .inl (hsame.trans hheld)
      · -- The entry is superseded, or the client keeps it.
        have hkept : (s.books.peers.handle client address inserted).1.byClient.lookup post.client
              = some post.entry ∨ s.books.peers.supersededBy address = some post.entry := by
          -- The message is this client's, and the condition is on its address; or another's, and
          -- takes the entry only by superseding it.
          by_cases hclient : post.client = client
          · rw [State.KeepsSlot, hresolves] at hok
            rw [hclient] at hheld ⊢
            exact PeerAddresses.lookup_handle_of_sameSlot hsound hheld
              (hok post hold hclient hheld)
          · rcases s.books.peers.lookup_handle_ne hclient address inserted with hsame |
              ⟨-, stale, hstale, hstale'⟩
            · exact .inl (hsame.trans hheld)
            · right
              rw [hheld] at hstale'
              cases hstale'
              exact hstale
        rcases hkept with hkept | hsuperseded
        · left
          rw [hclients]
          exact hkept
        · exact .inr ⟨_, hevictions _ hsuperseded, rfl⟩
    · exact .inr ⟨e, hbooks.evictions_subset hs.accounted he, hentry⟩
  · -- A post that is new goes to the entry its client holds.
    left
    rw [hbooks.byClient_of_target (by rw [htarget]; nofun)]
    exact (haimed _ _ _ htarget).2

/-- In every run that keeps its slots, the posts are anchored. -/
theorem anchored_reach (h : (service T setup).Reach State.KeepsSlot s) : Anchored s := by
  refine service_invariant (J := fun s => Invariants setup s ∧ Aimed s) (I := Anchored)
    (fun s hs => ⟨invariants_reach hs, aimed_reach hs⟩) ?_ ?_ h
  · intro post hpost
    cases hpost
  · intro s m s' hs hs' hok hmove hanchored
    exact hanchored.step hs.1 hs'.1 hs.2 hok hmove

end

/-- In every run whose clients ask for no other slot while ops are posted against the entry
they hold, an entry is removed before an op posted against it is reaped only for another
address of its slot, that supersedes it. -/
theorem entry_outlives_posts [Operands T] {setup : Setup} {s : State T}
    (h : (service T setup).Reach State.KeepsSlot s) {post : PostedOp} (hpost : post ∈ s.wire.posts)
    (hdropped : post.entry ∈ s.books.peers.handles.dropped) :
    ∃ e ∈ s.books.evictions, e.entry = post.entry ∧
      ∃ r, s.books.peers.handles.cells[post.entry]? = some r ∧
        setup.device.format.identity r.address = setup.device.format.identity e.address ∧
        r.address ≠ e.address := by
  have hpeered := peered_reach h
  rcases anchored_reach h post hpost with hheld | ⟨e, he, hentry⟩
  · -- What a client holds is in the vector.
    have hpos := PeerAddresses.holders_pos_iff.mpr ⟨_, hheld⟩
    have hopen := (hpeered.sound.open_iff post.entry).mpr (by omega)
    exact absurd hdropped hopen.2
  · obtain ⟨-, r, hr, hslot⟩ := hpeered.evicted e he
    rw [hentry] at hr
    exact ⟨e, he, hentry, r, hr, hslot⟩

/-- Client 1 has a write posted against its entry, and the worker is back at its channel. -/
def postFirst : List (Move Buffer) :=
  startUp ++ postWrite (writeTo 1 (List.replicate 32 254) false 4096) ++ reapNothing

/-- A hello. -/
def greetWith (client : ClientId) (address : Bytes) : List (Move Buffer) :=
  [.addPeer client address, .worker (.avInsert 1)]

/-- The next incarnation of the first address. -/
def reborn : Bytes := List.replicate 18 254 ++ List.replicate 14 0

/-- Another client's hello supersedes the entry of the posted write. -/
theorem entry_outlives_posts_superseded :
    ∃ s, (service Buffer bufferSetup).run (State.start bufferSetup)
        (postFirst ++ greetWith 2 reborn) = some s ∧
      ∃ post ∈ s.wire.posts, post.entry ∈ s.books.peers.handles.dropped ∧
        ∃ e ∈ s.books.evictions, e.entry = post.entry := by
  obtain ⟨s, hrun, hok, hposts⟩ : ∃ s, (service Buffer bufferSetup).run
        (State.start bufferSetup) (postFirst ++ greetWith 2 reborn) = some s ∧
      (service Buffer bufferSetup).Obeys State.KeepsSlot (State.start bufferSetup)
        (postFirst ++ greetWith 2 reborn) ∧
      ∃ post ∈ s.wire.posts, post.entry ∈ s.books.peers.handles.dropped :=
    ⟨_, rfl, by decide +kernel, by decide +kernel⟩
  obtain ⟨post, hpost, hdropped⟩ := hposts
  have hreach := (Machine.Reach.init rfl).run hok hrun
  obtain ⟨e, he, hentry, -⟩ := entry_outlives_posts hreach hpost hdropped
  exact ⟨s, hrun, post, hpost, hdropped, e, he, hentry⟩

/-- The client moves to another slot while its write is posted. Its entry is removed under the
write, and nothing superseded it. -/
theorem entry_removed_early :
    ∃ s, (service Buffer bufferSetup).run (State.start bufferSetup)
        (postFirst ++ greetWith 1 (List.replicate 32 1)) = some s ∧
      (∃ post ∈ s.wire.posts, post.entry ∈ s.books.peers.handles.dropped) ∧
      s.books.evictions = [] :=
  ⟨_, rfl, by decide +kernel, by decide +kernel⟩

/-! ### Incarnations of a slot -/

instance (p : PeerAddresses) (address : Bytes) (i : Nat) : Decidable (p.Supersedes address i) :=
  match h : p.handles.cells[i]? with
  | none => .isFalse fun ⟨_, hr, _⟩ => by simp [h] at hr
  | some r =>
    decidable_of_iff (p.format.identity r.address = p.format.identity address ∧ r.address ≠ address)
      (by simp [PeerAddresses.Supersedes, h])

namespace PeerAddresses

/-- `handle` accepts the length of an address. -/
def Accepts (p : PeerAddresses) (address : Bytes) : Prop :=
  (p.format.identityLen address).isOk = true

instance (p : PeerAddresses) (address : Bytes) : Decidable (p.Accepts address) :=
  inferInstanceAs (Decidable (_ = _))

/-- What `handle` evicts for an address that it accepts is the live entry of the slot that has
other bytes. -/
theorem supersededBy_iff {p : PeerAddresses} (h : p.Sound fun _ => 0) {address : Bytes} {i : Nat} :
    p.supersededBy address = some i ↔
      p.Accepts address ∧ p.Supersedes address i ∧ p.handles.Open i := by
  constructor
  · intro hstale
    refine ⟨?_, h.supersedes hstale⟩
    unfold supersededBy at hstale
    unfold Accepts
    split at hstale
    · cases hstale
    · next length hlength =>
      rw [hlength]
      rfl
  · rintro ⟨haccepts, ⟨r, hr, hslot, hbytes⟩, hopen⟩
    -- The index finds every live entry, and these bytes are others.
    have hfound := h.indexed i r hopen hr
    have hpos : 0 < p.handles.strong i := (h.strong_pos_iff i).mpr ((h.open_iff i).mp hopen)
    unfold Accepts at haccepts
    unfold supersededBy
    split
    · next error herror =>
      rw [herror] at haccepts
      cases haccepts
    · next length hlength =>
      have hheld : p.held (address.take length) address = some (false, i) := by
        rw [AddressFormat.take_identityLen hlength, held, ← hslot, hfound]
        simp only [hpos, if_true, hbytes, decide_false]
      rw [hheld]

end PeerAddresses

namespace State

/-- A move that resolves an address, of a length that `handle` accepts, finds no live entry of its
slot that has other bytes and that a later message's address was resolved to. -/
def ResolvesInOrder (s : State T) (m : Move T) : Prop :=
  match s.resolves m with
  | some (message, _, address) =>
    s.books.peers.Accepts address → ∀ r ∈ s.books.resolutions, message < r.message →
      s.books.peers.Supersedes address r.entry → r.entry ∈ s.books.peers.handles.dropped
  | none => True

instance (s : State T) (m : Move T) : Decidable (s.ResolvesInOrder m) := by
  unfold ResolvesInOrder
  split <;> infer_instance

end State

namespace Books

/-- No entry was evicted for an address of an earlier message than one it was resolved for. -/
def InOrder (b : Books) : Prop :=
  ∀ e ∈ b.evictions, ∀ r ∈ b.resolutions, r.entry = e.entry → ¬e.message < r.message

/-- What was resolved is live, and what was evicted is not. -/
theorem Peered.resolved_open {format : AddressFormat} {b b' : Books} {message : Nat}
    {client : ClientId} {address : Bytes} {inserted : Int} {entry : Nat}
    (h : Peered format b fun _ => 0)
    (hinsert : b.insertPeer message client address inserted = (b', .ok entry)) :
    ∀ e ∈ b'.evictions, e.entry ≠ entry := by
  rintro e he rfl
  obtain ⟨hpeered, -, -⟩ := h.insertPeer_ok hinsert
  have hopen := (hpeered.sound.open_iff e.entry).mpr (by simp [PeerAddresses.one])
  exact absurd (hpeered.evicted e he).1 hopen.2

/-- A resolution keeps the order, when the entry that it evicts was resolved for no later message.
-/
theorem InOrder.insertPeer {format : AddressFormat} {b b' : Books} {message : Nat}
    {client : ClientId} {address : Bytes} {inserted : Int} {result : Except DmaError Nat}
    (h : InOrder b) (hpeered : Peered format b fun _ => 0)
    (horder : b.peers.Accepts address → ∀ r ∈ b.resolutions, message < r.message →
      b.peers.Supersedes address r.entry → r.entry ∈ b.peers.handles.dropped)
    (hinsert : b.insertPeer message client address inserted = (b', result)) : InOrder b' := by
  intro e he r hr hentry
  rcases (mem_resolutions hinsert r).mp hr with hold | ⟨entry, rfl, rfl⟩
  · rcases (mem_evictions hinsert e).mp he with hpast | ⟨stale, hstale, rfl⟩
    · exact h e hpast r hold hentry
    · -- The evicted entry was live, so no later message resolved to it.
      intro hlater
      obtain ⟨haccepts, hsupersedes, hopen⟩ :=
        (PeerAddresses.supersededBy_iff hpeered.sound).mp hstale
      rw [← show r.entry = stale from hentry] at hsupersedes hopen
      exact hopen.2 (horder haccepts r hold hlater hsupersedes)
  · exact absurd hentry.symm (hpeered.resolved_open hinsert e he)

end Books

/-- Every move that resolves in order keeps the order. -/
theorem inOrder_step {setup : Setup} {s s' : State T} {m : Move T} (h : s.books.InOrder)
    (hpeered : Peered setup s) (hbooks : Accounted s) (hok : s.ResolvesInOrder m)
    (hmove : BooksMove s m s') : s'.books.InOrder := by
  -- What leaves the two records alone keeps the order.
  have hsame : s'.books.evictions = s.books.evictions →
      s'.books.resolutions = s.books.resolutions → s'.books.InOrder := by
    intro hevictions hresolutions
    unfold Books.InOrder
    rw [hevictions, hresolutions]
    exact h
  -- What resolves an address is what the condition is about.
  have hresolution : ∀ {message client address inserted result} {books : Books},
      s.resolves m = some (message, client, address) →
      s.books.insertPeer message client address inserted = (books, result) →
      s.phase.target = none → books.InOrder := by
    intro message client address inserted result books hresolves hinsert hrest
    rw [State.ResolvesInOrder, hresolves] at hok
    exact h.insertPeer (Books.Peered.congr hpeered (State.clones_none hrest)) hok hinsert
  cases hmove with
  | keep hb | submit hb | clear hloops hb => exact hsame (by rw [hb]) (by rw [hb])
  | refuse hb | accept number request hchannel hb | drop entry hphase hb =>
    exact hsame (by rw [hb]; rfl) (by rw [hb]; rfl)
  | finish client hb hops hrest htarget htotal hcount =>
    obtain ⟨hresolutions, hevictions, -⟩ :=
      (Books.Tallied.congr hbooks htotal hcount).finishOp_past
    exact hsame (by rw [hb, hevictions]) (by rw [hb, hresolutions])
  | remove number client hchannel hb =>
    obtain ⟨hresolutions, hevictions, -⟩ := s.books.removeOrDefer_past client
    exact hsame (by rw [hb, hevictions]) (by rw [hb, hresolutions])
  | resolve message client address inserted entry hresolves hinsert hrest
  | unresolved message client address inserted error hresolves hinsert hrest =>
    exact hresolution hresolves hinsert hrest
  | greet message client address inserted entry books hchannel hresolves hinsert hb hrest =>
    have hbooks' := hresolution hresolves hinsert hrest
    rw [hb]
    exact hbooks'

section
variable [Operands T] {setup : Setup} {s s' : State T} {m : Move T} {message : Nat}
  {client : ClientId} {address : Bytes} {inserted : Int}

/-- The past of the books after `insert_peer`. -/
def Books.Resolved (b : Books) (message : Nat) (client : ClientId) (address : Bytes)
    (inserted : Int) (b' : Books) : Prop :=
  b'.resolutions = (b.insertPeer message client address inserted).1.resolutions ∧
    b'.evictions = (b.insertPeer message client address inserted).1.evictions

/-- A hello that is taken is resolved. -/
theorem resolved_of_takeMessage {channel : List (Nat × WorkerMessage (Tagged T))}
    (hchannel : s.callers.channel = (message, .addPeer client address) :: channel)
    (h : s.takeMessage setup (.avInsert inserted) = some s') :
    s.books.Resolved message client address inserted s'.books := by
  simp only [State.takeMessage, hchannel, State.receive] at h
  cases h
  dsimp only
  split
  · exact ⟨rfl, rfl⟩
  · exact ⟨rfl, rfl⟩

/-- A move that is to resolve an address does it. -/
theorem resolved_of_step (hresolves : s.resolves m = some (message, client, address))
    (hstep : (service T setup).step s m = some s') :
    s.phase.target = none ∧
      ∃ inserted, s.books.Resolved message client address inserted s'.books := by
  unfold State.resolves at hresolves
  split at hresolves
  · next inserted =>
    suffices h : s.phase.target = none ∧
        s.books.Resolved message client address inserted s'.books from ⟨h.1, inserted, h.2⟩
    change s.stepWorker setup (.avInsert inserted) = some s' at hstep
    split at hresolves
    · next hphase =>
      split at hresolves
      · next prepared pending hpending =>
        cases hresolves
        refine ⟨by rw [hphase]; rfl, ?_⟩
        simp only [State.stepWorker, hphase, State.stepPosting, hpending] at hstep
        split at hstep
        · split at hstep <;> cases hstep <;> exact ⟨rfl, rfl⟩
        · cases hstep
      · cases hresolves
    · next hphase =>
      split at hresolves
      · next waiting quiescing hquiescing =>
        cases hresolves
        refine ⟨by rw [hphase]; rfl, ?_⟩
        simp only [State.stepWorker, hphase, State.stepQuiescing, hquiescing] at hstep
        split at hstep
        · split at hstep <;> cases hstep <;> exact ⟨rfl, rfl⟩
        · cases hstep
      · cases hresolves
    · next hposting hquiescing =>
      split at hresolves
      · next number client address channel hchannel =>
        cases hresolves
        have hne : s.callers.channel ≠ [] := by rw [hchannel]; simp
        -- Only where it takes a message does the worker ask for an insertion then.
        cases hphase : s.phase with
        | intake =>
          simp only [State.stepWorker, hphase, State.stepIntake, if_neg hne] at hstep
          exact ⟨rfl, resolved_of_takeMessage hchannel hstep⟩
        | parking =>
          simp only [State.stepWorker, hphase, State.stepParking, if_neg hne] at hstep
          split at hstep
          · cases hstep
          · split at hstep
            · exact ⟨rfl, resolved_of_takeMessage hchannel hstep⟩
            · cases hstep
        | posting => exact absurd hphase hposting
        | quiescing => exact absurd hphase hquiescing
        | _ =>
          simp [State.stepWorker, hphase, State.stepPinning, State.stepOperand, State.stepReaping,
            State.stepDispatching, State.stepQuiesceOperand] at hstep
      · cases hresolves
  · cases hresolves

/-- A move out of order evicts the successor. -/
theorem not_inOrder_of_step (hs : Invariants setup s)
    (hstep : (service T setup).step s m = some s') (hnot : ¬s.ResolvesInOrder m) :
    ¬s'.books.InOrder := by
  unfold State.ResolvesInOrder at hnot
  split at hnot
  · next message client address hresolves =>
    push Not at hnot
    obtain ⟨haccepts, r, hr, hlater, hsupersedes, hlive⟩ := hnot
    -- The later resolution is evicted by an earlier message's.
    obtain ⟨hrest, inserted, hresolutions, hevictions⟩ := resolved_of_step hresolves hstep
    have hsound := (Books.Peered.congr hs.peered (State.clones_none hrest)).sound
    obtain ⟨registered, hcell, hothers⟩ := hsupersedes
    have hopen : s.books.peers.handles.Open r.entry :=
      ⟨(List.getElem?_eq_some_iff.mp hcell).1, hlive⟩
    -- The address is accepted, another one of the slot is known, and its entry is open: it is
    -- evicted.
    have hstale := (PeerAddresses.supersededBy_iff hsound).mpr
      ⟨haccepts, ⟨registered, hcell, hothers⟩, hopen⟩
    intro horder
    refine horder ⟨message, address, r.entry⟩ ?_ r ?_ rfl hlater
    · rw [hevictions]
      exact (Books.mem_evictions rfl _).mpr (.inr ⟨_, hstale, rfl⟩)
    · rw [hresolutions]
      exact (Books.mem_resolutions rfl _).mpr (.inl hr)
  · exact absurd trivial hnot

end

/-- In every run that resolves the addresses of a slot in the order of their messages, an entry
is never evicted for an address of an earlier message. A move that resolves one out of order
evicts one. -/
theorem successor_stays [Operands T] (setup : Setup) :
    (∀ s : State T, (service T setup).Reach State.ResolvesInOrder s → s.books.InOrder) ∧
    (∀ (s : State T) (m : Move T) (s' : State T), (service T setup).Reachable s →
      (service T setup).step s m = some s' → ¬s.ResolvesInOrder m → ¬s'.books.InOrder) := by
  refine ⟨fun s h => ?_, fun s m s' h => not_inOrder_of_step (invariants_reach h)⟩
  refine service_invariant (J := Invariants setup) (I := fun s => s.books.InOrder)
    (fun s hs => invariants_reach hs) ?_ ?_ h
  · intro e he
    cases he
  · intro s m s' hs hs' hok hmove horder
    exact inOrder_step horder hs.peered hs.accounted hok
      (hmove.booksMove hs.settled hs.owned)

/-- A transfer waits in the queue at a full transmit queue, and the hello of the next
incarnation overtakes it. -/
def overtaken : List (Move Buffer) :=
  startUp ++
    [.submit (writeTo 1 (List.replicate 32 254) false 4096), .send 0, .worker .none, .worker .none,
      .worker (.avInsert 1), .worker (.region .none), .worker (.region (.span none)),
      .worker (.region (.mrReg 0)), .worker (.rma (-11) 0 0)] ++ reapNothing ++ greetWith 2 reborn

/-- A later hello evicts what an earlier one inserted. -/
theorem successor_stays_reborn :
    ∃ s, (service Buffer bufferSetup).run (State.start bufferSetup) overtaken = some s ∧
      ∃ e ∈ s.books.evictions, ∃ r ∈ s.books.resolutions, r.entry = e.entry ∧
        ¬e.message < r.message := by
  obtain ⟨s, hrun, hok, e, he, r, hr, hentry⟩ : ∃ s, (service Buffer bufferSetup).run
        (State.start bufferSetup) overtaken = some s ∧
      (service Buffer bufferSetup).Obeys State.ResolvesInOrder (State.start bufferSetup)
        overtaken ∧
      ∃ e ∈ s.books.evictions, ∃ r ∈ s.books.resolutions, r.entry = e.entry :=
    ⟨_, rfl, by decide +kernel, by decide +kernel⟩
  have hreach := (Machine.Reach.init rfl).run hok hrun
  exact ⟨s, hrun, e, he, r, hr, hentry, (successor_stays bufferSetup).1 s hreach e he r hr hentry⟩

/-- The transfer that was overtaken is posted, and its address evicts the successor. -/
theorem successor_evicted :
    ∃ s, (service Buffer bufferSetup).run (State.start bufferSetup)
        (overtaken ++ [.worker .none, .worker (.avInsert 1)]) = some s ∧
      ∃ e ∈ s.books.evictions, ∃ r ∈ s.books.resolutions, r.entry = e.entry ∧
        r.address = reborn ∧ e.address = List.replicate 32 254 ∧ e.message < r.message :=
  ⟨_, rfl, by decide +kernel⟩

end Vdma.Fabric
