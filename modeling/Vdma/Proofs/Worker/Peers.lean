import Vdma.Proofs.PeerAddresses
import Vdma.Proofs.Worker.Accounts

/-!
# `Vdma.Proofs.Worker.Peers`: the worker's address vector

`Peered` carries `Sound` of the address vector over to the worker, which has a clone of
one entry while it posts against it. It also says what the past was: every resolution
answered an entry inserted with its bytes, and every eviction took an entry of the slot of
its address, inserted with other bytes, out of the vector for good.

A client lets go of its hold when it is removed, which waits for its ops, and when an
address is resolved, which does not. `BooksMove.hold` says that there is no third way.
-/

set_option autoImplicit false

namespace Vdma.Fabric

open Vdma.Lib

variable {T : Type}

/-- What is superseded is live, of the slot, and has other bytes. -/
theorem PeerAddresses.Sound.supersedes {p : PeerAddresses} (h : p.Sound fun _ => 0)
    {address : Bytes}
    {stale : Nat} (hstale : p.supersededBy address = some stale) :
    p.Supersedes address stale ∧ p.handles.Open stale := by
  obtain ⟨known, hknown, rfl, hpos, hsame⟩ :=
    PeerAddresses.held_eq_some (PeerAddresses.supersededBy_eq_some hstale)
  obtain ⟨hcell, hslot⟩ := h.named _ known hknown
  rw [h.strong_pos_iff] at hpos
  refine ⟨⟨_, hcell, hslot.symm, fun heq => ?_⟩, (h.open_iff known.entry).mpr hpos⟩
  exact absurd (hsame.mpr heq) Bool.false_ne_true

namespace Books

variable {b b' : Books} {message : Nat} {client : ClientId} {address : Bytes} {inserted : Int}
  {result : Except DmaError Nat}

/-- What `insert_peer` does to the books. -/
theorem insertPeer_peers (h : b.insertPeer message client address inserted = (b', result)) :
    b.peers.handle client address inserted = (b'.peers, result) := by
  cases h
  rfl

/-- A resolution records at most the eviction of the entry that the address supersedes. -/
theorem mem_evictions (h : b.insertPeer message client address inserted = (b', result))
    (e : Eviction) :
    e ∈ b'.evictions ↔ e ∈ b.evictions ∨
      ∃ stale, b.peers.supersededBy address = some stale ∧ e = ⟨message, address, stale⟩ := by
  cases h
  dsimp only
  cases b.peers.supersededBy address with
  | none => simp
  | some stale => simp

/-- A resolution is recorded when it succeeds. -/
theorem mem_resolutions (h : b.insertPeer message client address inserted = (b', result))
    (r : Resolution) :
    r ∈ b'.resolutions ↔ r ∈ b.resolutions ∨
      ∃ entry, result = .ok entry ∧ r = ⟨message, address, entry⟩ := by
  cases h
  dsimp only
  cases (b.peers.handle client address inserted).2 with
  | error error => simp
  | ok entry => simp

/-- The past that the books keep. -/
theorem drained_past (b : Books) (client : ClientId) :
    (b.drained client).resolutions = b.resolutions ∧
      (b.drained client).evictions = b.evictions ∧
      (b.drained client).peers
        = if client ∈ b.pendingRemoval then b.peers.release client else b.peers := by
  unfold drained
  dsimp only
  split
  · exact ⟨rfl, rfl, rfl⟩
  · exact ⟨rfl, rfl, rfl⟩

/-- A removal is done when there is nothing to wait for. -/
theorem removeOrDefer_past (b : Books) (client : ClientId) :
    (b.removeOrDefer client).resolutions = b.resolutions ∧
      (b.removeOrDefer client).evictions = b.evictions ∧
      (b.removeOrDefer client).peers
        = if 0 = (b.outstandingByClient.lookup client).getD 0 then b.peers.release client
          else b.peers := by
  unfold removeOrDefer
  split
  · exact ⟨rfl, rfl, rfl⟩
  · exact ⟨rfl, rfl, rfl⟩

namespace Tallied

variable {total : Nat} {count : ClientId → Nat}

/-- The last op of a client does its deferred removal. -/
theorem finishOp_past (h : Tallied b total fun c => count c + if client = c then 1 else 0) :
    (b.finishOp client).resolutions = b.resolutions ∧
      (b.finishOp client).evictions = b.evictions ∧
      (b.finishOp client).peers
        = if 0 = count client ∧ client ∈ b.pendingRemoval then b.peers.release client
          else b.peers := by
  rw [finishOp_eq h.lookup_counted]
  dsimp only
  by_cases hzero : 0 = count client
  · rw [if_pos hzero]
    obtain ⟨hresolutions, hevictions, hpeers⟩ := drained_past
      { b.releaseOutstanding with
        outstandingByClient := b.outstandingByClient.insert client (count client)
        wrapped := b.releaseOutstanding.wrapped || count client + 1 == 0 } client
    refine ⟨hresolutions, hevictions, hpeers.trans ?_⟩
    simp only [hzero.symm, true_and]
    rfl
  · rw [if_neg hzero]
    simp only [hzero, false_and, if_false]
    exact ⟨rfl, rfl, rfl⟩

end Tallied

/-- The address vector is sound, and the past is as the entries tell it. `extra` counts the
clones the worker has. -/
structure Peered (format : AddressFormat) (b : Books) (extra : Nat → Nat) : Prop where
  sound : b.peers.Sound extra
  format_eq : b.peers.format = format
  resolved : ∀ r ∈ b.resolutions, b.peers.handles.cells[r.entry]? = some ⟨r.address⟩
  evicted : ∀ e ∈ b.evictions, e.entry ∈ b.peers.handles.dropped ∧
    ∃ r, b.peers.handles.cells[e.entry]? = some r ∧
      format.identity r.address = format.identity e.address ∧ r.address ≠ e.address

namespace Peered

variable {format : AddressFormat} {extra extra' : Nat → Nat}

/-- At the start the vector is new, and nothing was resolved or evicted. -/
theorem start (format : AddressFormat) : Peered format (Books.start format) fun _ => 0 where
  sound := .new format
  format_eq := rfl
  resolved r h := by cases h
  evicted e h := by cases h

/-- Only the counts of the clones matter. -/
theorem congr (h : Peered format b extra) (heq : ∀ i, extra i = extra' i) :
    Peered format b extra' :=
  (funext heq : extra = extra') ▸ h

/-- A change that resolves nothing. -/
theorem of_later (h : Peered format b extra) (hsound : b'.peers.Sound extra')
    (hformat : b'.peers.format = b.peers.format)
    (hlater : b.peers.handles.Later b'.peers.handles)
    (hresolutions : b'.resolutions = b.resolutions)
    (hevictions : b'.evictions = b.evictions) : Peered format b' extra' where
  sound := hsound
  format_eq := hformat.trans h.format_eq
  resolved r hr := by
    rw [hresolutions] at hr
    exact hlater.cells _ _ (h.resolved r hr)
  evicted e he := by
    rw [hevictions] at he
    obtain ⟨hdropped, r, hr, hslot⟩ := h.evicted e he
    exact ⟨hlater.dropped hdropped, r, hlater.cells _ _ hr, hslot⟩

/-- A change that leaves the vector alone. -/
theorem of_same (h : Peered format b extra) (hpeers : b'.peers = b.peers)
    (hresolutions : b'.resolutions = b.resolutions) (hevictions : b'.evictions = b.evictions) :
    Peered format b' extra := by
  refine h.of_later ?_ (by rw [hpeers]) ?_ hresolutions hevictions
  · rw [hpeers]
    exact h.sound
  · rw [hpeers]
    exact .refl _

/-- A client may have let go of its entry. -/
theorem of_release (h : Peered format b extra) {p : Prop} [Decidable p]
    (hpeers : b'.peers = if p then b.peers.release client else b.peers)
    (hresolutions : b'.resolutions = b.resolutions) (hevictions : b'.evictions = b.evictions) :
    Peered format b' extra := by
  split at hpeers
  · refine h.of_later ?_ (by rw [hpeers]; rfl) ?_ hresolutions hevictions
    · rw [hpeers]
      exact h.sound.release client
    · rw [hpeers]
      exact .dropOption ..
  · exact h.of_same hpeers hresolutions hevictions

/-- A superseded entry is gone, and another address of its slot is the reason. -/
private theorem evicted_insert (h : Peered format b fun _ => 0)
    (hinsert : b.insertPeer message client address inserted = (b', result)) (e : Eviction)
    (he : e ∈ b'.evictions) : e.entry ∈ b'.peers.handles.dropped ∧
      ∃ r, b'.peers.handles.cells[e.entry]? = some r ∧
        format.identity r.address = format.identity e.address ∧ r.address ≠ e.address := by
  have hhandle := insertPeer_peers hinsert
  have hlater := b.peers.later_handle client address inserted
  rw [hhandle] at hlater
  rcases (mem_evictions hinsert e).mp he with hold | ⟨stale, hstale, rfl⟩
  · obtain ⟨hdropped, r, hr, hslot⟩ := h.evicted e hold
    exact ⟨hlater.dropped hdropped, r, hlater.cells _ _ hr, hslot⟩
  · have hdropped := h.sound.dropped_of_supersededBy client inserted hstale
    rw [hhandle] at hdropped
    obtain ⟨⟨r, hr, hslot, hbytes⟩, -⟩ := h.sound.supersedes hstale
    rw [h.format_eq] at hslot
    exact ⟨hdropped, r, hlater.cells _ _ hr, hslot, hbytes⟩

/-- The caller of a resolution has a clone of the entry. -/
theorem insertPeer_ok {entry : Nat} (h : Peered format b fun _ => 0)
    (hinsert : b.insertPeer message client address inserted = (b', .ok entry)) :
    Peered format b' (PeerAddresses.one entry) ∧
      b'.peers.handles.cells[entry]? = some ⟨address⟩ ∧
      b'.peers.byClient.lookup client = some entry := by
  have hhandle := insertPeer_peers hinsert
  obtain ⟨hsound, hformat, hcell, hclient⟩ := h.sound.handle_ok hhandle
  have hlater := b.peers.later_handle client address inserted
  rw [hhandle] at hlater
  refine ⟨⟨hsound, hformat.trans h.format_eq, fun r hr => ?_, h.evicted_insert hinsert⟩, hcell,
    hclient⟩
  rcases (mem_resolutions hinsert r).mp hr with hold | ⟨entry', hok, rfl⟩
  · exact hlater.cells _ _ (h.resolved r hold)
  · cases hok
    exact hcell

/-- A resolution that fails keeps the books in order, and hands no entry out. -/
theorem insertPeer_error {error : DmaError} (h : Peered format b fun _ => 0)
    (hinsert : b.insertPeer message client address inserted = (b', .error error)) :
    Peered format b' fun _ => 0 := by
  have hhandle := insertPeer_peers hinsert
  obtain ⟨hsound, hformat⟩ := h.sound.handle_error_sound hhandle
  have hlater := b.peers.later_handle client address inserted
  rw [hhandle] at hlater
  refine ⟨hsound, hformat.trans h.format_eq, fun r hr => ?_, h.evicted_insert hinsert⟩
  rcases (mem_resolutions hinsert r).mp hr with hold | ⟨entry, hok, -⟩
  · exact hlater.cells _ _ (h.resolved r hold)
  · cases hok

/-- The worker's clone of an entry is dropped. -/
theorem dropPeer {entry : Nat} (h : Peered format b (PeerAddresses.one entry)) :
    Peered format (b.dropPeer entry) fun _ => 0 := by
  have hsound : b.peers.Sound fun i => 0 + PeerAddresses.one entry i :=
    h.sound.congr fun i => (Nat.zero_add _).symm
  exact h.of_later hsound.drop rfl (.drop ..) rfl rfl

/-- The peers go with the endpoint. -/
theorem clear (h : Peered format b fun _ => 0) :
    Peered format { b with peers := b.peers.clear } fun _ => 0 :=
  h.of_later h.sound.clear rfl (.dropAll ..) rfl rfl

end Peered

end Books

namespace State

/-- The clones of an entry that the worker has. -/
def clones (s : State T) (i : Nat) : Nat := if s.phase.peer = some i then 1 else 0

/-- A worker that posts for nobody has no clone of an entry. -/
theorem clones_none {s : State T} (h : s.phase.target = none) (i : Nat) : s.clones i = 0 := by
  rw [clones, Phase.peer_eq, h]
  rfl

/-- A worker in a post has one clone, of the entry it posts against. -/
theorem clones_peer {s : State T} {entry : Nat} (h : s.phase.peer = some entry) (i : Nat) :
    s.clones i = PeerAddresses.one entry i := by
  rw [clones, h, PeerAddresses.one]
  exact if_congr (by rw [Option.some.injEq, eq_comm]) rfl rfl

/-- The entry it posts against is the one of its target. -/
theorem clones_some {s : State T} {entry : Nat} {client : ClientId} {address : Bytes}
    (h : s.phase.target = some (entry, client, address)) (i : Nat) :
    s.clones i = PeerAddresses.one entry i :=
  clones_peer (by rw [Phase.peer_eq, h]; rfl) i

end State

/-- The worker's address vector is sound. -/
abbrev Peered (setup : Setup) (s : State T) : Prop :=
  s.books.Peered setup.device.format s.clones

namespace Peered

variable {setup : Setup} {s s' : State T} {m : Move T}

/-- Every move keeps the address vector sound. -/
theorem step (h : Peered setup s) (hbooks : Accounted s) (hmove : BooksMove s m s') :
    Peered setup s' := by
  -- Between two calls of `handle` the worker has no clone.
  have hnone : s.phase.target = none → s.books.Peered setup.device.format fun _ => 0 :=
    fun hrest => Books.Peered.congr h (State.clones_none hrest)
  have hsame : s'.phase.target = s.phase.target → s'.books.peers = s.books.peers →
      s'.books.resolutions = s.books.resolutions → s'.books.evictions = s.books.evictions →
      Peered setup s' := by
    intro htarget htargets hresolutions hevictions
    refine (Books.Peered.of_same h htargets hresolutions hevictions).congr fun i => ?_
    rw [State.clones, State.clones, Phase.peer_eq, Phase.peer_eq, htarget]
  cases hmove with
  | keep hb htarget | submit hb htarget =>
    exact hsame htarget (by rw [hb]) (by rw [hb]) (by rw [hb])
  | refuse hb htarget | accept number request hchannel hb htarget =>
    exact hsame htarget (by rw [hb]; rfl) (by rw [hb]; rfl) (by rw [hb]; rfl)
  | finish client hb hops hrest htarget htotal hcount =>
    obtain ⟨hresolutions, hevictions, htargets⟩ :=
      (Books.Tallied.congr hbooks htotal hcount).finishOp_past
    rw [← hb] at hresolutions hevictions htargets
    exact ((hnone hrest).of_release htargets hresolutions hevictions).congr
      fun i => (State.clones_none htarget i).symm
  | remove number client hchannel hb hrest htarget =>
    obtain ⟨hresolutions, hevictions, htargets⟩ := s.books.removeOrDefer_past client
    rw [← hb] at hresolutions hevictions htargets
    exact ((hnone hrest).of_release htargets hresolutions hevictions).congr
      fun i => (State.clones_none htarget i).symm
  | resolve message client address inserted entry hresolves hinsert hrest htarget =>
    exact ((hnone hrest).insertPeer_ok hinsert).1.congr
      fun i => (State.clones_some htarget i).symm
  | greet message client address inserted entry books hchannel hresolves hinsert hb hrest htarget =>
    show s'.books.Peered _ _
    rw [hb]
    exact ((hnone hrest).insertPeer_ok hinsert).1.dropPeer.congr
      fun i => (State.clones_none htarget i).symm
  | unresolved message client address inserted error hresolves hinsert hrest htarget =>
    exact ((hnone hrest).insertPeer_error hinsert).congr fun i => (State.clones_none htarget i).symm
  | drop entry hphase hb htarget =>
    have hone := Books.Peered.congr h (State.clones_peer hphase)
    show s'.books.Peered _ _
    rw [hb]
    exact hone.dropPeer.congr fun i => (State.clones_none htarget i).symm
  | clear hloops hb hrest htarget =>
    show s'.books.Peered _ _
    rw [hb]
    exact (hnone hrest).clear.congr fun i => (State.clones_none htarget i).symm

end Peered

/-- In every run the address vector is sound. -/
theorem peered_reach [Operands T] {setup : Setup} {ok : State T → Move T → Prop} {s : State T}
    (h : (service T setup).Reach ok s) : Peered setup s := by
  refine service_invariant (J := fun s => (Settled s ∧ Owned s) ∧ Accounted s)
    (I := Peered setup) (fun s hs => ⟨owned_reach hs, accounted_reach hs⟩)
    (Books.Peered.start setup.device.format) ?_ h
  intro s m s' hs hs' hok hmove hpeered
  exact hpeered.step hs.2 (hmove.booksMove hs.1.1 hs.1.2)

/-- What every state of a run is known to meet. -/
structure Invariants [Operands T] (setup : Setup) (s : State T) : Prop where
  settled : Settled s
  owned : Owned s
  boxed : Boxed setup s
  accounted : Accounted s
  peered : Peered setup s

/-- The invariants of the worker hold in every run. -/
theorem invariants_reach [Operands T] {setup : Setup} {ok : State T → Move T → Prop} {s : State T}
    (h : (service T setup).Reach ok s) : Invariants setup s where
  settled := (owned_reach h).1
  owned := (owned_reach h).2
  boxed := boxed_reach h
  accounted := accounted_reach h
  peered := peered_reach h

/-! ### The holds of the clients -/

section
variable {s s' : State T} {m : Move T}

/-- Outside the loop no client has an op. -/
theorem opsOf_eq_zero (hs : Settled s) (hloops : s.phase.loops = false) (client : ClientId) :
    s.opsOf client = 0 := by
  have hquiet := hs.quiet hloops
  have hposts : s.wire.posts = [] := by
    have hlength := hs.inFlight
    rw [hquiet.inFlight] at hlength
    exact List.length_eq_zero_iff.mp hlength.symm
  simp only [State.opsOf, hquiet.pending, hposts, hquiet.quiescing, List.map_nil, List.count_nil]

namespace BooksMove

/-- While the worker has a clone it changes no client's hold. -/
theorem byClient_of_target (hmove : BooksMove s m s') (htarget : s.phase.target ≠ none) :
    s'.books.peers.byClient = s.books.peers.byClient := by
  cases hmove with
  | keep hb => rw [hb]
  | submit hb => rw [hb]
  | refuse hb =>
    rw [hb]
    rfl
  | accept number request hchannel hb =>
    rw [hb]
    rfl
  | drop entry hphase hb =>
    rw [hb]
    rfl
  | _ => exact absurd ‹s.phase.target = none› htarget

/-- Evictions are not forgotten. -/
theorem evictions_subset (hmove : BooksMove s m s') (hbooks : Accounted s) :
    s.books.evictions ⊆ s'.books.evictions := by
  intro e he
  cases hmove with
  | keep hb | submit hb => rwa [hb]
  | refuse hb | accept number request hchannel hb | drop entry hphase hb | clear hloops hb =>
    rw [hb]
    exact he
  | finish client hb hops hrest htarget htotal hcount =>
    rwa [hb, (Books.Tallied.congr hbooks htotal hcount).finishOp_past.2.1]
  | remove number client hchannel hb => rwa [hb, (s.books.removeOrDefer_past client).2.1]
  | resolve message client address inserted entry hresolves hinsert
  | unresolved message client address inserted error hresolves hinsert =>
    exact (Books.mem_evictions hinsert e).mpr (.inl he)
  | greet message client address inserted entry books hchannel hresolves hinsert hb =>
    rw [hb]
    exact (Books.mem_evictions hinsert e).mpr (.inl he)

/-- While a client has ops, only a resolution changes its hold. -/
theorem hold [Operands T] {setup : Setup} (hmove : BooksMove s m s') (h : Invariants setup s)
    (h' : Invariants setup s') {c : ClientId} (hops : 0 < s.opsOf c) :
    s'.books.peers.byClient.lookup c = s.books.peers.byClient.lookup c ∨
    s.books.peers.Sound (fun _ => 0) ∧
      ∃ message client address inserted, s.resolves m = some (message, client, address) ∧
        s'.books.peers.byClient = (s.books.peers.handle client address inserted).1.byClient ∧
        ∀ stale, s.books.peers.supersededBy address = some stale →
          ⟨message, address, stale⟩ ∈ s'.books.evictions := by
  have hunfinished := opsOf_le_unfinishedOf h.owned h.boxed c
  -- What a resolution leaves of the vector, a drop of the worker's clone leaves too.
  have hresolution : ∀ {message client address inserted result} {books : Books},
      s.resolves m = some (message, client, address) →
      s.books.insertPeer message client address inserted = (books, result) →
      s.phase.target = none → s'.books.peers.byClient = books.peers.byClient →
      s'.books.evictions = books.evictions →
      s.books.peers.Sound (fun _ => 0) ∧
        ∃ message client address inserted, s.resolves m = some (message, client, address) ∧
          s'.books.peers.byClient = (s.books.peers.handle client address inserted).1.byClient ∧
          ∀ stale, s.books.peers.supersededBy address = some stale →
            ⟨message, address, stale⟩ ∈ s'.books.evictions := by
    intro message client address inserted result books hresolves hinsert hrest hclients hevictions
    have hhandle := Books.insertPeer_peers hinsert
    refine ⟨h.peered.sound.congr (State.clones_none hrest), message, client, address, inserted,
      hresolves, ?_, fun stale hstale => ?_⟩
    · rw [hclients, hhandle]
    · rw [hevictions]
      exact (Books.mem_evictions hinsert _).mpr (.inr ⟨stale, hstale, rfl⟩)
  cases hmove with
  | keep hb | submit hb => exact .inl (by rw [hb])
  | refuse hb | accept number request hchannel hb | drop entry hphase hb =>
    exact .inl (by rw [hb]; rfl)
  | finish client hb hopsOf hrest htarget htotal hcount =>
    left
    rw [hb, (Books.Tallied.congr h.accounted htotal hcount).finishOp_past.2.2]
    split
    · next hlast =>
      -- The removed client has no op left, and `c` has.
      have hleft := opsOf_le_unfinishedOf h'.owned h'.boxed c
      have hne : c ≠ client := by
        rintro rfl
        have hzero := hlast.1
        have hsame := hopsOf c
        omega
      exact AList.lookup_erase_ne hne
    · rfl
  | remove number client hchannel hb =>
    left
    rw [hb, (s.books.removeOrDefer_past client).2.2]
    split
    · next hzero =>
      have hne : c ≠ client := by
        rintro rfl
        have hcounted := h.accounted.counted c
        omega
      exact AList.lookup_erase_ne hne
    · rfl
  | resolve message client address inserted entry hresolves hinsert hrest
  | unresolved message client address inserted error hresolves hinsert hrest =>
    exact .inr (hresolution hresolves hinsert hrest rfl rfl)
  | greet message client address inserted entry books hchannel hresolves hinsert hb hrest =>
    exact .inr (hresolution hresolves hinsert hrest (by rw [hb]; rfl) (by rw [hb]; rfl))
  | clear hloops hb =>
    have hzero := opsOf_eq_zero h.settled hloops c
    omega

end BooksMove

end

/-- The worker posts against the entry its client holds, inserted with the address of the op. -/
def Aimed (s : State T) : Prop :=
  ∀ entry client address, s.phase.target = some (entry, client, address) →
    s.books.peers.handles.cells[entry]? = some ⟨address⟩ ∧
      s.books.peers.byClient.lookup client = some entry

namespace Aimed

variable {setup : Setup} {s s' : State T} {m : Move T}

/-- A move that leaves the target and the vector. -/
theorem of_same (h : Aimed s) (htarget : s'.phase.target = s.phase.target)
    (hpeers : s'.books.peers = s.books.peers) : Aimed s' := by
  intro entry client address haim
  rw [hpeers]
  rw [htarget] at haim
  exact h entry client address haim

/-- A worker that aims at nobody aims well. -/
theorem of_none (htarget : s'.phase.target = none) : Aimed s' := by
  intro entry client address haim
  rw [htarget] at haim
  cases haim

/-- Every move keeps the aim: an entry is resolved for the address that is posted to, and stays
while it is. -/
theorem step [Operands T] (h : Aimed s) (hs : Invariants setup s) (hmove : BooksMove s m s') :
    Aimed s' := by
  cases hmove with
  | keep hb htarget => exact h.of_same htarget (by rw [hb])
  | submit hb htarget => exact h.of_same htarget (by rw [hb])
  | refuse hb htarget => exact h.of_same htarget (by rw [hb]; rfl)
  | accept number request hchannel hb htarget => exact h.of_same htarget (by rw [hb]; rfl)
  | resolve message client address inserted entry hresolves hinsert hrest htarget =>
    intro entry' client' address' haim
    rw [htarget] at haim
    cases haim
    exact ((Books.Peered.congr hs.peered (State.clones_none hrest)).insertPeer_ok hinsert).2
  | _ => exact .of_none ‹s'.phase.target = none›

end Aimed

/-- In every run the worker aims right. -/
theorem aimed_reach [Operands T] {setup : Setup} {ok : State T → Move T → Prop} {s : State T}
    (h : (service T setup).Reach ok s) : Aimed s := by
  refine service_invariant (J := Invariants setup) (I := Aimed)
    (fun s hs => invariants_reach hs) (.of_none rfl) ?_ h
  intro s m s' hs hs' hok hmove haimed
  exact haimed.step hs (hmove.booksMove hs.settled hs.owned)

end Vdma.Fabric
