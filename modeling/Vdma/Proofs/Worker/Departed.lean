import Vdma.Proofs.Worker.Liveness
import Vdma.Proofs.Worker.Removal

/-!
# `Vdma.Proofs.Worker.Departed`: a client that has gone is forgotten in time

`removed_client` begins where the worker takes a removal off the channel. Here it begins where
`remove_peer` puts it there. The channel is in order, so what the client submitted before is taken
before (`State.Going`), and once the removal is taken the client is leaving.

At rest the channel is empty and nothing is under way, so a client that leaves has left.
-/

set_option autoImplicit false

namespace Vdma.Fabric

open Vdma.Lib

variable {T : Type}

/-- A move that puts a message for a client on the channel. -/
def Move.isFor (s : State T) (c : ClientId) : Move T → Prop
  | .send i => ∃ request, s.callers.submitting[i]? = some request ∧ request.clientId = c
  | .addPeer client _ => client = c
  | .removePeer client => client = c
  | _ => False

/-- The removal of a client is the last message for it. -/
def State.Going (s : State T) (c : ClientId) : Prop :=
  ∃ before number after, s.callers.channel = before ++ (number, .removePeer c) :: after ∧
    ∀ q ∈ after, q.2.client ≠ some c

/-- The client was removed, and the worker knows or will know. -/
def State.Gone (s : State T) (c : ClientId) : Prop := s.Going c ∨ s.NoneFor c ∧ Leaving s c

section
variable [Operands T] {setup : Setup} {s s' : State T} {m : Move T} {c : ClientId}

/-- What a move does to the channel. -/
theorem channel_step (hs : Settled s) (ho : Owned s) (h : s.step setup m = some s') :
    s'.callers.channel = s.callers.channel ∨
      (∃ q, s.callers.channel = q :: s'.callers.channel) ∨
      ∃ q, s'.callers.channel = s.callers.channel ++ [q] ∧
        ∀ c, q.2.client = some c → m.isFor s c := by
  -- Callers add at the end of the channel, the worker takes from its front.
  cases hcaller : m.isCaller with
  | true =>
    cases m with
    | submit | dropService =>
      simp only [State.step] at h
      split at h
      · cases h
        exact .inl rfl
      · cases h
    | send i =>
      simp only [State.step, State.stepSend] at h
      split at h
      · cases h
      · next request hi =>
        -- The worker is gone: the request comes back to its caller.
        split at h
        · cases h
          exact .inl rfl
        · cases h
          exact .inr (.inr ⟨_, rfl, fun c hc => ⟨request, hi, Option.some.inj hc⟩⟩)
    | addPeer client | removePeer client =>
      simp only [State.step] at h
      split at h
      · cases h
        exact .inr (.inr ⟨_, rfl, fun c hc => Option.some.inj hc⟩)
      · cases h
    | register =>
      simp only [State.step] at h
      split at h
      · split at h
        · -- A registration names no client.
          cases h
          exact .inr (.inr ⟨_, rfl, fun c hc => by cases hc⟩)
        · cases h
          exact .inl rfl
      · cases h
    | worker | hash | finish | releasePool | thread | write => cases hcaller
  | false =>
    obtain ⟨part, hmove⟩ := moves_of_step h
    cases hmove with
    | submit | send | sendFails | dropService => cases hcaller
    | message message hserving hmessage hm | refused hm =>
      rw [hm] at hcaller
      cases hcaller
    -- Taking over is the one thing the worker does to the channel.
    | accept number request channel op prepared htakes hchannel
    | refuse number request channel completion htakes hchannel
    | addPeer number client address inserted entry channel books htakes hchannel
    | addPeerFails number client address inserted error channel books htakes hchannel
    | removePeer number client channel htakes hchannel
    | pinMessage number base length channel htakes hchannel
    | nothingToPin number base length channel htakes hchannel => exact .inr (.inl ⟨_, hchannel⟩)
    | dangling context hraw howned => exact (ho.backed.not_dangling hraw howned).elim
    | danglingPending hphase hreclaim => exact (hs.not_danglingPending hphase hreclaim).elim
    | _ => exact .inl rfl

/-- `remove_peer` puts the removal last. -/
theorem going_of_removePeer (h : s.step setup (.removePeer c) = some s') : s'.Going c := by
  simp only [State.step] at h
  split at h
  · cases h
    exact ⟨s.callers.channel, s.callers.arrivals, [], rfl, by simp⟩
  · cases h

/-- A client that is gone stays so, as long as nobody sends a message for it. -/
theorem State.Gone.step (h : s.Gone c) (hreach : (service T setup).Reachable s)
    (hstep : s.step setup m = some s') (hfor : ¬m.isFor s c) : s'.Gone c := by
  have hs := invariants_reach hreach
  have hs' := invariants_reach (hreach.step trivial hstep)
  have hmove := moves_of_step hstep
  have hchannel := channel_step hs.settled hs.owned hstep
  rcases h with ⟨before, number, after, hlast, hnone⟩ | ⟨hnone, hleaving⟩
  · rcases hchannel with hsame | ⟨q, htaken⟩ | ⟨q, hsent, hclient⟩
    · exact .inl ⟨before, number, after, hsame.trans hlast, hnone⟩
    · cases before with
      | nil =>
        -- The removal itself is taken.
        rw [htaken, List.nil_append, List.cons.injEq] at hlast
        obtain ⟨rfl, hrest⟩ := hlast
        obtain ⟨hbooks, hcount⟩ := hmove.books_of_removal hs.settled hs.owned htaken rfl
        exact .inr ⟨by rwa [State.NoneFor, hrest], .of_remove hs.accounted hbooks hcount⟩
      | cons p before =>
        rw [htaken, List.cons_append, List.cons.injEq] at hlast
        exact .inl ⟨before, number, after, hlast.2, hnone⟩
    · refine .inl ⟨before, number, after ++ [q], ?_, fun p hp => ?_⟩
      · rw [hsent, hlast, List.append_assoc, List.cons_append]
      · rcases List.mem_append.mp hp with hold | hnew
        · exact hnone p hold
        · rw [List.mem_singleton.mp hnew]
          exact fun hc => hfor (hclient c hc)
  · refine .inr ⟨?_, hleaving.step hs hs' hnone (hmove.booksMove hs.settled hs.owned)⟩
    rcases hchannel with hsame | ⟨q, htaken⟩ | ⟨q, hsent, hclient⟩
    · rwa [State.NoneFor, hsame]
    · intro p hp
      exact hnone p (by rw [htaken]; exact List.mem_cons_of_mem q hp)
    · intro p hp
      rw [hsent] at hp
      rcases List.mem_append.mp hp with hold | hnew
      · exact hnone p hold
      · rw [List.mem_singleton.mp hnew]
        exact fun hc => hfor (hclient c hc)

/-- At rest no client has an op. -/
theorem State.AtRest.unfinishedOf (h : s.AtRest) (hs : Settled s) (ho : Owned s) :
    s.unfinishedOf c = 0 := by
  obtain ⟨hdrained, -, -⟩ := h.drained hs
  have hphase : s.phase.Rests ∧ s.phase ≠ .dispatching := by
    rcases h with hexited | hblocked
    · rw [hexited]
      exact ⟨⟨rfl, rfl, fun _ => rfl, rfl⟩, by simp⟩
    · rw [hblocked.phase]
      exact ⟨⟨rfl, rfl, fun _ => rfl, rfl⟩, by simp⟩
  have hraw := (raw_of_drained ho hs hdrained hphase.2 hphase.1.prepared).2
  simp only [State.unfinishedOf, State.live, hraw, hdrained.quiescing, hphase.1.inHand,
    List.map_nil, List.sum_nil]
  rfl

/-- At rest a client that was removed holds no entry. -/
theorem State.Gone.forgotten (h : s.Gone c) (hrest : s.AtRest) (hs : Settled s) (ho : Owned s) :
    s.books.peers.byClient.lookup c = none := by
  rcases h with ⟨before, number, after, hlast, -⟩ | ⟨-, hleaving⟩
  · rw [(hrest.drained hs).2.1] at hlast
    simp at hlast
  · exact hleaving.gone (hrest.unfinishedOf hs ho)

/-- At rest the entries of the vector are those that clients hold. -/
theorem State.AtRest.holder (h : s.AtRest) (hreach : (service T setup).Reachable s) {entry : Nat}
    (hopen : s.books.peers.handles.Open entry) :
    ∃ c, s.books.peers.byClient.lookup c = some entry := by
  have htarget : s.phase.target = none := by
    rcases h with hexited | hblocked
    · rw [hexited]
      rfl
    · rw [hblocked.phase]
      rfl
  have hholders := ((peered_reach hreach).sound.open_iff entry).mp hopen
  rw [clones_none htarget, Nat.add_zero] at hholders
  exact PeerAddresses.holders_pos_iff.mp hholders

end

end Vdma.Fabric
