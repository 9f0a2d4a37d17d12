import Mathlib.Data.List.Perm.Subperm
import Vdma.Proofs.PeerAddresses

/-!
# `Vdma.Proofs.AddressIndex`: the index is bounded by what was live at once

Releases, evictions, re-advertisements and failed inserts leave keys of dead entries in
`by_address`, and only a sweep drops them. `Tight` is the invariant of the index and its
threshold. The index has at most `sweep_at` keys, so the next sweep is never overdue. And
`sweep_at` is a bound on live entries: each live key names an entry of its own, since a key is
the slot of the bytes that its entry was inserted with, and the new entry is live beside them.

`lentCalls` is the machine of all call sequences whose callers keep the entries they get for as
long as they like. In `peerCalls` they drop them at once.
-/

set_option autoImplicit false

namespace Vdma.Fabric

open Vdma.Lib

namespace PeerAddresses

variable {p p' : PeerAddresses} {extra extra' : Nat → Nat} {bound : Nat}

/-! ### Live entries -/

/-- The number of entries in the address vector. -/
def live (p : PeerAddresses) : Nat :=
  (List.range p.handles.next).countP fun i => p.handles.Open i

/-- Different entries that are open are counted. -/
theorem length_le_live {l : List Nat} (hnodup : l.Nodup) (hopen : ∀ i ∈ l, p.handles.Open i) :
    l.length ≤ p.live := by
  rw [live, List.countP_eq_length_filter]
  refine (List.Nodup.subperm hnodup ?_).length_le
  intro i hi
  rw [List.mem_filter, List.mem_range, decide_eq_true_iff]
  exact ⟨(hopen i hi).1, hopen i hi⟩

/-- Every key of the index is the slot of the bytes that its entry was inserted with. -/
def Named (p : PeerAddresses) : Prop :=
  ∀ identity known, p.byAddress.lookup identity = some known →
    p.handles.cells[known.entry]? = some ⟨known.bytes⟩ ∧
      identity = p.format.identity known.bytes

/-- The entries that the index names. -/
def indexedEntries (p : PeerAddresses) : List Nat := p.byAddress.values.map Known.entry

/-- A sweep sees every entry of the index. -/
theorem length_indexedEntries (p : PeerAddresses) :
    p.indexedEntries.length = p.byAddress.entries.length := by
  rw [indexedEntries, List.length_map, Assoc.values, List.length_map]

/-- Two keys name two entries. -/
theorem nodup_indexedEntries (h : Named p) : p.indexedEntries.Nodup := by
  -- An entry has one address, and its key is that address's slot.
  let slotOf : Nat → Bytes := fun i =>
    (p.handles.cells[i]?.map fun r => p.format.identity r.address).getD []
  have hslots : p.indexedEntries.map slotOf = p.byAddress.keys := by
    rw [indexedEntries, Assoc.values, List.map_map, List.map_map]
    show _ = p.byAddress.entries.map Sigma.fst
    refine List.map_congr_left ?_
    intro e he
    obtain ⟨hcell, hidentity⟩ := h e.1 e.2 (Assoc.mem_entries_iff.mp he)
    show (p.handles.cells[e.2.entry]?.map fun r => p.format.identity r.address).getD [] = e.1
    rw [hcell, hidentity]
    rfl
  exact List.Nodup.of_map slotOf (hslots ▸ p.byAddress.keys_nodup)

/-! ### The index and its threshold -/

/-- The invariant of the index, when callers have `extra` clones. -/
structure Tight (p : PeerAddresses) (extra : Nat → Nat) (bound : Nat) : Prop where
  tallies : Tallies p extra
  named : Named p
  small : p.byAddress.entries.length ≤ p.sweepAt
  threshold : p.sweepAt ≤ bound

namespace Tight

/-- A new index is empty, and swept at the minimum. -/
theorem new (format : AddressFormat) :
    Tight (PeerAddresses.new format) (fun _ => 0) minimumSweep where
  tallies := (Sound.new format).counts
  named identity known h := by cases h
  small := Nat.zero_le _
  threshold := Nat.le_refl _

/-- A tight index is tight for a larger bound. -/
theorem mono (h : Tight p extra bound) {bound' : Nat} (hle : bound ≤ bound') :
    Tight p extra bound' :=
  ⟨h.tallies, h.named, h.small, h.threshold.trans hle⟩

/-- Only the number of clones matters. -/
theorem congr (h : Tight p extra bound) (heq : ∀ i, extra i = extra' i) : Tight p extra' bound :=
  (funext heq : extra = extra') ▸ h

/-- A change of holds leaves the index alone. -/
theorem of_holds (h : Tight p extra bound) (hformat : p'.format = p.format)
    (hindex : p'.byAddress = p.byAddress) (hsweep : p'.sweepAt = p.sweepAt)
    (hcells : p'.handles.cells = p.handles.cells) (htallies : Tallies p' extra') :
    Tight p' extra' bound where
  tallies := htallies
  named := by
    rw [Named, hformat, hindex, hcells]
    exact h.named
  small := by
    rw [hindex, hsweep]
    exact h.small
  threshold := by
    rw [hsweep]
    exact h.threshold

/-- A release leaves the index. -/
theorem release (h : Tight p extra bound) (c : ClientId) : Tight (p.release c) extra bound :=
  h.of_holds rfl rfl rfl (Handles.cells_dropOption ..) (h.tallies.release c)

/-- A clone leaves the index. -/
theorem clone (h : Tight p extra bound) {entry : Nat}
    (hentry : 0 < p.holders entry + extra entry) :
    Tight { p with handles := p.handles.clone entry } (fun i => extra i + one entry i) bound :=
  h.of_holds rfl rfl rfl rfl (h.tallies.clone hentry)

/-- A hold leaves the index. -/
theorem hold (h : Tight p extra bound) (c : ClientId) {entry : Nat}
    (hentry : 0 < p.holders entry + extra entry) : Tight (p.hold c entry) extra bound :=
  h.of_holds rfl rfl rfl (Handles.cells_dropOption ..) (h.tallies.hold c hentry)

/-- A dropped clone leaves the index. -/
theorem drop {entry : Nat} (h : Tight p (fun i => extra i + one entry i) bound) :
    Tight (p.drop entry) extra bound :=
  h.of_holds rfl rfl rfl (Handles.cells_drop ..) (Tallies.drop h.tallies)

/-- An eviction leaves the index: it takes the entry from its clients only. -/
theorem evict (h : Tight p extra bound) {stale : Nat}
    (hstale : 0 < p.holders stale + extra stale) : Tight (p.evict stale) extra bound :=
  h.of_holds rfl rfl rfl ((Handles.cells_drop ..).trans (Handles.cells_dropAll ..))
    (h.tallies.evict hstale)

/-- A key leaves the index. -/
theorem forget (h : Tight p extra bound) (identity : Bytes) :
    Tight (p.forget identity) extra bound where
  tallies := h.tallies
  named identity' known hk := by
    change (p.byAddress.erase identity).lookup identity' = some known at hk
    by_cases heq : identity' = identity
    · rw [heq, AList.lookup_erase] at hk
      cases hk
    · rw [AList.lookup_erase_ne heq] at hk
      exact h.named identity' known hk
  small := (List.kerase_sublist identity p.byAddress.entries).length_le.trans h.small
  threshold := h.threshold

/-- A clear empties the index. -/
theorem clear (h : Tight p extra bound) : Tight p.clear extra bound where
  tallies := h.tallies.clear
  named identity known hk := by cases hk
  small := Nat.zero_le _
  threshold := h.threshold

end Tight

/-! ### The sweep -/

/-- After a sweep one more key fits. -/
theorem room_after_sweep (p : PeerAddresses) :
    p.sweep.byAddress.entries.length < p.sweep.sweepAt := by
  unfold sweep
  split
  · next hroom => exact hroom
  · show (Assoc.retain _ p.byAddress).entries.length
      < max minimumSweep ((Assoc.retain _ p.byAddress).entries.length * 2)
    simp only [minimumSweep]
    omega

/-- A sweep that moves the threshold has left live keys only. -/
theorem sweep_cases (p : PeerAddresses) :
    p.sweep.sweepAt = p.sweepAt ∨
      (p.sweep.sweepAt = max minimumSweep (p.sweep.byAddress.entries.length * 2) ∧
        ∀ i ∈ p.sweep.indexedEntries, 0 < p.handles.strong i) := by
  unfold sweep
  split
  · exact .inl rfl
  · refine .inr ⟨rfl, ?_⟩
    intro i hi
    obtain ⟨known, hknown, rfl⟩ := List.mem_map.mp hi
    obtain ⟨e, he, rfl⟩ := List.mem_map.mp hknown
    exact of_decide_eq_true (List.mem_filter.mp he).2

/-- The peers once `fi_av_insert` has made an entry, and before the sweep. -/
def minted (p : PeerAddresses) (address : Bytes) : PeerAddresses :=
  { p with handles := p.handles.new ⟨address⟩ }

/-- `hold` only adds to the holds of the new entry, since the client has let go of its old one. -/
theorem handles_enter {c : ClientId} {identity address : Bytes}
    (hnone : p.byClient.lookup c = none) :
    ((p.index identity address).hold c p.handles.next).handles
      = (p.minted address).handles.clone p.handles.next := by
  obtain ⟨hhandles, hclients, -⟩ := Sound.handles_sweep (p.minted address)
  show (Handles.clone (p.minted address).sweep.handles _).dropOption
    ((p.minted address).sweep.byClient.lookup c) = _
  rw [hhandles, hclients, show (p.minted address).byClient.lookup c = none from hnone]
  rfl

namespace Tight

/-- After the sweep for a new entry, each key is the slot of an older entry. -/
theorem named_swept (h : Tight p extra bound) (address : Bytes) {identity : Bytes} {known : Known}
    (hk : (p.minted address).sweep.byAddress.lookup identity = some known) :
    (p.minted address).handles.cells[known.entry]? = some ⟨known.bytes⟩ ∧
      known.entry < p.handles.next ∧ identity = p.format.identity known.bytes := by
  have hold : p.byAddress.lookup identity = some known :=
    Sound.lookup_of_sweep (p := p.minted address) hk
  obtain ⟨hcell, hidentity⟩ := h.named identity known hold
  have hlt : known.entry < p.handles.next := (List.getElem?_eq_some_iff.mp hcell).1
  exact ⟨(Handles.getElem?_cells_new_of_lt _ _ hlt).trans hcell, hlt, hidentity⟩

/-- The keys that the sweep has left, when they are all live, and the new entry are live at the end
of the call. -/
theorem length_swept_lt_live (h : Tight p extra bound) {c : ClientId} {address : Bytes}
    (hnone : p.byClient.lookup c = none)
    (hlive : ∀ i ∈ (p.minted address).sweep.indexedEntries,
      0 < (p.minted address).handles.strong i) :
    (p.minted address).sweep.byAddress.entries.length
      < ((p.index (p.format.identity address) address).hold c p.handles.next).live := by
  obtain ⟨hhandles, -, hformat⟩ := Sound.handles_sweep (p.minted address)
  have hcounts := Handles.Counts.new h.tallies ⟨address⟩
  have hnamed : Named (p.minted address).sweep := by
    intro identity known hk
    obtain ⟨hcell, -, hidentity⟩ := h.named_swept address hk
    rw [hhandles, hformat]
    exact ⟨hcell, hidentity⟩
  -- The entry just made is not in the swept index yet.
  have hnodup : (p.handles.next :: (p.minted address).sweep.indexedEntries).Nodup := by
    refine List.nodup_cons.mpr ⟨?_, nodup_indexedEntries hnamed⟩
    intro hmem
    obtain ⟨known, hknown, hentry⟩ := List.mem_map.mp hmem
    obtain ⟨identity, hk⟩ := Assoc.mem_values_iff.mp hknown
    have hlt := (h.named_swept address hk).2.1
    omega
  -- All of them are open: the new one is held, the others survived the sweep.
  have hopen : ∀ i ∈ p.handles.next :: (p.minted address).sweep.indexedEntries,
      ((p.index (p.format.identity address) address).hold c p.handles.next).handles.Open i := by
    intro i hi
    rw [handles_enter hnone]
    show (p.handles.new ⟨address⟩).Open i
    rw [hcounts.open_iff]
    rcases List.mem_cons.mp hi with rfl | hold
    · rw [if_pos rfl]
      omega
    · rw [← hcounts.strong_eq]
      exact hlive i hold
  have hlength := length_le_live hnodup hopen
  rw [List.length_cons, length_indexedEntries] at hlength
  exact hlength

/-- The new entry is indexed and held. The threshold has moved only to twice the live keys. -/
theorem enter (h : Tight p extra bound) (c : ClientId) (address : Bytes)
    (hnone : p.byClient.lookup c = none) :
    Tight ((p.index (p.format.identity address) address).hold c p.handles.next)
      (fun i => extra i + one p.handles.next i)
      (max bound (max minimumSweep
        (2 * ((p.index (p.format.identity address) address).hold c p.handles.next).live))) where
  -- The client holds the new entry, and so does the caller.
  tallies := by
    refine (h.tallies.index _ address).hold c ?_
    simp only [one, if_true]
    omega
  named := by
    intro identity known hk
    obtain ⟨-, -, hformat⟩ := Sound.handles_sweep (p.minted address)
    rw [handles_enter hnone]
    show (p.minted address).handles.cells[known.entry]? = _ ∧
      identity = (p.minted address).sweep.format.identity known.bytes
    rw [hformat]
    change (AList.insert _ _ (p.minted address).sweep.byAddress).lookup identity = some known at hk
    -- The slot of the address now holds the new entry, the others what the sweep left.
    by_cases hsame : identity = p.format.identity address
    · rw [hsame, AList.lookup_insert] at hk
      cases hk
      exact ⟨Handles.getElem?_cells_new .., hsame⟩
    · rw [AList.lookup_insert_ne hsame] at hk
      obtain ⟨hcell, -, hidentity⟩ := h.named_swept address hk
      exact ⟨hcell, hidentity⟩
  -- The sweep made room for one.
  small := by
    show (AList.insert _ _ (p.minted address).sweep.byAddress).entries.length
      ≤ (p.minted address).sweep.sweepAt
    rw [AList.entries_insert, List.length_cons]
    have hroom := (p.minted address).room_after_sweep
    have hless := (List.kerase_sublist (p.format.identity address)
      (p.minted address).sweep.byAddress.entries).length_le
    omega
  -- Either nothing was swept, or the threshold is twice what lives now.
  threshold := by
    show (p.minted address).sweep.sweepAt ≤ _
    rcases (p.minted address).sweep_cases with hsame | ⟨hmoved, hlive⟩
    · rw [hsame]
      exact h.threshold.trans (Nat.le_max_left _ _)
    · have hlength := h.length_swept_lt_live (c := c) hnone hlive
      rw [hmoved]
      omega

/-- When the address has no entry, the client holds nothing after `resolve`. -/
theorem resolve_miss (h : Tight p extra bound) {c : ClientId} {identity address : Bytes}
    (hr : p.resolve c identity address = (p', none)) :
    Tight p' extra bound ∧ p'.format = p.format ∧ p'.byClient.lookup c = none := by
  rcases p.resolve_cases c identity address with ⟨entry, -, heq⟩ | ⟨stale, hheld, heq⟩ |
    ⟨-, heq⟩
  · rw [heq] at hr
    cases hr
  · rw [heq] at hr
    cases hr
    obtain ⟨known, -, rfl, hpos, -⟩ := held_eq_some hheld
    rw [h.tallies.strong_eq] at hpos
    exact ⟨((h.evict hpos).release c).forget identity, rfl, AList.lookup_erase _ _⟩
  · rw [heq] at hr
    cases hr
    exact ⟨(h.release c).forget identity, rfl, AList.lookup_erase _ _⟩

/-- A `handle` that answers an entry gives its caller a clone of it. -/
theorem handle_ok (h : Tight p extra bound) {c : ClientId} {address : Bytes} {inserted : Int}
    {entry : Nat} (hhandle : p.handle c address inserted = (p', .ok entry)) :
    Tight p' (fun i => extra i + one entry i)
      (max bound (max minimumSweep (2 * p'.live))) := by
  rcases p.handle_cases c address inserted with ⟨error, -, heq⟩ | ⟨found, entry', hr, heq⟩ |
    ⟨room, hr, heq⟩
  · rw [heq] at hhandle
    cases hhandle
  · -- A hit: the entry was open, and another clone of it changes no index.
    rw [heq] at hhandle
    cases hhandle
    rcases p.resolve_cases c (p.format.identity address) address with ⟨entry', hheld, heq⟩ |
      ⟨stale, -, heq⟩ | ⟨-, heq⟩
    · rw [heq] at hr
      cases hr
      obtain ⟨known, -, rfl, hpos, -⟩ := held_eq_some hheld
      rw [h.tallies.strong_eq] at hpos
      refine Tight.mono ((h.clone hpos).hold c ?_) (Nat.le_max_left _ _)
      show 0 < p.holders known.entry + (extra known.entry + one known.entry known.entry)
      omega
    · rw [heq] at hr
      cases hr
    · rw [heq] at hr
      cases hr
  · -- A miss: the slot is free, and the entry is enrolled in it.
    rw [heq] at hhandle
    obtain ⟨hroom, hformat, hnone⟩ := h.resolve_miss hr
    unfold enroll at hhandle
    split at hhandle
    · cases hhandle
    · cases hhandle
      rw [← hformat]
      exact hroom.enter c address hnone

/-- A `handle` that fails may have taken keys away. -/
theorem handle_error (h : Tight p extra bound) {c : ClientId} {address : Bytes} {inserted : Int}
    {error : DmaError} (hhandle : p.handle c address inserted = (p', .error error)) :
    Tight p' extra bound := by
  rcases Sound.handle_error hhandle with rfl | hr
  · exact h
  · exact (h.resolve_miss hr).1

end Tight

/-! ### All sequences of calls -/

/-- The entries, and the clones that callers of `handle` have. -/
structure Lent where
  peers : PeerAddresses
  clones : List Nat

/-- A call, or a caller that lets go of an entry it got. -/
inductive LentCall where
  | handle (client : ClientId) (address : Bytes) (inserted : Int)
  | release (client : ClientId)
  | clear
  | drop (entry : Nat)

/-- One call. -/
def Lent.call (s : Lent) : LentCall → Option Lent
  | .handle client address inserted =>
    match s.peers.handle client address inserted with
    | (peers, .ok entry) => some ⟨peers, entry :: s.clones⟩
    | (peers, .error _) => some ⟨peers, s.clones⟩
  | .release client => some ⟨s.peers.release client, s.clones⟩
  | .clear => some ⟨s.peers.clear, s.clones⟩
  | .drop entry =>
    -- A caller drops what it got.
    if entry ∈ s.clones then some ⟨s.peers.drop entry, s.clones.erase entry⟩ else none

end PeerAddresses

/-- The sequences of calls on an endpoint's address vector, by callers that keep what they get. -/
def lentCalls (format : AddressFormat) : Machine PeerAddresses.Lent PeerAddresses.LentCall where
  init s := s = ⟨PeerAddresses.new format, []⟩
  step s call := s.call call

namespace PeerAddresses

/-- The most entries that were in the vector in one of the states. -/
def peak (visited : List Lent) : Nat := (visited.map fun s => s.peers.live).foldl max 0

/-- One more state raises the peak to its own number of live entries, or not at all. -/
theorem peak_concat (visited : List Lent) (s : Lent) :
    peak (visited ++ [s]) = max (peak visited) s.peers.live := by
  rw [peak, List.map_append, List.foldl_append]
  rfl

/-- The index is tight in what was live so far. -/
def TightSoFar (s : Lent × List Lent) : Prop :=
  Tight s.1.peers (fun i => s.1.clones.count i) (max minimumSweep (2 * peak s.2))

/-- One clone more. -/
theorem count_one_more (clones : List Nat) (entry i : Nat) :
    (entry :: clones).count i = clones.count i + one entry i := by
  rw [List.count_cons, one]
  exact congrArg _ (if_congr (by rw [beq_iff_eq, eq_comm]) rfl rfl)

/-- Every call keeps the index tight. -/
theorem TightSoFar.step {s : Lent × List Lent} {s' : Lent} {e : LentCall} (h : TightSoFar s)
    (hcall : s.1.call e = some s') : TightSoFar (s', s.2 ++ [s']) := by
  have hpeak := peak_concat s.2 s'
  have hmono : max minimumSweep (2 * peak s.2) ≤ max minimumSweep (2 * peak (s.2 ++ [s'])) := by
    rw [hpeak]
    omega
  cases e with
  | handle client address inserted =>
    simp only [Lent.call] at hcall
    split at hcall
    · next peers entry hhandle =>
      cases hcall
      refine Tight.mono ((h.handle_ok hhandle).congr fun i => (count_one_more ..).symm) ?_
      -- The state after the call is among those visited.
      rw [hpeak]
      show max _ (max minimumSweep (2 * peers.live))
        ≤ max minimumSweep (2 * max (peak s.2) peers.live)
      omega
    · next peers error hhandle =>
      cases hcall
      exact (h.handle_error hhandle).mono hmono
  | release client =>
    cases hcall
    exact (Tight.release h client).mono hmono
  | clear =>
    cases hcall
    exact (Tight.clear h).mono hmono
  | drop entry =>
    simp only [Lent.call] at hcall
    split at hcall
    · next hmem =>
      cases hcall
      refine Tight.mono (Tight.drop (Tight.congr h fun i => ?_)) hmono
      rw [← count_one_more]
      exact (List.perm_cons_erase hmem).count_eq i
    · cases hcall

end PeerAddresses

/-- The address index is bounded by live clients. In every run of calls, with any addresses and
with callers that keep their entries as long as they like, the index has at most `sweep_at` keys.
And `sweep_at` is at most 64, or twice the most entries that were live at once so far. -/
theorem index_bounded {format : AddressFormat}
    {s : PeerAddresses.Lent × List PeerAddresses.Lent}
    (h : ((lentCalls format).observing fun _ _ s' => [s']).Reachable s) :
    s.1.peers.byAddress.entries.length ≤ s.1.peers.sweepAt ∧
      s.1.peers.sweepAt ≤ max minimumSweep (2 * PeerAddresses.peak s.2) ∧
      s.1.peers.byAddress.entries.length ≤ max 64 (2 * PeerAddresses.peak s.2) := by
  have htight : PeerAddresses.TightSoFar s := by
    refine h.invariant_observed (I := PeerAddresses.TightSoFar) (fun _ _ => trivial) ?_ ?_
    · rintro s rfl
      exact PeerAddresses.Tight.new format
    · intro s seen e s' _ hcall hs
      exact hs.step hcall
  exact ⟨htight.small, htight.threshold, htight.small.trans htight.threshold⟩

/-- A client advertises one address and then another, and keeps both entries. The index has both
keys, one entry is live for the client and the other for its caller. -/
theorem index_bounded_readvertised :
    ∃ s, ((lentCalls .opaqueBytes).observing fun _ _ s' => [s']).run
        (⟨.new .opaqueBytes, []⟩, []) [.handle 1 [10] 1, .handle 1 [20] 1] = some s ∧
      s.1.peers.byAddress.entries.length = 2 ∧ PeerAddresses.peak s.2 = 2 ∧
      s.1.peers.sweepAt ≤ max minimumSweep (2 * PeerAddresses.peak s.2) := by
  obtain ⟨s, hrun, hlength, hpeak⟩ :
      ∃ s, ((lentCalls .opaqueBytes).observing fun _ _ s' => [s']).run
          (⟨.new .opaqueBytes, []⟩, []) [.handle 1 [10] 1, .handle 1 [20] 1] = some s ∧
        s.1.peers.byAddress.entries.length = 2 ∧ PeerAddresses.peak s.2 = 2 :=
    ⟨_, rfl, by decide +kernel, by decide +kernel⟩
  have hstart : ((lentCalls .opaqueBytes).observing fun _ _ s' => [s']).init
      (⟨.new .opaqueBytes, []⟩, []) := ⟨rfl, rfl⟩
  exact ⟨s, hrun, hlength, hpeak, (index_bounded (Machine.reach_run hstart _ hrun)).2.1⟩

end Vdma.Fabric
