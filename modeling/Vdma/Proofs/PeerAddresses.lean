import Vdma.Fabric.PeerAddresses
import Vdma.Lib.Machine

/-!
# `Vdma.Proofs.PeerAddresses`: the address vector holds what clients hold

`Sound p extra` is the invariant of the entries, where `extra i` is the number of
clones of entry `i` that callers of `handle` have. It has three parts. The counters
are right about the clients and the callers. Every live entry is found in the index
under its identity. Every index key names the bytes its entry was inserted with.

Two live entries of one slot would both be found by one lookup, so the second part
makes the slots of live entries distinct. It also makes `resolve` leave the slot
free: when it answers no entry, its key is gone from the index.

Each operation has one rule. `handle` needs that no caller has a clone, because an
evicted entry must leave the vector before the new one enters it. `peerCalls` is
the machine of all call sequences.
-/

set_option autoImplicit false

namespace Vdma.Fabric

open Vdma.Lib

/-- The bytes that name an address's endpoint slot. -/
def AddressFormat.identity (format : AddressFormat) (address : Bytes) : Bytes :=
  match format with
  | .efa => address.take efaIdentityLen
  | .opaqueBytes => address

/-- The bytes up to the length of an address's identity are its identity. -/
theorem AddressFormat.take_identityLen {format : AddressFormat} {address : Bytes} {length : Nat}
    (h : format.identityLen address = .ok length) :
    address.take length = format.identity address := by
  cases format with
  | efa =>
    simp only [identityLen] at h
    split at h
    · cases h
    · cases h
      rfl
  | opaqueBytes =>
    cases h
    exact List.take_length

namespace PeerAddresses

variable {p p' : PeerAddresses} {extra extra' : Nat → Nat}

/-- The number of clients that hold an entry. -/
def holders (p : PeerAddresses) (i : Nat) : Nat :=
  Assoc.weight (fun held => if held = i then 1 else 0) p.byClient

/-- One clone of `entry`. -/
def one (entry : Nat) (i : Nat) : Nat := if i = entry then 1 else 0

/-- An entry has a holder just when some client's slot names it. -/
theorem holders_pos_iff {i : Nat} : 0 < p.holders i ↔ ∃ c, p.byClient.lookup c = some i := by
  unfold holders
  rw [Assoc.weight_pos_iff]
  constructor
  · rintro ⟨j, hj, hpos⟩
    have heq : j = i := by
      by_contra hne
      simp [hne] at hpos
    subst heq
    exact Assoc.mem_values_iff.mp hj
  · rintro ⟨c, hc⟩
    exact ⟨i, Assoc.mem_values_iff.mpr ⟨c, hc⟩, by simp⟩

/-- Releasing takes away the client's own hold. -/
theorem holders_release (p : PeerAddresses) (c : ClientId) (i : Nat) :
    (p.release c).holders i + (if p.byClient.lookup c = some i then 1 else 0) = p.holders i := by
  show Assoc.weight _ (p.byClient.erase c) + _ = Assoc.weight _ p.byClient
  cases hc : p.byClient.lookup c with
  | none => simp [Assoc.erase_of_lookup_none hc]
  | some held =>
    rw [Assoc.weight_of_lookup hc]
    simp only [Option.some.injEq]
    omega

/-- Holding trades the client's previous hold for the new one. -/
theorem holders_hold (p : PeerAddresses) (c : ClientId) (entry i : Nat) :
    (p.hold c entry).holders i + (if p.byClient.lookup c = some i then 1 else 0)
      = p.holders i + one entry i := by
  have hrelease := p.holders_release c i
  have hinsert : (p.hold c entry).holders i
      = (if entry = i then 1 else 0) + (p.release c).holders i :=
    Assoc.weight_insert _ p.byClient c entry
  have hone : one entry i = if entry = i then 1 else 0 := if_congr eq_comm rfl rfl
  omega

/-- Eviction takes the entry from all its clients and no other entry from any. -/
theorem holders_evict (p : PeerAddresses) (stale i : Nat) :
    (p.evict stale).holders i = if i = stale then 0 else p.holders i := by
  show Assoc.weight _ (Assoc.retain (fun _ held => !(held == stale)) p.byClient) = _
  rw [Assoc.weight_retain_values]
  split
  · next heq =>
    subst heq
    rw [Assoc.weight_congr (g := fun _ => 0) fun held _ => by simp]
    unfold Assoc.weight
    simp
  · next hne =>
    refine Assoc.weight_congr fun held _ => ?_
    by_cases hheld : held = i
    · simp [hheld, hne]
    · simp [hheld]

/-- The counters are right about the clients, when callers have `extra` clones. -/
abbrev Tallies (p : PeerAddresses) (extra : Nat → Nat) : Prop :=
  p.handles.Counts fun i => p.holders i + extra i

namespace Tallies

/-- A client's release takes one from the tally of its entry. -/
theorem release (h : Tallies p extra) (c : ClientId) : Tallies (p.release c) extra := by
  have hholders := p.holders_release c
  refine (h.dropOption fun i hi => ?_).congr fun i => ?_
  · have := hholders i
    rw [if_pos hi] at this
    omega
  · have := hholders i
    omega

/-- Another clone of a live entry. -/
theorem clone (h : Tallies p extra) {entry : Nat} (hentry : 0 < p.holders entry + extra entry) :
    Tallies { p with handles := p.handles.clone entry } fun i => extra i + one entry i := by
  refine (Handles.Counts.clone h hentry).congr fun i => ?_
  show p.holders i + extra i + one entry i = p.holders i + (extra i + one entry i)
  omega

/-- A client that takes hold of an entry adds one to its tally. -/
theorem hold (h : Tallies p extra) (c : ClientId) {entry : Nat}
    (hentry : 0 < p.holders entry + extra entry) : Tallies (p.hold c entry) extra := by
  have hholders := p.holders_hold c entry
  have hrelease := p.holders_release c
  refine ((Handles.Counts.clone h hentry).dropOption fun i hi => ?_).congr fun i => ?_
  · have := hrelease i
    rw [if_pos hi] at this
    omega
  · have := hholders i
    have := hrelease i
    simp only [one] at *
    omega

/-- The clone a caller drops is one it had. -/
theorem drop {entry : Nat} (h : Tallies p fun i => extra i + one entry i) :
    Tallies (p.drop entry) extra := by
  have hentry : 0 < p.holders entry + (extra entry + one entry entry) := by
    simp only [one, if_true]
    omega
  refine (Handles.Counts.drop h hentry).congr fun i => ?_
  show p.holders i + (extra i + one entry i) - one entry i = p.holders i + extra i
  omega

/-- Eviction takes away the clients' holds. The upgraded clone outlives them and is the last to
go. -/
theorem evict (h : Tallies p extra) {stale : Nat} (hstale : 0 < p.holders stale + extra stale) :
    Tallies (p.evict stale) extra := by
  have hholders := p.holders_evict stale
  -- The clients that hold the entry are as many as its count of holders.
  have hcount : ∀ i,
      (Assoc.retain (fun _ held => held == stale) p.byClient).values.count i
        = if i = stale then p.holders i else 0 := by
    intro i
    rw [Assoc.count_values, Assoc.weight_retain_values]
    split
    · next heq =>
      subst heq
      refine Assoc.weight_congr fun held _ => ?_
      by_cases hheld : held = i <;> simp [hheld]
    · next hne =>
      rw [Assoc.weight_congr (g := fun _ => 0) fun held _ => ?_]
      · unfold Assoc.weight
        simp
      · by_cases hheld : held = i
        · simp [hheld, hne]
        · simp [hheld]
  -- The entry is cloned, each client's handle is dropped, and then the clone.
  have hclone := Handles.Counts.clone h hstale
  have hall := hclone.dropAll
    (l := (Assoc.retain (fun _ held => held == stale) p.byClient).values) fun i => by
      rw [hcount i]
      split <;> omega
  refine (hall.drop (i := stale) ?_).congr fun i => ?_
  · rw [hcount stale, if_pos rfl, if_pos rfl]
    omega
  · rw [hcount i, hholders i]
    by_cases heq : i = stale
    · simp only [if_pos heq]
      omega
    · simp only [if_neg heq]
      omega

/-- With every client gone, only the callers have clones. -/
theorem clear (h : Tallies p extra) : Tallies p.clear extra := by
  have hcount : ∀ i, p.byClient.values.count i = p.holders i := fun i =>
    Assoc.count_values p.byClient i
  refine (Handles.Counts.dropAll h fun i => ?_).congr fun i => ?_
  · rw [hcount i]
    omega
  · rw [hcount i]
    show p.holders i + extra i - p.holders i = 0 + extra i
    omega

end Tallies

/-- The invariant of the entries, when callers have `extra` clones. -/
structure Sound (p : PeerAddresses) (extra : Nat → Nat) : Prop where
  counts : p.handles.Counts fun i => p.holders i + extra i
  indexed : ∀ i r, p.handles.Open i → p.handles.cells[i]? = some r →
    p.byAddress.lookup (p.format.identity r.address) = some ⟨r.address, i⟩
  named : ∀ identity known, p.byAddress.lookup identity = some known →
    p.handles.cells[known.entry]? = some ⟨known.bytes⟩ ∧
      identity = p.format.identity known.bytes

namespace Sound

/-- A new vector has no entry and no client. -/
theorem new (format : AddressFormat) : Sound (PeerAddresses.new format) fun _ => 0 where
  counts := Handles.Counts.empty
  indexed i r h := absurd h.1 (Nat.not_lt_zero i)
  named identity known h := by cases h

/-- Only the number of clones matters. -/
theorem congr (h : Sound p extra) (heq : ∀ i, extra i = extra' i) : Sound p extra' :=
  (funext heq : extra = extra') ▸ h

/-- An entry is in the vector exactly while a client or a caller has it. -/
theorem open_iff (h : Sound p extra) (i : Nat) :
    p.handles.Open i ↔ 0 < p.holders i + extra i := h.counts.open_iff i

/-- A change of holds that revives no entry keeps the index right. -/
theorem of_holds (h : Sound p extra) (hformat : p'.format = p.format)
    (hindex : p'.byAddress = p.byAddress) (hcells : p'.handles.cells = p.handles.cells)
    (hcounts : p'.handles.Counts fun i => p'.holders i + extra' i)
    (hopen : ∀ i, 0 < p'.holders i + extra' i → 0 < p.holders i + extra i) :
    Sound p' extra' where
  counts := hcounts
  indexed i r hi hr := by
    rw [hformat, hindex]
    rw [hcells] at hr
    exact h.indexed i r ((h.open_iff i).mpr (hopen i ((hcounts.open_iff i).mp hi))) hr
  named identity known hk := by
    rw [hindex] at hk
    rw [hcells, hformat]
    exact h.named identity known hk

/-- A release keeps the vector sound: an entry goes with its last holder. -/
theorem release (h : Sound p extra) (c : ClientId) : Sound (p.release c) extra := by
  have hholders := p.holders_release c
  refine h.of_holds rfl rfl (Handles.cells_dropOption ..) (Tallies.release h.counts c)
    fun i hi => ?_
  have := hholders i
  omega

/-- Another clone of a live entry. -/
theorem clone (h : Sound p extra) {entry : Nat} (hentry : 0 < p.holders entry + extra entry) :
    Sound { p with handles := p.handles.clone entry } fun i => extra i + one entry i := by
  refine h.of_holds rfl rfl rfl (Tallies.clone h.counts hentry) fun i hi => ?_
  have hi : 0 < p.holders i + (extra i + one entry i) := hi
  by_cases heq : i = entry
  · rwa [heq]
  · simp only [one, if_neg heq] at hi
    omega

/-- So does a hold on an entry that is open. -/
theorem hold (h : Sound p extra) (c : ClientId) {entry : Nat}
    (hentry : 0 < p.holders entry + extra entry) : Sound (p.hold c entry) extra := by
  have hholders := p.holders_hold c entry
  refine h.of_holds rfl rfl (Handles.cells_dropOption ..) (Tallies.hold h.counts c hentry)
    fun i hi => ?_
  have := hholders i
  by_cases heq : i = entry
  · rwa [heq]
  · simp only [one, if_neg heq] at this
    omega

/-- The clone a caller drops is one it had. -/
theorem drop {entry : Nat} (h : Sound p fun i => extra i + one entry i) :
    Sound (p.drop entry) extra := by
  refine h.of_holds rfl rfl (Handles.cells_drop ..) (Tallies.drop h.counts)
    fun i (hi : 0 < p.holders i + extra i) => ?_
  omega

/-- With no clones about, eviction removes the entry from the vector. -/
theorem evict (h : Sound p fun _ => 0) {stale : Nat} (hstale : 0 < p.holders stale) :
    Sound (p.evict stale) fun _ => 0 := by
  have hholders := p.holders_evict stale
  refine h.of_holds rfl rfl ((Handles.cells_drop ..).trans (Handles.cells_dropAll ..))
    (Tallies.evict h.counts hstale) fun i hi => ?_
  rw [hholders i] at hi
  split at hi <;> omega

/-- A key that no live entry has may leave the index. -/
theorem forget (h : Sound p extra) {identity : Bytes}
    (hfree : ∀ i r, p.handles.Open i → p.handles.cells[i]? = some r →
      p.format.identity r.address ≠ identity) : Sound (p.forget identity) extra where
  counts := h.counts
  indexed i r hi hr := by
    show (p.byAddress.erase identity).lookup (p.format.identity r.address) = _
    rw [AList.lookup_erase_ne (hfree i r hi hr)]
    exact h.indexed i r hi hr
  named identity' known hk := by
    change (p.byAddress.erase identity).lookup identity' = some known at hk
    by_cases heq : identity' = identity
    · subst heq
      rw [AList.lookup_erase] at hk
      cases hk
    · rw [AList.lookup_erase_ne heq] at hk
      exact h.named identity' known hk

end Sound

/-- What is held for a slot is what a live entry was inserted with. -/
theorem held_eq_some {identity address : Bytes} {same : Bool} {entry : Nat}
    (h : p.held identity address = some (same, entry)) :
    ∃ known, p.byAddress.lookup identity = some known ∧ known.entry = entry ∧
      0 < p.handles.strong entry ∧ (same = true ↔ known.bytes = address) := by
  unfold held at h
  split at h
  · next known hknown =>
    split at h
    · next hpos =>
      cases h
      exact ⟨known, hknown, rfl, hpos, by simp⟩
    · cases h
  · cases h

/-- What `resolve` does: a hit, or a free slot. -/
theorem resolve_cases (p : PeerAddresses) (c : ClientId) (identity address : Bytes) :
    (∃ entry, p.held identity address = some (true, entry) ∧
      p.resolve c identity address
        = (({ p with handles := p.handles.clone entry } : PeerAddresses).hold c entry,
            some entry)) ∨
    (∃ stale, p.held identity address = some (false, stale) ∧
      p.resolve c identity address = (((p.evict stale).release c).forget identity, none)) ∨
    (p.held identity address = none ∧
      p.resolve c identity address = ((p.release c).forget identity, none)) := by
  unfold resolve
  split
  · next entry h => exact .inl ⟨entry, h, rfl⟩
  · next stale h => exact .inr (.inl ⟨stale, h, rfl⟩)
  · next h => exact .inr (.inr ⟨h, rfl⟩)

namespace Sound

/-- With no clones about, a live entry is one that some client holds. -/
theorem strong_pos_iff (h : Sound p fun _ => 0) (i : Nat) :
    0 < p.handles.strong i ↔ 0 < p.holders i := by
  rw [h.counts.strong_eq i]
  rfl

/-- The caller of a hit has a clone, of an entry inserted with its very bytes. -/
theorem resolve_hit (h : Sound p fun _ => 0) {c : ClientId} {identity address : Bytes}
    {entry : Nat} (hr : p.resolve c identity address = (p', some entry)) :
    Sound p' (one entry) ∧ p'.handles.cells[entry]? = some ⟨address⟩ ∧
      p'.byClient.lookup c = some entry := by
  rcases p.resolve_cases c identity address with ⟨entry', hheld, heq⟩ | ⟨stale, -, heq⟩ |
    ⟨-, heq⟩
  · -- Only a hit returns an entry before the address vector is asked.
    rw [heq] at hr
    cases hr
    obtain ⟨known, hknown, rfl, hpos, hsame⟩ := held_eq_some hheld
    rw [h.strong_pos_iff] at hpos
    have hcell := (h.named identity known hknown).1
    rw [hsame.mp rfl] at hcell
    refine ⟨?_, ?_, ?_⟩
    · refine ((h.clone (by omega)).hold c ?_).congr fun i => Nat.zero_add _
      show 0 < p.holders known.entry + (0 + one known.entry known.entry)
      omega
    · show ((p.handles.clone known.entry).clone known.entry |>.dropOption _).cells[_]? = _
      rw [Handles.cells_dropOption]
      exact hcell
    · exact AList.lookup_insert _
  · rw [heq] at hr
    cases hr
  · rw [heq] at hr
    -- Those two go on to enroll.
    cases hr

/-- When the address has no entry, the slot is left free: the client holds nothing, and
the index has no key for the slot. -/
theorem resolve_miss (h : Sound p fun _ => 0) {c : ClientId} {identity address : Bytes}
    (hr : p.resolve c identity address = (p', none)) :
    Sound p' (fun _ => 0) ∧ p'.format = p.format ∧ p'.byAddress.lookup identity = none := by
  rcases p.resolve_cases c identity address with ⟨entry, -, heq⟩ | ⟨stale, hheld, heq⟩ |
    ⟨hheld, heq⟩
  · rw [heq] at hr
    cases hr
  · rw [heq] at hr
    cases hr
    obtain ⟨known, hknown, rfl, hpos, -⟩ := held_eq_some hheld
    rw [h.strong_pos_iff] at hpos
    have hevict := h.evict hpos
    refine ⟨(hevict.release c).forget fun i r hi hcell hidentity => ?_, rfl,
      AList.lookup_erase _ _⟩
    -- A live entry of the slot would be the evicted one.
    have hlookup := (hevict.release c).indexed i r hi hcell
    have hfound : p.byAddress.lookup identity = some ⟨r.address, i⟩ := by
      rw [← hidentity]
      exact hlookup
    rw [hknown] at hfound
    have hentry : known.entry = i := congrArg Known.entry (Option.some.inj hfound)
    have hholders := (p.evict known.entry).holders_release c i
    have hgone := p.holders_evict known.entry i
    rw [if_pos hentry.symm] at hgone
    have hlive := ((hevict.release c).open_iff i).mp hi
    omega
  · rw [heq] at hr
    cases hr
    refine ⟨(h.release c).forget fun i r hi hcell hidentity => ?_, rfl, AList.lookup_erase _ _⟩
    -- A live entry of the slot would have been held.
    have hlookup := (h.release c).indexed i r hi hcell
    have hfound : p.byAddress.lookup identity = some ⟨r.address, i⟩ := by
      rw [← hidentity]
      exact hlookup
    have hlive := ((h.release c).open_iff i).mp hi
    have hholders := p.holders_release c i
    have hpos : 0 < p.handles.strong i := (h.strong_pos_iff i).mpr (by omega)
    unfold held at hheld
    rw [hfound] at hheld
    simp [hpos] at hheld

/-- The sweep drops no key of a live entry. -/
theorem lookup_sweep {identity : Bytes} {known : Known}
    (hknown : p.byAddress.lookup identity = some known) (hlive : 0 < p.handles.strong known.entry) :
    p.sweep.byAddress.lookup identity = some known := by
  unfold sweep
  split
  · exact hknown
  · show (Assoc.retain _ p.byAddress).lookup identity = some known
    rw [Assoc.lookup_retain, hknown]
    simp [hlive]

/-- What a sweep keeps, it keeps as it was. -/
theorem lookup_of_sweep {identity : Bytes} {known : Known}
    (hknown : p.sweep.byAddress.lookup identity = some known) :
    p.byAddress.lookup identity = some known := by
  unfold sweep at hknown
  split at hknown
  · exact hknown
  · change (Assoc.retain _ p.byAddress).lookup identity = some known at hknown
    rw [Assoc.lookup_retain, Option.filter_eq_some_iff] at hknown
    exact hknown.1

/-- A sweep touches neither entries nor clients. -/
theorem handles_sweep (p : PeerAddresses) :
    p.sweep.handles = p.handles ∧ p.sweep.byClient = p.byClient ∧ p.sweep.format = p.format := by
  unfold sweep
  split <;> exact ⟨rfl, rfl, rfl⟩

end Sound

/-- The caller has the one clone of a new entry. -/
theorem Tallies.index (h : Tallies p extra) (identity address : Bytes) :
    Tallies (p.index identity address) fun i => extra i + one p.handles.next i := by
  obtain ⟨hhandles, hclients, -⟩ :=
    Sound.handles_sweep { p with handles := p.handles.new ⟨address⟩ }
  show Handles.Counts (PeerAddresses.sweep _).handles _
  rw [hhandles]
  refine (Handles.Counts.new h ⟨address⟩).congr fun i => ?_
  show p.holders i + extra i + one p.handles.next i
    = Assoc.weight _ (PeerAddresses.sweep _).byClient + (extra i + one p.handles.next i)
  rw [hclients, Nat.add_assoc]
  rfl

namespace Sound

/-- A new entry enters a free slot. The caller has the one clone of it. -/
theorem index (h : Sound p fun _ => 0) {address : Bytes}
    (hfree : p.byAddress.lookup (p.format.identity address) = none) :
    Sound (p.index (p.format.identity address) address) (one p.handles.next) := by
  obtain ⟨hhandles, -, hformat⟩ := handles_sweep { p with handles := p.handles.new ⟨address⟩ }
  have hcounts := h.counts.new ⟨address⟩
  have hindex : (p.index (p.format.identity address) address).handles
      = p.handles.new ⟨address⟩ := hhandles
  refine ⟨(Tallies.index h.counts _ address).congr fun i => ?_, fun i r hi hr => ?_,
    fun identity known hk => ?_⟩
  · exact congrArg (PeerAddresses.holders _ i + ·) (Nat.zero_add _)
  · rw [hindex] at hi hr
    show (AList.insert _ _ (PeerAddresses.sweep _).byAddress).lookup
      ((PeerAddresses.sweep _).format.identity r.address) = _
    rw [hformat]
    by_cases hnew : i = p.handles.next
    · subst hnew
      rw [Handles.getElem?_cells_new] at hr
      cases hr
      exact AList.lookup_insert _
    · have hlt : i < p.handles.next := by
        have := hi.1
        rw [Handles.next_new] at this
        omega
      rw [Handles.getElem?_cells_new_of_lt _ _ hlt] at hr
      have hlookup := h.indexed i r ⟨hlt, hi.2⟩ hr
      have hother : p.format.identity r.address ≠ p.format.identity address := by
        intro heq
        rw [heq, hfree] at hlookup
        cases hlookup
      rw [AList.lookup_insert_ne hother]
      refine lookup_sweep hlookup ?_
      -- It is live, so the sweep keeps it.
      show 0 < (p.handles.new _).strong i
      rw [hcounts.strong_eq i]
      have hpos := (h.open_iff i).mp ⟨hlt, hi.2⟩
      omega
  · rw [hindex]
    change (AList.insert _ _ (PeerAddresses.sweep _).byAddress).lookup identity = some known at hk
    show _ ∧ identity = (PeerAddresses.sweep _).format.identity known.bytes
    rw [hformat]
    by_cases hsame : identity = p.format.identity address
    · subst hsame
      rw [AList.lookup_insert] at hk
      cases hk
      exact ⟨Handles.getElem?_cells_new .., rfl⟩
    · rw [AList.lookup_insert_ne hsame] at hk
      obtain ⟨hcell, hidentity⟩ := h.named identity known
        (lookup_of_sweep (p := { p with handles := p.handles.new ⟨address⟩ }) hk)
      refine ⟨?_, hidentity⟩
      have hlt : known.entry < p.handles.next := by
        by_contra hge
        rw [List.getElem?_eq_none (by simpa [Handles.next] using hge)] at hcell
        cases hcell
      rw [Handles.getElem?_cells_new_of_lt _ _ hlt]
      exact hcell

/-- After a successful `fi_av_insert` the client holds the new entry and the caller has a
clone of it. -/
theorem enroll_ok (h : Sound p fun _ => 0) {c : ClientId} {address : Bytes} {inserted : Int}
    {entry : Nat} (hfree : p.byAddress.lookup (p.format.identity address) = none)
    (henroll : p.enroll c (p.format.identity address) address inserted = (p', .ok entry)) :
    Sound p' (one entry) ∧ p'.format = p.format ∧ p'.handles.cells[entry]? = some ⟨address⟩ ∧
      p'.byClient.lookup c = some entry := by
  unfold enroll at henroll
  split at henroll
  · cases henroll
  · cases henroll
    obtain ⟨hhandles, -, hformat⟩ := handles_sweep { p with handles := p.handles.new ⟨address⟩ }
    refine ⟨(h.index hfree).hold c ?_, hformat, ?_, AList.lookup_insert _⟩
    · simp [one]
    · refine (congrArg (fun cells => cells[p.handles.next]?) (Handles.cells_dropOption ..)).trans ?_
      show (PeerAddresses.sweep _).handles.cells[p.handles.next]? = _
      rw [hhandles]
      exact Handles.getElem?_cells_new ..

end Sound

/-- The three ends of `handle`: a refused length, a hit, and `enroll` into the slot that
`resolve` left. -/
theorem handle_cases (p : PeerAddresses) (c : ClientId) (address : Bytes) (inserted : Int) :
    (∃ error, p.format.identityLen address = .error error ∧
      p.handle c address inserted = (p, .error error)) ∨
    (∃ found entry, p.resolve c (p.format.identity address) address = (found, some entry) ∧
      p.handle c address inserted = (found, .ok entry)) ∨
    (∃ room, p.resolve c (p.format.identity address) address = (room, none) ∧
      p.handle c address inserted
        = room.enroll c (p.format.identity address) address inserted) := by
  unfold handle
  cases hlength : p.format.identityLen address with
  | error error => exact .inl ⟨error, rfl, rfl⟩
  | ok length =>
    right
    dsimp only
    rw [AddressFormat.take_identityLen hlength]
    split
    · next found entry hr => exact .inl ⟨found, entry, hr, rfl⟩
    · next room hr => exact .inr ⟨room, hr, rfl⟩

namespace Sound

/-- The format of the vector never changes. -/
theorem resolve_format (p : PeerAddresses) (c : ClientId) (identity address : Bytes) :
    (p.resolve c identity address).1.format = p.format := by
  rcases p.resolve_cases c identity address with ⟨_, -, heq⟩ | ⟨_, -, heq⟩ | ⟨-, heq⟩ <;>
    rw [heq] <;> rfl

/-- What `handle` answers: an entry inserted with exactly the bytes asked for, which the
client holds and of which the caller has one clone. -/
theorem handle_ok (h : Sound p fun _ => 0) {c : ClientId} {address : Bytes} {inserted : Int}
    {entry : Nat} (hhandle : p.handle c address inserted = (p', .ok entry)) :
    Sound p' (one entry) ∧ p'.format = p.format ∧ p'.handles.cells[entry]? = some ⟨address⟩ ∧
      p'.byClient.lookup c = some entry := by
  rcases p.handle_cases c address inserted with ⟨error, -, heq⟩ | ⟨found, entry', hr, heq⟩ |
    ⟨room, hr, heq⟩
  · rw [heq] at hhandle
    cases hhandle
  · rw [heq] at hhandle
    cases hhandle
    obtain ⟨hsound, hcell, hclient⟩ := h.resolve_hit hr
    have hformat := resolve_format p c (p.format.identity address) address
    rw [hr] at hformat
    exact ⟨hsound, hformat, hcell, hclient⟩
  · rw [heq] at hhandle
    obtain ⟨hsound, hformat, hfree⟩ := h.resolve_miss hr
    rw [← hformat] at hhandle hfree
    obtain ⟨hsound', hformat', hrest⟩ := hsound.enroll_ok hfree hhandle
    exact ⟨hsound', hformat'.trans hformat, hrest⟩

/-- A `handle` that fails leaves the state alone, or the slot free. -/
theorem handle_error {c : ClientId} {address : Bytes} {inserted : Int} {error : DmaError}
    (hhandle : p.handle c address inserted = (p', .error error)) :
    p' = p ∨ p.resolve c (p.format.identity address) address = (p', none) := by
  rcases p.handle_cases c address inserted with ⟨error, -, heq⟩ | ⟨found, entry', hr, heq⟩ |
    ⟨room, hr, heq⟩
  · rw [heq] at hhandle
    cases hhandle
    exact .inl rfl
  · rw [heq] at hhandle
    cases hhandle
  · rw [heq] at hhandle
    unfold enroll at hhandle
    split at hhandle <;> cases hhandle
    exact .inr hr

/-- A resolution that fails keeps the vector sound. -/
theorem handle_error_sound (h : Sound p fun _ => 0) {c : ClientId} {address : Bytes}
    {inserted : Int} {error : DmaError}
    (hhandle : p.handle c address inserted = (p', .error error)) :
    Sound p' (fun _ => 0) ∧ p'.format = p.format := by
  rcases handle_error hhandle with rfl | hr
  · exact ⟨h, rfl⟩
  · obtain ⟨hsound, hformat, -⟩ := h.resolve_miss hr
    exact ⟨hsound, hformat⟩

/-- The clear of the vector leaves it sound, with nothing in it. -/
theorem clear (h : Sound p fun _ => 0) : Sound p.clear fun _ => 0 where
  counts := Tallies.clear h.counts
  indexed i r hi := by
    -- Every hold was a client's, so no entry is left.
    have hopen := ((Tallies.clear h.counts).open_iff i).mp hi
    exact absurd hopen (Nat.lt_irrefl 0)
  named identity known hk := by cases hk

end Sound

/-! ### What `handle` does to the holds -/

/-- A resolution removes entries at most. -/
theorem later_resolve (p : PeerAddresses) (c : ClientId) (identity address : Bytes) :
    p.handles.Later (p.resolve c identity address).1.handles := by
  rcases p.resolve_cases c identity address with ⟨entry, -, heq⟩ | ⟨stale, -, heq⟩ | ⟨-, heq⟩
  · rw [heq]
    exact (Handles.Later.clone ..).trans ((Handles.Later.clone ..).trans (.dropOption ..))
  · rw [heq]
    refine Handles.Later.trans ?_ (.dropOption ..)
    exact (Handles.Later.clone ..).trans ((Handles.Later.dropAll ..).trans (.drop ..))
  · rw [heq]
    exact .dropOption ..

/-- An enrolment adds entries at most. -/
theorem later_enroll (p : PeerAddresses) (c : ClientId) (identity address : Bytes)
    (inserted : Int) : p.handles.Later (p.enroll c identity address inserted).1.handles := by
  unfold enroll
  split
  · exact .refl _
  · obtain ⟨hhandles, -, -⟩ := Sound.handles_sweep { p with handles := p.handles.new ⟨address⟩ }
    have hnew : p.handles.Later (p.index identity address).handles := by
      show p.handles.Later (PeerAddresses.sweep _).handles
      rw [hhandles]
      exact .new ..
    exact hnew.trans ((Handles.Later.clone ..).trans (.dropOption ..))

/-- Entries keep their bytes, and removed ones stay removed. -/
theorem later_handle (p : PeerAddresses) (c : ClientId) (address : Bytes) (inserted : Int) :
    p.handles.Later (p.handle c address inserted).1.handles := by
  have hresolve := p.later_resolve c (p.format.identity address) address
  rcases p.handle_cases c address inserted with ⟨error, -, heq⟩ | ⟨found, entry, hr, heq⟩ |
    ⟨room, hr, heq⟩
  · rw [heq]
    exact .refl _
  · rw [heq]
    rwa [hr] at hresolve
  · rw [heq]
    rw [hr] at hresolve
    exact hresolve.trans (room.later_enroll ..)

/-- A superseded entry is live, of the slot of the address, and has other bytes. -/
theorem supersededBy_eq_some {address : Bytes} {stale : Nat}
    (h : p.supersededBy address = some stale) :
    p.held (p.format.identity address) address = some (false, stale) := by
  unfold supersededBy at h
  split at h
  · cases h
  · next length hlength =>
    rw [AddressFormat.take_identityLen hlength] at h
    split at h
    · next hheld =>
      cases h
      exact hheld
    · cases h

/-- `enroll` changes the hold of its own client only. -/
theorem lookup_enroll (p : PeerAddresses) {c c' : ClientId} (hne : c' ≠ c)
    (identity address : Bytes) (inserted : Int) :
    (p.enroll c identity address inserted).1.byClient.lookup c' = p.byClient.lookup c' := by
  unfold enroll
  split
  · rfl
  · obtain ⟨-, hclients, -⟩ := Sound.handles_sweep { p with handles := p.handles.new ⟨address⟩ }
    show ((PeerAddresses.sweep _).byClient.insert c _).lookup c' = _
    rw [AList.lookup_insert_ne hne, hclients]

/-- Another client keeps its hold, unless its entry is superseded. -/
theorem lookup_handle_ne (p : PeerAddresses) {c c' : ClientId} (hne : c' ≠ c) (address : Bytes)
    (inserted : Int) :
    (p.handle c address inserted).1.byClient.lookup c' = p.byClient.lookup c' ∨
    ((p.handle c address inserted).1.byClient.lookup c' = none ∧
      ∃ stale, p.supersededBy address = some stale ∧ p.byClient.lookup c' = some stale) := by
  cases hlength : p.format.identityLen address with
  | error error =>
    left
    simp only [handle, hlength]
  | ok length =>
    have hidentity := AddressFormat.take_identityLen hlength
    have hsuperseded : ∀ stale, p.held (p.format.identity address) address = some (false, stale) →
        p.supersededBy address = some stale := by
      intro stale hheld
      simp only [supersededBy, hlength, hidentity, hheld]
    -- What `resolve` leaves of the hold, `enroll` leaves too.
    have hresolve : (p.resolve c (p.format.identity address) address).1.byClient.lookup c'
          = p.byClient.lookup c' ∨
        ((p.resolve c (p.format.identity address) address).1.byClient.lookup c' = none ∧
          ∃ stale, p.supersededBy address = some stale ∧ p.byClient.lookup c' = some stale) := by
      rcases p.resolve_cases c (p.format.identity address) address with ⟨entry, -, heq⟩ |
        ⟨stale, hheld, heq⟩ | ⟨-, heq⟩
      · rw [heq]
        exact .inl (AList.lookup_insert_ne hne)
      · rw [heq]
        have hlookup :
            (((p.evict stale).release c).forget (p.format.identity address)).byClient.lookup c'
            = (p.byClient.lookup c').filter fun held => !(held == stale) := by
          show ((Assoc.retain _ p.byClient).erase c).lookup c' = _
          rw [AList.lookup_erase_ne hne, Assoc.lookup_retain]
        rw [hlookup]
        cases hc' : p.byClient.lookup c' with
        | none => exact .inl rfl
        | some i =>
          by_cases hi : i = stale
          · subst hi
            exact .inr ⟨by simp, i, hsuperseded i hheld, rfl⟩
          · exact .inl (by simp [Option.filter_some, hi])
      · rw [heq]
        exact .inl (AList.lookup_erase_ne hne)
    rcases p.handle_cases c address inserted with ⟨error, herror, -⟩ | ⟨found, entry, hr, heq⟩ |
      ⟨room, hr, heq⟩
    · rw [hlength] at herror
      cases herror
    · rw [heq]
      rwa [hr] at hresolve
    · rw [heq, room.lookup_enroll hne]
      rwa [hr] at hresolve

namespace Sound

/-- A client that asks for the slot of its own entry keeps it, unless the entry is superseded. -/
theorem lookup_handle_self (h : Sound p fun _ => 0) {c : ClientId} {address : Bytes}
    {inserted : Int}
    {i : Nat} {r : RegisteredAddress} (hc : p.byClient.lookup c = some i)
    (hr : p.handles.cells[i]? = some r)
    (hslot : p.format.identity r.address = p.format.identity address) :
    (p.handle c address inserted).1.byClient.lookup c = some i ∨
      p.supersededBy address = some i := by
  cases hlength : p.format.identityLen address with
  | error error =>
    -- An address of a bad length is refused, and the table is left alone.
    left
    simp only [handle, hlength]
    exact hc
  | ok length =>
    have hidentity := AddressFormat.take_identityLen hlength
    have hpos : 0 < p.holders i := holders_pos_iff.mpr ⟨c, hc⟩
    have hfound := h.indexed i r ((h.open_iff i).mpr (by omega)) hr
    have hheld : p.held (p.format.identity address) address
        = some (decide (r.address = address), i) := by
      rw [held, ← hslot, hfound]
      exact if_pos ((h.strong_pos_iff i).mpr hpos)
    -- The entry of the slot is this client's: it is found again, or superseded by the new address.
    by_cases hsame : r.address = address
    · left
      rw [decide_eq_true hsame] at hheld
      simp only [handle, hlength, hidentity, resolve, hheld]
      exact AList.lookup_insert _
    · right
      rw [decide_eq_false hsame] at hheld
      simp only [supersededBy, hlength, hidentity, hheld]

/-- A superseded entry leaves the vector. -/
theorem dropped_of_supersededBy (h : Sound p fun _ => 0) (c : ClientId) {address : Bytes}
    (inserted : Int) {stale : Nat} (hstale : p.supersededBy address = some stale) :
    stale ∈ (p.handle c address inserted).1.handles.dropped := by
  have hheld := supersededBy_eq_some hstale
  obtain ⟨known, hknown, rfl, hpos, -⟩ := held_eq_some hheld
  -- The stale entry is evicted before the new address is entered.
  have hresolve : p.resolve c (p.format.identity address) address
      = (((p.evict known.entry).release c).forget (p.format.identity address), none) := by
    rw [resolve, hheld]
  obtain ⟨hroom, -, -⟩ := h.resolve_miss hresolve
  have hgone : known.entry
      ∈ (((p.evict known.entry).release c).forget (p.format.identity address)).handles.dropped := by
    -- Nothing holds it any more.
    rw [hroom.counts.mem_dropped]
    refine ⟨?_, ?_⟩
    · have hcell := (h.named _ known hknown).1
      have hlater := p.later_resolve c (p.format.identity address) address
      rw [hresolve] at hlater
      exact (List.getElem?_eq_some_iff.mp (hlater.cells _ _ hcell)).1
    · have hevict := p.holders_evict known.entry known.entry
      rw [if_pos rfl] at hevict
      have hrelease := (p.evict known.entry).holders_release c known.entry
      show ((p.evict known.entry).release c).holders known.entry + 0 = 0
      omega
  rcases p.handle_cases c address inserted with ⟨error, herror, -⟩ | ⟨found, entry, hr, -⟩ |
    ⟨room, hr, heq⟩
  · -- A refused address supersedes nothing.
    rw [supersededBy, herror] at hstale
    cases hstale
  · rw [hresolve] at hr
    cases hr
  · rw [heq]
    rw [hresolve] at hr
    cases hr
    exact (later_enroll ..).dropped hgone

end Sound

/-! ### All sequences of calls -/

/-- A call on the address vector's owner. -/
inductive PeerCall where
  /-- `handle`, and its caller's drop of what it returns. -/
  | handle (client : ClientId) (address : Bytes) (inserted : Int)
  | release (client : ClientId)
  | clear

/-- One call. -/
def call (p : PeerAddresses) : PeerCall → PeerAddresses
  | .handle client address inserted =>
    match p.handle client address inserted with
    | (p, .ok entry) => p.drop entry
    | (p, .error _) => p
  | .release client => p.release client
  | .clear => p.clear

end PeerAddresses

/-- The sequences of calls on an endpoint's address vector. -/
def peerCalls (format : AddressFormat) : Machine PeerAddresses PeerAddresses.PeerCall where
  init p := p = PeerAddresses.new format
  step p call := some (p.call call)

namespace PeerAddresses

variable {p p' : PeerAddresses}

/-- Between calls nobody has a clone, and the entries are sound. -/
theorem sound_reach {format : AddressFormat} {p : PeerAddresses}
    (h : (peerCalls format).Reachable p) : Sound p (fun _ => 0) ∧ p.format = format := by
  refine h.invariant (I := fun p => Sound p (fun _ => 0) ∧ p.format = format) ?_ ?_
  · rintro p rfl
    exact ⟨Sound.new format, rfl⟩
  · -- Each call keeps the tallies; an entry that is returned is dropped by its caller.
    rintro p call p' - hstep ⟨hp, hformat⟩
    cases hstep
    cases call with
    | handle client address inserted =>
      show Sound (match p.handle client address inserted with
        | (p, .ok entry) => p.drop entry
        | (p, .error _) => p) _ ∧ _
      split
      · next q entry hq =>
        obtain ⟨hsound, hsame, -⟩ := hp.handle_ok hq
        refine ⟨Sound.drop (hsound.congr fun i => (Nat.zero_add _).symm), ?_⟩
        simp only [call, hq]
        exact hsame.trans hformat
      · next q error hq =>
        obtain ⟨hsound, hsame⟩ := hp.handle_error_sound hq
        refine ⟨hsound, ?_⟩
        simp only [call, hq]
        exact hsame.trans hformat
    | release client => exact ⟨hp.release client, hformat⟩
    | clear => exact ⟨hp.clear, hformat⟩

/-- Entry `i` is of the slot of `address` and was inserted with other bytes. -/
def Supersedes (p : PeerAddresses) (address : Bytes) (i : Nat) : Prop :=
  ∃ r, p.handles.cells[i]? = some r ∧
    p.format.identity r.address = p.format.identity address ∧ r.address ≠ address

/-- What the vector promises between calls. -/
structure AddressVector (p : PeerAddresses) : Prop where
  /-- It holds exactly the entries held by some client. -/
  held_iff : ∀ i, p.handles.Open i ↔ ∃ c, p.byClient.lookup c = some i
  /-- What was removed was inserted before, and is removed once. -/
  removed_once : p.handles.dropped.Nodup ∧ ∀ i ∈ p.handles.dropped, i < p.handles.next
  /-- No two live entries share a slot. -/
  slots : ∀ i j r r', p.handles.Open i → p.handles.Open j → p.handles.cells[i]? = some r →
    p.handles.cells[j]? = some r' →
      p.format.identity r.address = p.format.identity r'.address → i = j
  /-- A lookup of its identity finds every live entry. -/
  found : ∀ i r, p.handles.Open i → p.handles.cells[i]? = some r →
    p.byAddress.lookup (p.format.identity r.address) = some ⟨r.address, i⟩

/-- What `Sound` says of the vector, in the words of its own documentation. -/
theorem Sound.addressVector (h : Sound p fun _ => 0) : AddressVector p where
  held_iff i := by
    rw [h.open_iff, Nat.add_zero]
    exact holders_pos_iff
  removed_once := ⟨h.counts.nodup, fun i hi => ((h.counts.mem_dropped i).mp hi).1⟩
  slots i j r r' hi hj hr hr' hslot := by
    have hfound := h.indexed i r hi hr
    rw [hslot, h.indexed j r' hj hr'] at hfound
    exact (congrArg Known.entry (Option.some.inj hfound)).symm
  found := h.indexed

/-- A failed `handle` touches its own client and the holders of a superseded address. -/
theorem lookup_resolve_miss (h : Sound p fun _ => 0) {c c' : ClientId} {address : Bytes}
    (hr : p.resolve c (p.format.identity address) address = (p', none)) (hne : c' ≠ c)
    (hother : ∀ i, p.byClient.lookup c' = some i → ¬p.Supersedes address i) :
    p'.byClient.lookup c' = p.byClient.lookup c' := by
  rcases p.resolve_cases c (p.format.identity address) address with ⟨entry, -, heq⟩ |
    ⟨stale, hheld, heq⟩ | ⟨-, heq⟩
  · rw [heq] at hr
    cases hr
  · rw [heq] at hr
    cases hr
    show ((Assoc.retain _ p.byClient).erase c).lookup c' = _
    rw [AList.lookup_erase_ne hne, Assoc.lookup_retain]
    cases hc' : p.byClient.lookup c' with
    | none => rfl
    | some i =>
      -- The evicted entry is superseded, so it is not the one of `c'`.
      obtain ⟨known, hknown, rfl, -, hsame⟩ := held_eq_some hheld
      obtain ⟨hcell, hidentity⟩ := h.named _ known hknown
      have hi : i ≠ known.entry := by
        rintro rfl
        exact hother _ hc' ⟨_, hcell, hidentity.symm, fun heq => by simpa using hsame.mpr heq⟩
      simp [Option.filter_some, hi]
  · rw [heq] at hr
    cases hr
    exact AList.lookup_erase_ne hne

end PeerAddresses

/-- The address vector in every state between calls, and what a call does there. -/
theorem peerAddresses_sound {format : AddressFormat} {p : PeerAddresses}
    (h : (peerCalls format).Reachable p) :
    p.AddressVector ∧
    (∀ c address length room, format.identityLen address = .ok length →
      p.resolve c (address.take length) address = (room, none) →
        ∀ i r, room.handles.Open i → room.handles.cells[i]? = some r →
          format.identity r.address ≠ format.identity address) ∧
    (∀ (q : PeerAddresses) identity known, q.byAddress.lookup identity = some known →
      0 < q.handles.strong known.entry → q.sweep.byAddress.lookup identity = some known) ∧
    (∀ c address inserted q entry, p.handle c address inserted = (q, .ok entry) →
      q.handles.Open entry ∧ q.handles.cells[entry]? = some ⟨address⟩ ∧
        ∀ i, q.byClient.lookup c = some i ↔ i = entry) ∧
    (∀ c address inserted error, format.identityLen address = .error error →
      p.handle c address inserted = (p, .error error)) ∧
    (∀ c address inserted q error, p.handle c address inserted = (q, .error error) →
      q.AddressVector ∧ ∀ c', c' ≠ c →
        (∀ i, p.byClient.lookup c' = some i → ¬p.Supersedes address i) →
          q.byClient.lookup c' = p.byClient.lookup c') := by
  obtain ⟨hp, rfl⟩ := PeerAddresses.sound_reach h
  refine ⟨hp.addressVector, ?_, fun q identity known => PeerAddresses.Sound.lookup_sweep,
    ?_, ?_, ?_⟩
  · intro c address length room hlength hr i r hi hcell hslot
    rw [AddressFormat.take_identityLen hlength] at hr
    -- The index has no key for the slot, and it would have the live entry's.
    obtain ⟨hroom, hformat, hfree⟩ := hp.resolve_miss hr
    have hfound := hroom.indexed i r hi hcell
    rw [hformat, hslot, hfree] at hfound
    cases hfound
  · intro c address inserted q entry hq
    obtain ⟨hsound, -, hcell, hclient⟩ := hp.handle_ok hq
    refine ⟨(hsound.open_iff entry).mpr (by simp [PeerAddresses.one]), hcell, fun i => ?_⟩
    rw [hclient, Option.some.injEq, eq_comm]
  · intro c address inserted error herror
    rcases p.handle_cases c address inserted with ⟨error', herror', heq⟩ | ⟨_, _, hr, heq⟩ |
      ⟨_, hr, heq⟩
    · rw [herror] at herror'
      cases herror'
      exact heq
    all_goals simp [PeerAddresses.handle, herror]
  · intro c address inserted q error hq
    refine ⟨(hp.handle_error_sound hq).1.addressVector, fun c' hne hother => ?_⟩
    rcases PeerAddresses.Sound.handle_error hq with rfl | hr
    · rfl
    · exact PeerAddresses.lookup_resolve_miss hp hr hne hother

/-- Two incarnations of one queue pair, advertised by two clients. -/
def recycledQueuePair : List PeerAddresses.PeerCall :=
  [.handle 1 (List.replicate 32 254) 1, .handle 2 (List.replicate 18 254 ++ List.replicate 14 0) 1]

/-- The second incarnation evicts the first and its client, and the vector is sound. -/
theorem peerAddresses_sound_recycled :
    ∃ p, (peerCalls .efa).run (.new .efa) recycledQueuePair = some p ∧
      p.handles.dropped = [0] ∧ p.byClient.lookup 1 = none ∧ p.byClient.lookup 2 = some 1 ∧
      p.AddressVector := by
  obtain ⟨p, hrun, hdropped, hfirst, hsecond⟩ :
      ∃ p, (peerCalls .efa).run (.new .efa) recycledQueuePair = some p ∧
        p.handles.dropped = [0] ∧ p.byClient.lookup 1 = none ∧ p.byClient.lookup 2 = some 1 :=
    ⟨_, rfl, by decide +kernel, by decide +kernel, by decide +kernel⟩
  exact ⟨p, hrun, hdropped, hfirst, hsecond,
    (peerAddresses_sound (Machine.reach_run rfl recycledQueuePair hrun)).1⟩

end Vdma.Fabric
