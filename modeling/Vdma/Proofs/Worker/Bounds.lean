import Vdma.Proofs.Worker.Built

/-!
# `Vdma.Proofs.Worker.Bounds`: an RMA stays inside its buffers

`posted_within` reads the ranges of a post off the transfer it was made of. The local range
is that of the slice which the caller context supplied, or the byte of the quiesce buffer.
The remote range is that of the transfer, or its last byte.

`missing_or_short` is about the operands that cannot be used: `prepare` refuses them, so no
box is built and nothing is posted.
-/

set_option autoImplicit false

namespace Vdma.Fabric

open Vdma.Lib

variable {T : Type}

section
variable [Operands T]

/-- The slice that the caller context supplies for a transfer. -/
def supplied (request : TransferRequest (Tagged T)) : Option Slice :=
  match request.direction with
  | .toPeer => Operands.source request.callerContext.user
  | .fromPeer length => (Operands.allocate request.callerContext.user length).1

/-- The number of bytes that a transfer with a slice moves. -/
def extent (request : TransferRequest (Tagged T)) (slice : Slice) : Nat :=
  match request.direction with
  | .toPeer => slice.length
  | .fromPeer length => length

/-- No slice is supplied, or one with fewer bytes than a read of the peer brings. -/
def MissingOrShort (request : TransferRequest (Tagged T)) : Prop :=
  ∀ slice, supplied request = some slice → slice.length < extent request slice

variable {setup : Setup} {s : State T} {request : TransferRequest (Tagged T)}

/-- The operand that is resolved is the front of the slice. -/
theorem resolveOperand_ok {pointer length : Nat}
    (h : (resolveOperand request.direction request.callerContext.user).1 = .ok (pointer, length)) :
    ∃ slice, supplied request = some slice ∧ pointer = slice.pointer ∧
      length = extent request slice ∧ extent request slice ≤ slice.length := by
  unfold supplied extent
  -- The direction says where the operand comes from: the token's bytes, or a fresh landing.
  cases hdirection : request.direction with
  | toPeer =>
    rw [hdirection] at h
    simp only [resolveOperand] at h
    split at h
    · next bytes hbytes =>
      cases h
      exact ⟨bytes, hbytes, rfl, rfl, Nat.le_refl _⟩
    · cases h
  | fromPeer requested =>
    rw [hdirection] at h
    simp only [resolveOperand] at h
    split at h
    · next landing user hlanding =>
      split at h
      · cases h
      · next hlength =>
        cases h
        exact ⟨landing, congrArg Prod.fst hlanding, rfl, rfl, Nat.le_of_not_lt hlength⟩
    · cases h

/-- An operand that is missing or short is not resolved. -/
theorem resolveOperand_error (h : MissingOrShort request) :
    ∃ error, (resolveOperand request.direction request.callerContext.user).1 = .error error := by
  cases hoperand : (resolveOperand request.direction request.callerContext.user).1 with
  | error error => exact ⟨error, rfl⟩
  | ok operand =>
    obtain ⟨slice, hslice, -, -, hle⟩ := resolveOperand_ok hoperand
    have hlt := h slice hslice
    omega

/-- Nothing is built of an operand that is missing or short. -/
theorem prepare_missingOrShort (h : MissingOrShort request) (quiesceWrites : Bool) :
    ∃ error, prepare request quiesceWrites = .error ⟨returned request, .error error⟩ := by
  obtain ⟨error, herror⟩ := resolveOperand_error h
  refine ⟨error, ?_⟩
  unfold prepare
  simp only [herror]
  rfl

/-! ### Posts -/

/-- The ranges of `post` are inside those of a transfer that was sent. -/
structure Within (setup : Setup) (sent : List (TransferRequest (Tagged T))) (post : PostedOp)
    (request : TransferRequest (Tagged T)) (slice : Slice) : Prop where
  mem : request ∈ sent
  number_eq : request.number = post.context
  supplied_eq : supplied request = some slice
  fits : extent request slice ≤ slice.length
  transfer : post.kind ≠ .quiesce →
    post.pointer = slice.pointer ∧ post.length = extent request slice
  quiesce : post.kind = .quiesce →
    post.pointer = setup.quiescePointer ∧ post.length = 1
  read : post.kind = .read ↔ ∃ length, request.direction = .fromPeer length
  remote : request.remoteAddress.toNat ≤ post.remoteAddress.toNat ∧
    post.remoteAddress.toNat + post.length ≤ request.remoteAddress.toNat + extent request slice

/-- A post stays inside its transfer. -/
theorem PostFor.within {cells : List RegisteredAddress} {sent : List (TransferRequest (Tagged T))}
    {post : PostedOp} (h : PostFor setup sent cells post) :
    ∃ request slice, Within setup sent post request slice := by
  obtain ⟨request, op, prepared, horigin, -, hshape⟩ := h
  obtain ⟨hoperand, hquiesce, -, haddress, hdirection⟩ := prepare_built horigin.built
  obtain ⟨slice, hslice, hpointer, hlength, hfits⟩ := resolveOperand_ok hoperand
  -- A write or a read of the transfer's own, or the read that follows a write.
  rcases hshape with hpost | ⟨hkind, hone, hbuffer, read, hread, -, hremote⟩
  · have hkind : post.kind ≠ .quiesce ∧
        (post.kind = .read ↔ ∃ length, request.direction = .fromPeer length) := by
      rw [hpost, ← hdirection]
      show (match prepared.direction with | .toPeer => PostKind.write | .fromPeer _ => .read)
            ≠ .quiesce ∧
          ((match prepared.direction with | .toPeer => PostKind.write | .fromPeer _ => .read)
            = .read
            ↔ _)
      cases prepared.direction with
      | toPeer => simp
      | fromPeer length => simp
    -- The post is the prepared op, field by field.
    have hpost_pointer : post.pointer = prepared.pointer := by rw [hpost]; rfl
    have hpost_length : post.length = prepared.length := by rw [hpost]; rfl
    have hpost_remote : post.remoteAddress = prepared.remoteAddress := by rw [hpost]; rfl
    have hremote : post.remoteAddress = request.remoteAddress := hpost_remote.trans haddress
    refine ⟨request, slice, horigin.mem, horigin.number_eq, hslice, hfits,
      fun _ => ⟨hpost_pointer.trans hpointer, hpost_length.trans hlength⟩,
      fun hquiesce => absurd hquiesce hkind.1, hkind.2, ?_, ?_⟩
    · rw [hremote]
    · rw [hremote, hpost_length, hlength]
  · -- The read is of the last byte.
    rw [hread] at hquiesce
    obtain ⟨htoPeer, hpos, -, hlast⟩ := quiesceOf_some hquiesce
    refine ⟨request, slice, horigin.mem, horigin.number_eq, hslice, hfits,
      fun hnot => absurd hkind hnot, fun _ => ⟨hbuffer, hone⟩, ?_, ?_, ?_⟩
    · rw [hkind, htoPeer]
      simp
    · rw [hremote]
      omega
    · rw [hremote, hone, ← hlength]
      omega

/-- Every post stays inside the buffers of its transfer. -/
theorem posted_within (h : (service T setup).Reachable s) {post : PostedOp}
    (hpost : .posted post ∈ s.wire.history) :
    ∃ request slice, Within setup s.callers.sent post request slice :=
  (recorded_reach h post hpost).within

/-! ### Operands that cannot be used -/

/-- A sum over indicators that is not zero has its number. -/
theorem exists_of_indicator {α : Type} {g : α → Nat} {number : Nat} {l : List α}
    (h : 0 < (l.map fun a => indicator number (g a)).sum) : ∃ a ∈ l, g a = number := by
  rw [sum_map_indicator, List.count_pos_iff, List.mem_map] at h
  exact h

/-- A transfer that was sent is in the channel, in a box, or completed. -/
theorem Owned.located (ho : Owned s) (htraced : Traced setup s) (hsent : request ∈ s.callers.sent) :
    request ∈ transfers s.callers.channel ∨ (∃ op ∈ s.boxes, op.number = request.number) ∨
      ∃ c ∈ s.completed, c.number = request.number := by
  have htickets := ho.tickets fun context => indicator request.number context.number
  have hone := le_sum_map hsent fun r => indicator request.number (returned r).number
  have hself : indicator request.number (returned request).number = 1 := if_pos rfl
  have hboxes := sum_boxes s fun op => indicator request.number op.number
  have hcompleted := sum_completed s fun c => indicator request.number c.number
  have hsplit :
      0 < ((transfers s.callers.channel).map fun r => indicator request.number r.number).sum
      ∨ 0 < (s.boxes.map fun op => indicator request.number op.number).sum
      ∨ 0 < (s.completed.map fun c => indicator request.number c.number).sum := by
    simp only [State.owners] at htickets
    change ((transfers s.callers.channel).map fun r => indicator request.number r.number).sum
      + s.live (fun op => indicator request.number op.number)
      + s.hashing (fun op => indicator request.number op.number)
      + s.finished (fun c => indicator request.number c.number) = _ at htickets
    omega
  rcases hsplit with hchannel | hbox | hdone
  · obtain ⟨r, hr, hnumber⟩ := exists_of_indicator hchannel
    -- Two transfers that were sent do not share a number.
    have hsame := List.inj_on_of_nodup_map ho.unique (htraced.channel r hr) hsent hnumber
    exact .inl (hsame ▸ hr)
  · exact .inr (.inl (exists_of_indicator hbox))
  · exact .inr (.inr (exists_of_indicator hdone))

/-- An operand that is missing or short is never posted, and its transfer waits in the channel
or is completed with an error. -/
theorem missing_or_short (h : (service T setup).Reachable s) (hsent : request ∈ s.callers.sent)
    (hshort : MissingOrShort request) :
    (∀ post, .posted post ∈ s.wire.history → post.context ≠ request.number) ∧
      (request ∈ transfers s.callers.channel ∨
        ∃ c ∈ s.completed, ∃ error, c = ⟨returned request, .error error⟩) := by
  obtain ⟨-, ho⟩ := owned_reach h
  -- A number belongs to one request.
  have hunique : ∀ r ∈ s.callers.sent, r.number = request.number → r = request := fun r hr =>
    List.inj_on_of_nodup_map ho.unique hr hsent
  constructor
  · intro post hpost hcontext
    obtain ⟨r, slice, hwithin⟩ := posted_within h hpost
    have hsame := hunique r hwithin.mem (hwithin.number_eq.trans hcontext)
    rw [hsame] at hwithin
    have hlt := hshort slice hwithin.supplied_eq
    have hfits := hwithin.fits
    omega
  · obtain ⟨error, hrefused⟩ := prepare_missingOrShort hshort setup.configuration.quiesceWrites
    have hbuilt := built_reach h
    -- The request is still in the channel, in a box, or completed.
    rcases ho.located (traced_reach h) hsent with hchannel | ⟨op, hop, hnumber⟩ | ⟨c, hc, hnumber⟩
    · exact .inl hchannel
    · -- Nothing was prepared for it, so it has no box.
      obtain ⟨r, op₀, prepared, horigin, -⟩ := hbuilt.boxes op hop
      have hsame := hunique r horigin.mem (horigin.number_eq.trans hnumber)
      have hprepare := horigin.built
      rw [hsame, hrefused] at hprepare
      cases hprepare
    · obtain ⟨r, hr, hrnumber, hfor⟩ := hbuilt.completed c hc
      have hsame := hunique r hr (hrnumber.trans hnumber)
      rw [hsame] at hfor
      refine .inr ⟨c, hc, error, ?_⟩
      -- Its completion is the refusal.
      rcases hfor with hprepare | ⟨op, prepared, hprepare, -⟩
      · rw [hrefused] at hprepare
        exact (Except.error.inj hprepare).symm
      · rw [hrefused] at hprepare
        cases hprepare

end

end Vdma.Fabric
