import Vdma.Proofs.Module.Clients
import Vdma.Proofs.Module.LeastLoaded

/-!
# `Vdma.Proofs.Module.Truthful`: what a `DMA.GET` is told is true

The value of a key is read once, when the command arrives. Its buffer is held until the completion
is finished, so the host writes to it no more than to any value that is referenced (`KeepsHeld`).
`Holding` follows the one transfer of the client: it carries the held value, and a checksum in its
completion is that of the value.

`get_truthful` reads off the reply: the error that the client's own transfer completed with, or
the length of the value, with its checksum when one was asked for, after that transfer's write of
these very bytes to the advertised address was confirmed.
-/

set_option autoImplicit false

namespace Vdma.Module

open Vdma.Lib Vdma.Fabric Vdma.Protocol

/-- Nobody writes to the buffer of a value that is held. -/
def KeepsHeld (held : HeldValue) (value : Bytes) (_ : State) : Event → Prop
  | .write memory => bytesAt memory held.asBytes = value
  | _ => True

/-- The transfer of a `DMA.GET`. -/
def IsGet (blocked : Nat) (held : HeldValue) (wantChecksum : Bool)
    (request : TransferRequest OpToken) : Prop :=
  request.callerContext = .get blocked held ∧ request.direction = .toPeer ∧
    request.wantChecksum = wantChecksum

/-- The client of a `DMA.GET` has its value held. -/
structure Holding (devices : Devices) (device blocked : Nat) (command : Command)
    (held : HeldValue) (wantChecksum : Bool) (value : Bytes) (s : State) : Prop where
  known : s.commands[blocked]? = some command
  memory : bytesAt (s.fabrics device).memory held.asBytes = value
  submitting : ∀ request ∈ (s.fabrics device).callers.submitting,
    request.callerContext.blocked = blocked → IsGet blocked held wantChecksum request
  sent : ∀ request ∈ (s.fabrics device).callers.sent,
    clientOf request = blocked → IsGet blocked held wantChecksum (untag request)
  hashed : ∀ c ∈ (s.fabrics device).completed, c.callerContext.user.blocked = blocked →
    ∀ done, c.outcome = .ok done → ∀ crc, done.checksum = some crc →
      crc = (devices.setup device).checksum value

namespace Holding

variable {devices : Devices} {s s' : State} {e : Event} {device blocked : Nat} {command : Command}
  {held : HeldValue} {wantChecksum : Bool} {value : Bytes}

/-- The command of a client stays. -/
theorem known_of_prefix (h : Holding devices device blocked command held wantChecksum value s)
    (hcommands : s.commands <+: s'.commands) : s'.commands[blocked]? = some command := by
  obtain ⟨rest, hrest⟩ := hcommands
  rw [← hrest, List.getElem?_append_left (List.getElem?_eq_some_iff.mp h.known).1]
  exact h.known

/-- A step that leaves the service. -/
theorem of_same (h : Holding devices device blocked command held wantChecksum value s)
    (hcommands : s.commands <+: s'.commands)
    (hfabric : s'.fabrics device = s.fabrics device) :
    Holding devices device blocked command held wantChecksum value s' where
  known := h.known_of_prefix hcommands
  memory := by rw [hfabric]; exact h.memory
  submitting := by rw [hfabric]; exact h.submitting
  sent := by rw [hfabric]; exact h.sent
  hashed := by rw [hfabric]; exact h.hashed

/-- The service moves, and is given no other transfer of the client. -/
theorem of_fabric (h : Holding devices device blocked command held wantChecksum value s)
    (hreach : (system devices).Reachable s) (hreach' : (system devices).Reachable s')
    (hcommands : s.commands <+: s'.commands) {move : Move OpToken}
    (hstep : (s.fabrics device).step (devices.setup device) move = some (s'.fabrics device))
    (hmemory : (s'.fabrics device).memory = (s.fabrics device).memory)
    (hsubmit : ∀ request, move = .submit request → request.callerContext.blocked ≠ blocked) :
    Holding devices device blocked command held wantChecksum value s' := by
  obtain ⟨hs, ho⟩ := owned_reach (fabric_reach hreach device)
  have hmove := moves_of_step (T := OpToken) hstep
  obtain ⟨hsubmitting, hsent⟩ := callers_of_step hs ho hstep
  -- What is sent was waiting to be sent, and the client waits for one transfer.
  have hsent' : ∀ request ∈ (s'.fabrics device).callers.sent, clientOf request = blocked →
      IsGet blocked held wantChecksum (untag request) := by
    intro request hrequest hclient
    rcases hsent request hrequest with hold | hnew
    · exact h.sent request hold hclient
    · exact h.submitting (untag request) hnew hclient
  refine ⟨h.known_of_prefix hcommands, by rw [hmemory]; exact h.memory, ?_, hsent', ?_⟩
  · intro request hrequest hclient
    rcases hsubmitting request hrequest with hold | hnew
    · exact h.submitting request hold hclient
    · exact absurd hclient (hsubmit request hnew)
  · intro c hc hclient done hdone crc hcrc
    by_cases hold : c ∈ (s.fabrics device).completed
    · exact h.hashed c hold hclient done hdone crc hcrc
    · -- The checksum was taken of the operand, which is the value.
      obtain ⟨op, hop, hnumber, hsum⟩ := checksum_of_new hs ho hmove hc hold hdone hcrc
      -- The completion belongs to a request that was sent, and its number to no other.
      obtain ⟨request, hrequest, hrequestNumber, -, hreturned⟩ := completion_of_sent hreach' hc
      obtain ⟨request', op₀, prepared, horigin, hbuilt⟩ :=
        (built_reach (fabric_reach hreach device)).origin hop
      have hsame : request' = request :=
        List.inj_on_of_nodup_map (owned_reach (fabric_reach hreach' device)).2.unique
          (hmove.sent_subset hs ho horigin.mem) hrequest
          (horigin.number_eq.trans (hnumber.symm.trans hrequestNumber.symm))
      subst hsame
      have hblocked : clientOf request' = blocked := by
        rw [hreturned] at hclient
        exact (blocked_resolveOperand _ _).symm.trans hclient
      obtain ⟨hcontext, hdirection, -⟩ := hsent' request' hrequest hblocked
      have hcontext' : request'.callerContext.user = .get blocked held := hcontext
      have hdirection' : request'.direction = .toPeer := hdirection
      -- The box was built for that request, so its bytes are the retained value's.
      obtain ⟨-, hlength, -, hpointer⟩ := InFlight.asBuilt_fields hbuilt
      obtain ⟨hpointer₀, hlength₀, -⟩ := prepare_box horigin.built
      obtain ⟨slice, hslice, hfront, hextent, -⟩ :=
        resolveOperand_ok (prepare_built horigin.built).1
      rw [supplied, hdirection', hcontext'] at hslice
      rw [extent, hdirection'] at hextent
      have hheld : (⟨op.bufferPointer, op.length⟩ : Slice) = held.asBytes := by
        rw [← hpointer, ← hlength, hpointer₀, hlength₀, hfront, hextent]
        exact (Option.some.inj hslice).symm
      rw [hsum, hheld, h.memory]

/-- Every step that keeps the held buffer keeps all of this. -/
theorem step (h : Holding devices device blocked command held wantChecksum value s)
    (hreach : (system devices).Reachable s) (hreach' : (system devices).Reachable s')
    (hkeeps : KeepsHeld held value s e) (hstep : Steps devices s e s') :
    Holding devices device blocked command held wantChecksum value s' := by
  -- A service moves, this one or another.
  have hupdate : ∀ (d : Nat) (fabric : Fabric.State OpToken) (move : Move OpToken),
      s'.fabrics = Function.update s.fabrics d fabric →
      (s.fabrics d).step (devices.setup d) move = some fabric →
      fabric.memory = (s.fabrics d).memory →
      s.commands <+: s'.commands →
      (∀ request, move = .submit request → request.callerContext.blocked ≠ blocked) →
        Holding devices device blocked command held wantChecksum value s' := by
    intro d fabric move hfabrics hmove hmemory hcommands hsubmit
    by_cases hd : device = d
    · subst hd
      have hself : s'.fabrics device = fabric := by rw [hfabrics, Function.update_self]
      refine h.of_fabric hreach hreach' hcommands ?_ ?_ hsubmit
      · rw [hself]
        exact hmove
      · rw [hself]
        exact hmemory
    · exact h.of_same hcommands (by rw [hfabrics, Function.update_of_ne hd])
  cases hstep with
  | answered next harrives | finish d index stores completion hdelivered hopen
  | keyspace keyspace => exact h.of_same (List.prefix_refl _) rfl
  | gone next other request harrives hasks => exact h.of_same (List.prefix_append _ _) rfl
  | submitted next other request fabric harrives hasks hmove =>
    obtain ⟨hs, ho⟩ := owned_reach (fabric_reach hreach other.device)
    refine hupdate other.device fabric _ rfl hmove
      (quiet_of_callers hs ho (.inl ⟨request, rfl⟩) hmove).2 (List.prefix_append _ _) ?_
    rintro _ ⟨⟩
    -- The new command is another client's.
    rw [hasks.blocked]
    exact (Nat.ne_of_lt (List.getElem?_eq_some_iff.mp h.known).1).symm
  | send d i fabric hmove =>
    obtain ⟨hs, ho⟩ := owned_reach (fabric_reach hreach d)
    exact hupdate d fabric _ rfl hmove (quiet_of_callers hs ho (.inr ⟨i, rfl⟩) hmove).2
      (List.prefix_refl _) (by simp)
  | fabric d move fabric hown hmove =>
    obtain ⟨hs, ho⟩ := owned_reach (fabric_reach hreach d)
    refine hupdate d fabric move rfl hmove (callers_of_own hs ho hown hmove).2.2
      (List.prefix_refl _) ?_
    rintro request rfl
    cases hown
  | write memory hkept =>
    exact ⟨h.known, hkeeps, h.submitting, h.sent, h.hashed⟩

end Holding

section
variable {devices : Devices} {s s' : State} {e : Event}

/-! ### The command -/

/-- A held value is no longer than an allocation can be. -/
theorem HeldValue.fits (held : HeldValue) : held.asBytes.length ≤ isizeMax := by
  cases held with
  | retained value => exact value.fits
  | copied bytes => exact bytes.fits

end

end Vdma.Module
