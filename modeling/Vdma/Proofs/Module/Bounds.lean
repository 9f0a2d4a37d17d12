import Vdma.Proofs.Module.Runs

/-!
# `Vdma.Proofs.Module.Bounds`: RMA stays inside both buffers

`rma_stays_inside` has two halves. The first is about a service with any caller context: the
local range of a post is inside the slice that the context supplied, or inside the quiesce
buffer, and an operand that is missing or short is never posted. The second is about the
module: the remote range of a post is inside the buffer that the command advertised, of the
length read for a `DMA.GET`, which fits the capacity, and of the length asked for by a
`DMA.SET`.
-/

set_option autoImplicit false

namespace Vdma.Module

open Vdma.Lib Vdma.Fabric Vdma.Protocol

/-- `n` is the number of bytes that a command moves: of the value read, which fits the
capacity, or of the length given. -/
def Command.Transfers (command : Command) (n : Nat) : Prop :=
  match command with
  | .get _ _ capacity length => n = length ∧ n ≤ capacity.toNat
  | .set _ _ _ length _ => n = length.toNat

/-- The local range of a post is inside the quiesce buffer, or inside the slice supplied for its
transfer. A read of the peer brings no more than that slice holds. -/
def LocallyInside {T : Type} [Operands T] (setup : Setup) (s : Fabric.State T) (post : PostedOp) :
    Prop :=
  (post.kind = .quiesce ∧ setup.quiescePointer ≤ post.pointer ∧
      post.pointer + post.length ≤ setup.quiescePointer + 8) ∨
    (post.kind ≠ .quiesce ∧ ∃ request ∈ s.callers.sent, request.number = post.context ∧
      ∃ slice, supplied request = some slice ∧ slice.pointer ≤ post.pointer ∧
        post.pointer + post.length ≤ slice.pointer + slice.length ∧
        (post.kind = .read → ∃ length, request.direction = .fromPeer length ∧
          post.length = length ∧ length ≤ slice.length))

/-- The remote range of a post, over the natural numbers, is inside the buffer that the command of
its transfer advertised. -/
def RemotelyInside (s : State) (device : Nat) (post : PostedOp) : Prop :=
  ∃ request ∈ (s.fabrics device).callers.sent, request.number = post.context ∧
    ∃ (blocked : Nat) (command : Command), s.commands[blocked]? = some command ∧
      command.device = device ∧ command.Asks blocked (untag request) ∧
      ∃ n, command.Transfers n ∧
        command.advertisement.remoteAddress.toNat ≤ post.remoteAddress.toNat ∧
        post.remoteAddress.toNat + post.length
          ≤ command.advertisement.remoteAddress.toNat + n

/-- What an operand that is missing or short comes to: it is not posted, and its transfer waits
in the channel or is completed with an error. -/
def Refused {T : Type} [Operands T] (s : Fabric.State T) (request : TransferRequest (Tagged T)) :
    Prop :=
  (∀ post, .posted post ∈ s.wire.history → post.context ≠ request.number) ∧
    (request ∈ transfers s.callers.channel ∨
      ∃ c ∈ s.completed, ∃ error, c = ⟨returned request, .error error⟩)

/-- A post is locally inside when it is inside its transfer. -/
theorem locallyInside_of_within {T : Type} [Operands T] {setup : Setup} {s : Fabric.State T}
    {post : PostedOp} {request : TransferRequest (Tagged T)} {slice : Slice}
    (h : Within setup s.callers.sent post request slice) : LocallyInside setup s post := by
  by_cases hkind : post.kind = .quiesce
  · obtain ⟨hpointer, hlength⟩ := h.quiesce hkind
    exact .inl ⟨hkind, by omega, by omega⟩
  · obtain ⟨hpointer, hlength⟩ := h.transfer hkind
    have hfits := h.fits
    refine .inr ⟨hkind, request, h.mem, h.number_eq, slice, h.supplied_eq, by omega, by omega, ?_⟩
    intro hread
    obtain ⟨length, hdirection⟩ := h.read.mp hread
    have hextent : extent request slice = length := by
      rw [extent, hdirection]
    exact ⟨length, hdirection, by omega, by omega⟩

/-- The bytes that a command moves are those of its transfer. -/
theorem transfers_of_asks {command : Command} {blocked : Nat}
    {request : TransferRequest (Tagged OpToken)} {slice : Slice}
    (hasks : command.Asks blocked (untag request)) (hslice : supplied request = some slice) :
    command.Transfers (extent request slice) := by
  obtain ⟨-, -, -, hcommand⟩ := hasks
  cases command with
  | get device advertisement capacity length =>
    obtain ⟨hdirection, hcapacity, held, hcontext, hheld⟩ := hcommand
    have hdirection' : request.direction = .toPeer := hdirection
    have hcontext' : request.callerContext.user = .get blocked held := hcontext
    -- The source is the value that is held.
    have hsource : held.asBytes = slice := by
      rw [supplied, hdirection', hcontext'] at hslice
      exact Option.some.inj hslice
    have hextent : extent request slice = length := by
      rw [extent, hdirection', ← hsource]
      exact hheld
    exact ⟨hextent, by omega⟩
  | set device advertisement key length expectedCrc =>
    obtain ⟨hdirection, -, -⟩ := hcommand
    have hdirection' : request.direction = .fromPeer length.toNat := hdirection
    show extent request slice = length.toNat
    rw [extent, hdirection']

/-- Every post of the module is remotely inside. -/
theorem remotelyInside {devices : Devices} {s : State} (h : (system devices).Reachable s)
    {device : Nat} {post : PostedOp} (hpost : .posted post ∈ (s.fabrics device).wire.history) :
    RemotelyInside s device post := by
  obtain ⟨request, slice, hwithin⟩ := posted_within (fabric_reach h device) hpost
  obtain ⟨blocked, command, hcommand, hdevice, hasks⟩ :=
    (asked_reach h).sent device request hwithin.mem
  have haddress : request.remoteAddress = command.advertisement.remoteAddress := hasks.2.2.1
  refine ⟨request, hwithin.mem, hwithin.number_eq, blocked, command, hcommand, hdevice, hasks,
    extent request slice, transfers_of_asks hasks hwithin.supplied_eq, ?_⟩
  rw [← haddress]
  exact hwithin.remote

/-- RMA stays inside both buffers. In every run of a service, with any caller context, the local
range of a post is inside the slice supplied for it or inside the quiesce buffer, a read is
posted only into a slice that holds the length asked for, and an operand that is missing or
short is completed with an error and never posted. In every run of the module, the remote range
of a post is inside the buffer of the command, of as many bytes as the command moves. -/
theorem rma_stays_inside :
    (∀ (T : Type) [Operands T] (setup : Setup) (s : Fabric.State T),
      (service T setup).Reachable s →
      (∀ post, .posted post ∈ s.wire.history → LocallyInside setup s post) ∧
        ∀ request ∈ s.callers.sent, MissingOrShort request → Refused s request) ∧
    ∀ (devices : Devices) (s : State), (system devices).Reachable s →
      ∀ device post, .posted post ∈ (s.fabrics device).wire.history →
        RemotelyInside s device post := by
  constructor
  · intro T _ setup s h
    constructor
    · intro post hpost
      obtain ⟨request, slice, hwithin⟩ := posted_within h hpost
      exact locallyInside_of_within hwithin
    · intro request hrequest hshort
      exact missing_or_short h hrequest hshort
  · intro devices s h device post hpost
    exact remotelyInside h hpost

/-- The read of a `DMA.SET` of 9 bytes lands in its destination, and comes out of the buffer that
the command advertised. -/
theorem rma_stays_inside_read :
    ∃ (s : State) (post : PostedOp), .posted post ∈ (s.fabrics 0).wire.history ∧
      post.kind = .read ∧ post.length = 9 ∧
      LocallyInside (checkDevices.setup 0) (s.fabrics 0) post ∧ RemotelyInside s 0 post := by
  obtain ⟨s₁, s₂, s, post, hready, hset, hlands, hhistory, hkind, hlength⟩ :
      ∃ (s₁ s₂ s : State) (post : PostedOp),
        (system checkDevices).run loaded getsReady = some s₁ ∧
        (s₁.dmaSet checkDevices checkCall checkAdvertisement [107] 9 (some 0xe3069283)).map
          Prod.fst = some s₂ ∧
        (system checkDevices).run s₂ lands = some s ∧
        (s.fabrics 0).wire.history = [.posted post, .reaped post true] ∧
        post.kind = .read ∧ post.length = 9 :=
    ⟨_, _, _, _, rfl, rfl, rfl, rfl, rfl, rfl⟩
  have hreach := reachable_lands hready hset hlands
  have hpost : .posted post ∈ (s.fabrics 0).wire.history := by
    rw [hhistory]
    exact .head _
  exact ⟨s, post, hpost, hkind, hlength,
    (rma_stays_inside.1 OpToken _ _ (fabric_reach hreach 0)).1 post hpost,
    rma_stays_inside.2 _ s hreach 0 post hpost⟩

end Vdma.Module
