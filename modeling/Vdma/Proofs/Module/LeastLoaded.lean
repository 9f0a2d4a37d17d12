import Mathlib.Data.List.Chain
import Vdma.Lib.Rotation
import Vdma.Proofs.Module.Runs

/-!
# `Vdma.Proofs.Module.LeastLoaded`: the least loaded device, with ties that rotate

A step of the module that blocks a client has chosen a device, and turns `NEXT` by one
(`Turns`). No other step turns it, so the rotations of the choices of a run are consecutive,
whatever happens in between. With `rotated` of the library, `n` of them put each of the `n`
devices first once.

`index + rotation` wraps when `NEXT` comes within `n` of the end of a `usize`, and there the
order of the ties breaks. The least load is chosen all the same.
-/

set_option autoImplicit false

namespace Vdma.Module

open Vdma.Lib Vdma.Lib.Rotation Vdma.Fabric Vdma.Protocol

/-! ### Choices -/

/-- A choice of `least_loaded_server`: the value of `NEXT`, what was outstanding on each
device, and the device. -/
structure Choice where
  rotation : Nat
  loads : Nat → Nat
  device : Nat

/-- What a state says of the loads. -/
def State.loads (s : State) (index : Nat) : Nat := (s.fabrics index).books.outstanding

/-- The choice of a step. A device is chosen for a transfer, and its client is blocked. -/
def chosen (s : State) (_ : Event) (s' : State) : List Choice :=
  (s'.commands.drop s.commands.length).map fun command => ⟨s.next, s.loads, command.device⟩

/-- What a step does to `NEXT`. -/
inductive Turns (devices : Devices) (s s' : State) : Prop
  /-- No device is chosen. -/
  | stays (hcommands : s'.commands = s.commands) (hnext : s'.next = s.next)
  | turns (command : Command) (hcommands : s'.commands = s.commands ++ [command])
      (hnext : s'.next = (s.next + 1) % addressSpace)
      (hleast : (List.range devices.count).argmin (s.loadKey devices.count s.next)
        = some command.device)

section
variable {devices : Devices} {s s' : State}

/-- With a device to choose, `least_loaded_server` fails only for want of services. -/
theorem leastLoadedServer_spec (s : State) (hcount : 0 < devices.count)
    (services : Except DmaError Unit) :
    (∃ error, s.leastLoadedServer devices services = (s, .error error)) ∨
      ∃ device, s.leastLoadedServer devices services
          = ({ s with next := (s.next + 1) % addressSpace }, .ok device) ∧
        (List.range devices.count).argmin (s.loadKey devices.count s.next) = some device := by
  cases services with
  | error error => exact .inl ⟨error, rfl⟩
  | ok =>
    cases hleast : (List.range devices.count).argmin (s.loadKey devices.count s.next) with
    | none =>
      rw [List.argmin_eq_none, List.range_eq_nil] at hleast
      omega
    | some device =>
      refine .inr ⟨device, ?_, rfl⟩
      simp only [State.leastLoadedServer]
      -- The key reads the loads, and `NEXT` as it was.
      rw [show (List.range devices.count).argmin (State.loadKey
        { s with next := (s.next + 1) % addressSpace } devices.count s.next) = some device
        from hleast]

/-- Submitting blocks nobody else, and turns nothing. -/
theorem submit_state {call : Call} {device : Nat} {request : TransferRequest OpToken}
    (h : s.submit devices call device request = some s') :
    s'.commands = s.commands ∧ s'.next = s.next := by
  unfold State.submit at h
  split at h
  · cases h
    exact ⟨rfl, rfl⟩
  · obtain ⟨fabric, -, rfl⟩ := Option.map_eq_some_iff.mp h
    exact ⟨rfl, rfl⟩

/-- A command whose client is blocked has chosen a device. -/
theorem turns_of_submit {next : Nat} {call : Call} (command : Command)
    {request : TransferRequest OpToken} (hnext : next = (s.next + 1) % addressSpace)
    (hleast : (List.range devices.count).argmin (s.loadKey devices.count s.next)
      = some command.device)
    (h : ({ s with next := next, commands := s.commands ++ [command] } : State).submit devices call
      command.device request = some s') : Turns devices s s' := by
  obtain ⟨hcommands, hturned⟩ := submit_state h
  exact .turns command hcommands (hturned.trans hnext) hleast

/-- A `DMA.SET` chooses once, unless there are no services. -/
theorem turns_of_dmaSet {call : Call} {advertisement : Advertisement} {key : Bytes}
    {length : UInt64} {expectedCrc : Option UInt32} {reply : ValkeyResult}
    (hcount : 0 < devices.count)
    (h : s.dmaSet devices call advertisement key length expectedCrc = some (s', reply)) :
    Turns devices s s' := by
  rcases leastLoadedServer_spec s hcount call.services with ⟨error, hchosen⟩
    | ⟨device, hchosen, hleast⟩
  · simp only [State.dmaSet, hchosen, Option.some.injEq, Prod.mk.injEq] at h
    rw [← h.1]
    exact .stays rfl rfl
  · simp only [State.dmaSet, hchosen, State.blockClient, Option.map_eq_some_iff,
      Prod.mk.injEq] at h
    obtain ⟨t, hsubmit, rfl, -⟩ := h
    exact turns_of_submit (.set device advertisement key length expectedCrc) rfl hleast hsubmit

/-- A `DMA.GET` chooses only once the value is known to fit. -/
theorem turns_of_dmaGet {call : Call} {advertisement : Advertisement} {key : Bytes}
    {capacity : UInt64} {wantChecksum : Bool} {reply : ValkeyResult} (hcount : 0 < devices.count)
    (h : s.dmaGet devices call advertisement key capacity wantChecksum = some (s', reply)) :
    Turns devices s s' := by
  unfold State.dmaGet at h
  split at h
  · -- The key cannot be read.
    cases h
    exact .stays rfl rfl
  split at h
  · -- It is not there.
    cases h
    exact .stays rfl rfl
  · next bytes hread =>
    split at h
    · -- Its value exceeds the client's buffer.
      cases h
      exact .stays rfl rfl
    · dsimp only at h
      split at h
      · cases h
      · rcases leastLoadedServer_spec s hcount call.services with ⟨error, hchosen⟩
          | ⟨device, hchosen, hleast⟩
        · simp only [hchosen, Option.some.injEq, Prod.mk.injEq] at h
          rw [← h.1]
          exact .stays rfl rfl
        · simp only [hchosen, State.blockClient, Option.map_eq_some_iff, Prod.mk.injEq] at h
          obtain ⟨t, hsubmit, rfl, -⟩ := h
          exact turns_of_submit (.get device advertisement capacity bytes.length) rfl hleast hsubmit

/-- Only a command chooses a device. -/
theorem turns_of_step {e : Event} (hcount : 0 < devices.count)
    (h : (system devices).step s e = some s') : Turns devices s s' := by
  cases e with
  | set call args =>
    obtain ⟨⟨t, reply⟩, hcommand, rfl⟩ := Option.map_eq_some_iff.mp h
    simp only [State.dmaSetCommand] at hcommand
    split at hcommand
    · cases hcommand
      exact .stays rfl rfl
    · split at hcommand
      · cases hcommand
        exact .stays rfl rfl
      · exact turns_of_dmaSet hcount hcommand
  | get call args =>
    obtain ⟨⟨t, reply⟩, hcommand, rfl⟩ := Option.map_eq_some_iff.mp h
    simp only [State.dmaGetCommand] at hcommand
    split at hcommand
    · cases hcommand
      exact .stays rfl rfl
    · exact turns_of_dmaGet hcount hcommand
  | send device i | fabric device move | finish device index stores | write memory
  | keyspace keyspace =>
    cases steps_of_step h with
    | answered next harrives | gone next command request harrives hasks
    | submitted next command request fabric harrives hasks hstep => cases harrives
    | _ => exact .stays rfl rfl

end

/-! ### The choices of a run -/

/-- What every choice of a run is: the least by load and rotated index, with the rotation after
that of the choice before. -/
structure Chosen (devices : Devices) (s : State × List Choice) : Prop where
  chain : s.2.IsChain fun a b => b.rotation = (a.rotation + 1) % addressSpace
  next : ∀ choice ∈ s.2.getLast?, s.1.next = (choice.rotation + 1) % addressSpace
  least : ∀ choice ∈ s.2, (List.range devices.count).argmin (fun i =>
    toLex (choice.loads i, (i + choice.rotation) % addressSpace % devices.count))
      = some choice.device

/-- A step keeps the account. -/
theorem Chosen.step {devices : Devices} {s : State × List Choice} {s' : State} {e : Event}
    (h : Chosen devices s) (hturns : Turns devices s.1 s') :
    Chosen devices (s', s.2 ++ chosen s.1 e s') := by
  cases hturns with
  | stays hcommands hnext =>
    have hnone : chosen s.1 e s' = [] := by
      rw [chosen, hcommands, List.drop_length, List.map_nil]
    rw [hnone, List.append_nil]
    exact ⟨h.chain, fun choice hlast => hnext.trans (h.next choice hlast), h.least⟩
  | turns command hcommands hnext hleast =>
    have hone : chosen s.1 e s' = [⟨s.1.next, s.1.loads, command.device⟩] := by
      rw [chosen, hcommands, List.drop_left, List.map_singleton]
    rw [hone]
    constructor
    · refine List.isChain_append.mpr ⟨h.chain, .singleton _, ?_⟩
      intro choice hlast new hnew
      cases hnew
      exact h.next choice hlast
    · intro choice hlast
      rw [List.getLast?_concat] at hlast
      cases hlast
      exact hnext
    · intro choice hchoice
      rcases List.mem_append.mp hchoice with hold | hnew
      · exact h.least choice hold
      · rw [List.mem_singleton.mp hnew]
        exact hleast

/-- The choices of every run turn `NEXT` one after the other. -/
theorem chosen_reach {devices : Devices} (hcount : 0 < devices.count) {s₀ : State}
    {s : State × List Choice}
    (h : (((system devices).startingAt s₀).observing chosen).Reachable s) : Chosen devices s := by
  refine h.invariant_observed (I := Chosen devices) (fun _ _ => trivial) ?_ ?_
  · intro s hinit
    constructor
    · exact .nil
    · intro choice hlast
      cases hlast
    · intro choice hchoice
      cases hchoice
  · intro s seen e s' _ hmove hchosen
    exact hchosen.step (turns_of_step hcount hmove)

/-! ### A window of choices -/

/-- A device of least load, at a choice. -/
def Choice.IsLeast (devices : Devices) (choice : Choice) (device : Nat) : Prop :=
  device < devices.count ∧ ∀ i < devices.count, choice.loads device ≤ choice.loads i

/-- As many consecutive choices as there are devices, with the same loads at each, and `NEXT` that
far from its wrap-around. -/
structure Window (devices : Devices) (window : List Choice) : Prop where
  length : window.length = devices.count
  loads : ∀ a ∈ window, ∀ b ∈ window, ∀ i < devices.count, a.loads i = b.loads i
  short : ∀ choice ∈ window, choice.rotation + devices.count ≤ addressSpace

/-- The device that the rotation puts first is chosen when its load is least. -/
theorem Chosen.of_first {devices : Devices} {s : State × List Choice} (h : Chosen devices s)
    {choice : Choice} (hchoice : choice ∈ s.2)
    (hshort : choice.rotation + devices.count ≤ addressSpace) {device : Nat}
    (hleast : choice.IsLeast devices device)
    (hfirst : rotated devices.count choice.rotation device = 0) : choice.device = device := by
  have hplace : ∀ i < devices.count, (i + choice.rotation) % addressSpace % devices.count
      = rotated devices.count choice.rotation i := by
    intro i hi
    rw [Nat.mod_eq_of_lt (show i + choice.rotation < addressSpace by omega), rotated]
  refine Option.some.inj ((h.least choice hchoice).symm.trans ?_)
  refine argmin_of_first hleast.1 hleast.2 ((hplace device hleast.1).trans hfirst) ?_
  intro i hi hzero
  rw [hplace i hi] at hzero
  exact eq_of_rotated hi hleast.1 hzero hfirst

/-- Each device of least load has its turn within a window. -/
theorem Chosen.covers {devices : Devices} {s : State × List Choice} (h : Chosen devices s)
    {window : List Choice} (hwithin : window <:+: s.2) (hwindow : Window devices window)
    {device : Nat} (hleast : ∀ choice ∈ window, choice.IsLeast devices device)
    (hdevice : device < devices.count) : ∃ choice ∈ window, choice.device = device := by
  cases hhead : window.head? with
  | none =>
    have hlength := hwindow.length
    rw [List.head?_eq_none_iff.mp hhead, List.length_nil] at hlength
    omega
  | some first =>
    have hchain := List.IsChain.infix h.chain hwithin
    have hrotations := map_eq_range' hchain (Nat.le_of_eq hwindow.length) hwindow.short hhead
    obtain ⟨k, hk, hfirst⟩ := exists_rotated hdevice first.rotation
    have hturn : first.rotation + k ∈ window.map Choice.rotation := by
      rw [hrotations, List.mem_range'_1, hwindow.length]
      omega
    obtain ⟨choice, hchoice, hrotation⟩ := List.mem_map.mp hturn
    refine ⟨choice, hchoice, ?_⟩
    exact h.of_first (hwithin.subset hchoice) (hwindow.short choice hchoice)
      (hleast choice hchoice) (by rw [hrotation, hfirst])

/-- The least loaded device is chosen, and ties rotate. In every run of the module, from any loads
and any value of `NEXT`, each choice is of a device of least load. Over as many consecutive choices
as there are devices, at unchanged loads and short of the wrap-around of `NEXT`, each device of
least load is chosen. When all the devices are tied, each is chosen once. -/
theorem ties_rotate {devices : Devices} (hcount : 0 < devices.count) {s₀ : State}
    {s : State × List Choice}
    (h : (((system devices).startingAt s₀).observing chosen).Reachable s) :
    (∀ choice ∈ s.2, choice.IsLeast devices choice.device) ∧
    ∀ window, window <:+: s.2 → Window devices window →
      (∀ device < devices.count, (∀ choice ∈ window, choice.IsLeast devices device) →
        ∃ choice ∈ window, choice.device = device) ∧
      ((∀ choice ∈ window, ∀ i < devices.count, ∀ j < devices.count,
          choice.loads i = choice.loads j) →
        (window.map Choice.device).Perm (List.range devices.count)) := by
  have hchosen := chosen_reach hcount h
  refine ⟨fun choice hchoice => least_of_argmin (hchosen.least choice hchoice), ?_⟩
  intro window hwithin hwindow
  refine ⟨fun device hdevice hleast => hchosen.covers hwithin hwindow hleast hdevice, ?_⟩
  intro htied
  refine perm_range (by rw [List.length_map, hwindow.length]) ?_
  intro device hdevice
  have hleast : ∀ choice ∈ window, choice.IsLeast devices device := by
    intro choice hchoice
    exact ⟨hdevice, fun i hi => Nat.le_of_eq (htied choice hchoice device hdevice i hi)⟩
  exact List.mem_map.mpr (hchosen.covers hwithin hwindow hleast hdevice)

/-- Two devices. -/
def twoDevices : Devices := { checkDevices with count := 2 }

/-- A `DMA.SET` whose worker is gone. -/
def goneSet : Event :=
  .set { checkCall with gone := true } (commandArgs [] checkAdvertisement 9 [107] none)

/-- A transfer that is finished in place leaves the loads as they were. -/
theorem reach_goneSet {s : State × List Choice} {s' : State}
    (h : (((system twoDevices).startingAt loaded).observing chosen).Reachable s)
    (hset : (s.1.dmaSet twoDevices { checkCall with gone := true } checkAdvertisement [107] 9
      none).map Prod.fst = some s') :
    (((system twoDevices).startingAt loaded).observing chosen).Reachable
      (s', s.2 ++ chosen s.1 goneSet s') := by
  refine h.step (e := goneSet) trivial ?_
  have hstep : (system twoDevices).step s.1 goneSet = some s' := by
    show (s.1.dmaSetCommand twoDevices _ _).map Prod.fst = some s'
    rw [dmaSetCommand_commandArgs]
    exact hset
  show ((system twoDevices).step s.1 goneSet).map _ = _
  rw [hstep]
  rfl

/-- Two such commands are served on one device each. -/
theorem ties_rotate_two :
    ∃ s, (((system twoDevices).startingAt loaded).observing chosen).Reachable s ∧
      (s.2.map Choice.device).Perm (List.range 2) := by
  obtain ⟨s₁, s₂, hset₁, hset₂, hfirst, hsecond⟩ : ∃ s₁ s₂ : State,
      (loaded.dmaSet twoDevices { checkCall with gone := true } checkAdvertisement [107] 9
        none).map Prod.fst = some s₁ ∧
      (s₁.dmaSet twoDevices { checkCall with gone := true } checkAdvertisement [107] 9
        none).map Prod.fst = some s₂ ∧
      chosen loaded goneSet s₁ = [⟨0, fun _ => 0, 0⟩] ∧
      chosen s₁ goneSet s₂ = [⟨1, fun _ => 0, 1⟩] :=
    ⟨_, _, rfl, rfl, rfl, rfl⟩
  have hstart : (((system twoDevices).startingAt loaded).observing chosen).Reachable
      (loaded, []) := .init ⟨rfl, rfl⟩
  have hreach := reach_goneSet (reach_goneSet hstart hset₁) hset₂
  rw [List.nil_append, hfirst, hsecond] at hreach
  have hwindow : Window twoDevices [⟨0, fun _ => 0, 0⟩, ⟨1, fun _ => 0, 1⟩] := by
    refine ⟨rfl, ?_, ?_⟩
    · intro a ha b hb i hi
      simp only [List.mem_cons, List.not_mem_nil, or_false] at ha hb
      rcases ha with rfl | rfl <;> rcases hb with rfl | rfl <;> rfl
    · intro choice hchoice
      simp only [List.mem_cons, List.not_mem_nil, or_false] at hchoice
      rcases hchoice with rfl | rfl <;> decide
  refine ⟨_, hreach, ((ties_rotate (by decide) hreach).2 _ (List.infix_refl _) hwindow).2 ?_⟩
  intro choice hchoice i _ j _
  simp only [List.cons_append, List.nil_append, List.mem_cons, List.not_mem_nil,
    or_false] at hchoice
  rcases hchoice with rfl | rfl <;> rfl

end Vdma.Module
