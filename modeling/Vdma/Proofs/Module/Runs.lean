import Vdma.Module.System
import Vdma.Proofs.Module.CommandWire
import Vdma.Proofs.Worker.Bounds

/-!
# `Vdma.Proofs.Module.Runs`: what a step of the module does

`Steps` lists the steps, each with its guards. A command answers at once and leaves no more
than a turn of `NEXT`, or blocks its client for a transfer, which is finished in place when
the worker is gone and submitted when it is not.

Two things follow for every run. Each service only takes steps of its own machine, so what
holds of a service alone holds in the module (`fabric_reach`). And every transfer that a
service has been given was asked for by a command (`asked_reach`).
-/

set_option autoImplicit false

namespace Vdma.Module

open Vdma.Lib Vdma.Fabric Vdma.Protocol

/-! ### What a command asks for -/

/-- The device that a command chose. -/
def Command.device : Command → Nat
  | .get device _ _ _ => device
  | .set device _ _ _ _ => device

/-- The advertisement of a command. -/
def Command.advertisement : Command → Advertisement
  | .get _ advertisement _ _ => advertisement
  | .set _ advertisement _ _ _ => advertisement

/-- The request that a command makes, of the client it blocked. -/
def Command.Asks (command : Command) (blocked : Nat) (request : TransferRequest OpToken) : Prop :=
  request.peerAddress = command.advertisement.address ∧
    request.remoteKey = command.advertisement.remoteKey ∧
    request.remoteAddress = command.advertisement.remoteAddress ∧
    match command with
    | .get _ _ capacity length =>
      request.direction = .toPeer ∧ length ≤ capacity.toNat ∧
        ∃ held, request.callerContext = .get blocked held ∧ held.asBytes.length = length
    | .set _ _ key length expectedCrc =>
      request.direction = .fromPeer length.toNat ∧ request.wantChecksum = expectedCrc.isSome ∧
        ∃ landing, request.callerContext = .set blocked none key expectedCrc landing

/-- A request without its number. -/
def untag (request : TransferRequest (Tagged OpToken)) : TransferRequest OpToken where
  clientId := request.clientId
  peerAddress := request.peerAddress
  remoteKey := request.remoteKey
  remoteAddress := request.remoteAddress
  direction := request.direction
  wantChecksum := request.wantChecksum
  callerContext := request.callerContext.user

/-- A request to a device is one that a command asked for. -/
def State.Asked (s : State) (device : Nat) (request : TransferRequest OpToken) : Prop :=
  ∃ (blocked : Nat) (command : Command), s.commands[blocked]? = some command ∧
    command.device = device ∧ command.Asks blocked request

/-! ### Steps -/

/-- A command arrives. -/
def Event.arrives : Event → Bool
  | .set _ _ => true
  | .get _ _ => true
  | _ => false

/-- The steps of the module. -/
inductive Steps (devices : Devices) (s : State) : Event → State → Prop
  /-- A command is answered at once. -/
  | answered {e : Event} (next : Nat) (harrives : e.arrives = true) :
      Steps devices s e { s with next := next }
  /-- The worker of a command is gone. -/
  | gone {e : Event} (next : Nat) (command : Command) (request : TransferRequest OpToken)
      (harrives : e.arrives = true) (hasks : command.Asks s.commands.length request) :
      Steps devices s e
        (({ s with next := next, commands := s.commands ++ [command] } : State).finish
          command.device
          false request.callerContext (.error (.fabric "fabric worker is gone")))
  /-- A command submits its transfer. -/
  | submitted {e : Event} (next : Nat) (command : Command) (request : TransferRequest OpToken)
      (fabric : Fabric.State OpToken) (harrives : e.arrives = true)
      (hasks : command.Asks s.commands.length request)
      (hstep : (s.fabrics command.device).step (devices.setup command.device) (.submit request)
        = some fabric) :
      Steps devices s e
        (({ s with next := next, commands := s.commands ++ [command] } : State).withFabric
          command.device fabric)
  | send (device i : Nat) (fabric : Fabric.State OpToken)
      (hstep : (s.fabrics device).step (devices.setup device) (.send i) = some fabric) :
      Steps devices s (.send device i) (s.withFabric device fabric)
  | fabric (device : Nat) (move : Move OpToken) (fabric : Fabric.State OpToken)
      (hown : isOwn move = true)
      (hstep : (s.fabrics device).step (devices.setup device) move = some fabric) :
      Steps devices s (.fabric device move)
        { s.withFabric device fabric with
          landings := s.landings ++ landed device fabric.memory
            (fabric.wire.history.drop (s.fabrics device).wire.history.length) }
  | finish (device index : Nat) (stores : Bool) (completion : Completion (Tagged OpToken))
      (hdelivered : (s.fabrics device).delivered[index]? = some completion)
      (hopen : (device, completion.number) ∉ s.finished) :
      Steps devices s (.finish device index stores)
        { s.finish device stores completion.callerContext.user completion.outcome with
          finished := s.finished ++ [(device, completion.number)] }
  | write (memory : Nat → UInt8)
      (hkeeps : ∀ landing ∈ s.landings, s.isOpen landing = true →
        bytesAt memory landing.slice = landing.bytes) :
      Steps devices s (.write memory)
        { s with fabrics := fun device => { s.fabrics device with memory := memory } }
  | keyspace (keyspace : Keyspace) :
      Steps devices s (.keyspace keyspace) { s with keyspace := keyspace }

section
variable {devices : Devices} {s s' : State}

/-- Choosing a device turns `NEXT` and nothing else. -/
theorem leastLoadedServer_state (devices : Devices) (s : State) (services : Except DmaError Unit) :
    ∃ next, (s.leastLoadedServer devices services).1 = { s with next := next } := by
  unfold State.leastLoadedServer
  split
  · exact ⟨s.next, rfl⟩
  · dsimp only
    split
    · exact ⟨(s.next + 1) % addressSpace, rfl⟩
    · exact ⟨(s.next + 1) % addressSpace, rfl⟩

/-- A command whose client is blocked submits its transfer, or finishes it in place. -/
theorem steps_of_submit {e : Event} {next : Nat} {call : Call} (command : Command)
    {request : TransferRequest OpToken} (harrives : e.arrives = true)
    (hasks : command.Asks s.commands.length request)
    (h : ({ s with next := next, commands := s.commands ++ [command] } : State).submit devices call
      command.device request = some s') : Steps devices s e s' := by
  unfold State.submit at h
  split at h
  · cases h
    exact .gone next command request harrives hasks
  · rw [Option.map_eq_some_iff] at h
    obtain ⟨fabric, hstep, rfl⟩ := h
    exact .submitted next command request fabric harrives hasks hstep

/-- What `dma_set` does. -/
theorem steps_of_dmaSet {e : Event} {call : Call} {advertisement : Advertisement} {key : Bytes}
    {length : UInt64} {expectedCrc : Option UInt32} {reply : ValkeyResult}
    (harrives : e.arrives = true)
    (h : s.dmaSet devices call advertisement key length expectedCrc = some (s', reply)) :
    Steps devices s e s' := by
  unfold State.dmaSet at h
  obtain ⟨next, hnext⟩ := leastLoadedServer_state devices s call.services
  split at h
  · next t error hchosen =>
    cases h
    rw [hchosen] at hnext
    rw [show s' = { s with next := next } from hnext]
    exact .answered next harrives
  · next t device hchosen =>
    rw [hchosen] at hnext
    have ht : t = { s with next := next } := hnext
    subst ht
    simp only [State.blockClient, Option.map_eq_some_iff, Prod.mk.injEq] at h
    obtain ⟨u, hsubmit, rfl, -⟩ := h
    exact steps_of_submit (.set device advertisement key length expectedCrc)
      harrives ⟨rfl, rfl, rfl, rfl, rfl, call.landing, rfl⟩ hsubmit

/-- What `dma_get` does. -/
theorem steps_of_dmaGet {e : Event} {call : Call} {advertisement : Advertisement} {key : Bytes}
    {capacity : UInt64} {wantChecksum : Bool} {reply : ValkeyResult} (harrives : e.arrives = true)
    (h : s.dmaGet devices call advertisement key capacity wantChecksum = some (s', reply)) :
    Steps devices s e s' := by
  -- A key of another type, or no key: the reply is there at once.
  unfold State.dmaGet at h
  split at h
  · cases h
    exact .answered s.next harrives
  · split at h
    · cases h
      exact .answered s.next harrives
    · -- The key's value is read, and compared with what the client has room for.
      next bytes hread =>
      split at h
      · cases h
        exact .answered s.next harrives
      · next hcapacity =>
        dsimp only at h
        split at h
        · cases h
        · next hheld =>
          obtain ⟨next, hnext⟩ := leastLoadedServer_state devices s call.services
          -- Choosing a server moves the shared counter, and nothing else.
          split at h
          · next t error hchosen =>
            cases h
            rw [hchosen] at hnext
            rw [show s' = { s with next := next } from hnext]
            exact .answered next harrives
          · next t device hchosen =>
            rw [hchosen] at hnext
            have ht : t = { s with next := next } := hnext
            subst ht
            simp only [State.blockClient, Option.map_eq_some_iff, Prod.mk.injEq] at h
            -- The client is blocked, and its transfer is handed to the server that was chosen.
            obtain ⟨u, hsubmit, rfl, -⟩ := h
            exact steps_of_submit (.get device advertisement capacity bytes.length)
              harrives ⟨rfl, rfl, rfl, rfl, Nat.le_of_not_lt hcapacity, _, rfl, not_not.mp hheld⟩
              hsubmit

/-- Every step is one of those listed. -/
theorem steps_of_step {e : Event} (h : (system devices).step s e = some s') :
    Steps devices s e s' := by
  change s.step devices e = some s' at h
  cases e with
  | set call args =>
    simp only [State.step, Option.map_eq_some_iff] at h
    obtain ⟨⟨t, reply⟩, hcommand, rfl⟩ := h
    -- Arguments that do not parse are answered before anything is read.
    simp only [State.dmaSetCommand] at hcommand
    split at hcommand
    · cases hcommand
      exact .answered s.next rfl
    · split at hcommand
      · cases hcommand
        exact .answered s.next rfl
      · exact steps_of_dmaSet rfl hcommand
  | get call args =>
    simp only [State.step, Option.map_eq_some_iff] at h
    obtain ⟨⟨t, reply⟩, hcommand, rfl⟩ := h
    simp only [State.dmaGetCommand] at hcommand
    split at hcommand
    · cases hcommand
      exact .answered s.next rfl
    · exact steps_of_dmaGet rfl hcommand
  | send device i =>
    simp only [State.step] at h
    split at h
    · cases h
    · rw [Option.map_eq_some_iff] at h
      obtain ⟨fabric, hstep, rfl⟩ := h
      exact .send device i fabric hstep
  | fabric device move =>
    simp only [State.step] at h
    split at h
    · -- Only the moves the device makes of its own accord.
      next hown =>
      rw [Option.map_eq_some_iff] at h
      obtain ⟨fabric, hstep, rfl⟩ := h
      exact .fabric device move fabric hown hstep
    · cases h
  | finish device index stores =>
    simp only [State.step] at h
    split at h
    · cases h
    · next completion hdelivered =>
      split at h
      · cases h
      · -- A completion is finished once: the hook's token is not open again.
        next hopen =>
        cases h
        exact .finish device index stores completion hdelivered hopen
  | write memory =>
    simp only [State.step] at h
    split at h
    · next hkeeps =>
      cases h
      exact .write memory hkeeps
    · cases h
  | keyspace keyspace =>
    cases h
    exact .keyspace keyspace

end

/-! ### The services -/

section
variable {devices : Devices} {s s' : State} {e : Event}

/-- What a step does to one service: nothing, or a move of its machine. -/
theorem Steps.fabric_step (h : Steps devices s e s') (device : Nat) :
    s'.fabrics device = s.fabrics device ∨
      ∃ move, (s.fabrics device).step (devices.setup device) move = some (s'.fabrics device) := by
  have hupdate : ∀ (d : Nat) (fabric : Fabric.State OpToken) (move : Move OpToken),
      (s.fabrics d).step (devices.setup d) move = some fabric →
      Function.update s.fabrics d fabric device = s.fabrics device ∨
        ∃ move, (s.fabrics device).step (devices.setup device) move
          = some (Function.update s.fabrics d fabric device) := by
    intro d fabric move hstep
    by_cases hd : device = d
    · subst hd
      rw [Function.update_self]
      exact .inr ⟨move, hstep⟩
    · rw [Function.update_of_ne hd]
      exact .inl rfl
  cases h with
  | answered next harrives | gone next command request harrives hasks
  | finish d index stores completion hdelivered hopen | keyspace keyspace => exact .inl rfl
  | submitted next command request fabric harrives hasks hstep => exact hupdate _ fabric _ hstep
  | send d i fabric hstep | fabric d move fabric hown hstep => exact hupdate d fabric _ hstep
  | write memory hkeeps => exact .inr ⟨.write memory, rfl⟩

end

/-- In every run of the module, each service is in a state that it reaches alone. -/
theorem fabric_reach {devices : Devices} {s : State} (h : (system devices).Reachable s)
    (device : Nat) : (service OpToken (devices.setup device)).Reachable (s.fabrics device) := by
  refine h.invariant
    (I := fun s => (service OpToken (devices.setup device)).Reachable (s.fabrics device)) ?_ ?_
  · intro s hinit
    rw [hinit.1 device]
    exact .init rfl
  · intro s e s' _ hstep hreach
    rcases (steps_of_step hstep).fabric_step device with hsame | ⟨move, hmove⟩
    · rwa [hsame]
    · exact hreach.step trivial hmove

/-! ### The transfers -/

/-- A move that is not the module's own leaves the transfers of the callers, and memory. -/
theorem callers_of_own {setup : Setup} {f f' : Fabric.State OpToken} {move : Move OpToken}
    (hs : Settled f) (ho : Owned f) (hown : isOwn move = true) (h : f.step setup move = some f') :
    f'.callers.submitting = f.callers.submitting ∧ f'.callers.sent = f.callers.sent ∧
      f'.memory = f.memory := by
  obtain ⟨part, hmove⟩ := moves_of_step (T := OpToken) h
  cases hmove with
  | submit => cases hown
  | send => cases hown
  | sendFails => cases hown
  | write => cases hown
  | dangling context hraw howned => exact (ho.backed.not_dangling hraw howned).elim
  | danglingPending hphase hreclaim => exact (hs.not_danglingPending hphase hreclaim).elim
  | _ => exact ⟨rfl, rfl, rfl⟩

/-- What was asked for stays asked for when commands are added. -/
theorem State.Asked.mono {s s' : State} {device : Nat} {request : TransferRequest OpToken}
    (h : s.Asked device request) (hcommands : s.commands <+: s'.commands) :
    s'.Asked device request := by
  obtain ⟨blocked, command, hcommand, hrest⟩ := h
  obtain ⟨rest, hrest'⟩ := hcommands
  refine ⟨blocked, command, ?_, hrest⟩
  rw [← hrest', List.getElem?_append_left (List.getElem?_eq_some_iff.mp hcommand).1, hcommand]

/-- What a move of a service does to the transfers it has been given. -/
theorem callers_of_step {setup : Setup} {f f' : Fabric.State OpToken} {move : Move OpToken}
    (hs : Settled f) (ho : Owned f) (h : f.step setup move = some f') :
    (∀ request ∈ f'.callers.submitting, request ∈ f.callers.submitting ∨ move = .submit request) ∧
      ∀ request ∈ f'.callers.sent, request ∈ f.callers.sent ∨
        untag request ∈ f.callers.submitting := by
  obtain ⟨part, hmove⟩ := moves_of_step (T := OpToken) h
  cases hmove with
  | submit request hserving =>
    refine ⟨fun r hr => ?_, fun r hr => .inl hr⟩
    rcases List.mem_append.mp hr with hold | hnew
    · exact .inl hold
    · exact .inr (congrArg Move.submit (List.mem_singleton.mp hnew).symm)
  | send i request hi hphase =>
    refine ⟨fun r hr => .inl (List.mem_of_mem_eraseIdx hr), fun r hr => ?_⟩
    -- The request leaves one list and joins the other.
    rcases List.mem_append.mp hr with hold | hnew
    · exact .inl hold
    · -- What is sent was waiting to be sent.
      rw [List.mem_singleton.mp hnew]
      exact .inr (List.mem_of_getElem? hi)
  | sendFails i request hi hphase =>
    exact ⟨fun r hr => .inl (List.mem_of_mem_eraseIdx hr), fun r hr => .inl hr⟩
  -- These two moves need a state no run reaches.
  | dangling context hraw howned => exact (ho.backed.not_dangling hraw howned).elim
  | danglingPending hphase hreclaim => exact (hs.not_danglingPending hphase hreclaim).elim
  | _ => exact ⟨fun r hr => .inl hr, fun r hr => .inl hr⟩

/-- The callers' moves leave what libfabric holds, and memory. -/
theorem quiet_of_callers {setup : Setup} {f f' : Fabric.State OpToken} {move : Move OpToken}
    (hs : Settled f) (ho : Owned f)
    (hmove : (∃ request, move = .submit request) ∨ ∃ i, move = .send i)
    (h : f.step setup move = some f') : f'.wire = f.wire ∧ f'.memory = f.memory := by
  obtain ⟨part, hmove⟩ := moves_of_step (T := OpToken) h
  cases hmove with
  | write => rcases hmove with ⟨request, hmove⟩ | ⟨i, hmove⟩ <;> cases hmove
  | posted => rcases hmove with ⟨request, hmove⟩ | ⟨i, hmove⟩ <;> cases hmove
  | quiesced => rcases hmove with ⟨request, hmove⟩ | ⟨i, hmove⟩ <;> cases hmove
  | reap => rcases hmove with ⟨request, hmove⟩ | ⟨i, hmove⟩ <;> cases hmove
  | dangling context hraw howned => exact (ho.backed.not_dangling hraw howned).elim
  | danglingPending hphase hreclaim => exact (hs.not_danglingPending hphase hreclaim).elim
  | _ => exact ⟨rfl, rfl⟩

/-- Every transfer that a service has been given was asked for. -/
structure AskedAll (s : State) : Prop where
  submitting : ∀ device, ∀ request ∈ (s.fabrics device).callers.submitting, s.Asked device request
  sent : ∀ device, ∀ request ∈ (s.fabrics device).callers.sent, s.Asked device (untag request)

namespace AskedAll

variable {devices : Devices} {s s' : State} {e : Event}

/-- A step that gives the services nothing new. -/
theorem of_same (h : AskedAll s) (hcommands : s.commands <+: s'.commands)
    (hcallers : ∀ device, (s'.fabrics device).callers = (s.fabrics device).callers) :
    AskedAll s' where
  submitting device request hrequest := by
    rw [hcallers] at hrequest
    exact (h.submitting device request hrequest).mono hcommands
  sent device request hrequest := by
    rw [hcallers] at hrequest
    exact (h.sent device request hrequest).mono hcommands

/-- A service moves, and submits nothing but what was asked for. -/
theorem of_fabric (h : AskedAll s) (hcommands : s.commands <+: s'.commands) {device : Nat}
    {fabric : Fabric.State OpToken}
    (hfabrics : s'.fabrics = Function.update s.fabrics device fabric)
    {setup : Setup} {move : Move OpToken} (hs : Settled (s.fabrics device))
    (ho : Owned (s.fabrics device)) (hstep : (s.fabrics device).step setup move = some fabric)
    (hsubmit : ∀ request, move = .submit request → s'.Asked device request) : AskedAll s' := by
  -- At the device itself the lists grow by what is submitted and sent; elsewhere they stay.
  obtain ⟨hsubmitting, hsent⟩ := callers_of_step hs ho hstep
  constructor
  · intro d request hrequest
    rw [hfabrics] at hrequest
    by_cases hd : d = device
    · subst hd
      rw [Function.update_self] at hrequest
      rcases hsubmitting request hrequest with hold | hnew
      · exact (h.submitting d request hold).mono hcommands
      · exact hsubmit request hnew
    · rw [Function.update_of_ne hd] at hrequest
      exact (h.submitting d request hrequest).mono hcommands
  · intro d request hrequest
    rw [hfabrics] at hrequest
    by_cases hd : d = device
    · subst hd
      rw [Function.update_self] at hrequest
      rcases hsent request hrequest with hold | hnew
      · exact (h.sent d request hold).mono hcommands
      · exact (h.submitting d (untag request) hnew).mono hcommands
    · rw [Function.update_of_ne hd] at hrequest
      exact (h.sent d request hrequest).mono hcommands

/-- Every step keeps what the services were given asked for. -/
theorem step (h : AskedAll s) (hs : ∀ device, Settled (s.fabrics device))
    (ho : ∀ device, Owned (s.fabrics device)) (hstep : Steps devices s e s') : AskedAll s' := by
  cases hstep with
  | answered next harrives | finish device index stores completion hdelivered hopen
  | write memory hkeeps | keyspace keyspace => exact h.of_same (List.prefix_refl _) fun _ => rfl
  | gone next command request harrives hasks =>
    exact h.of_same (List.prefix_append _ _) fun _ => rfl
  | submitted next command request fabric harrives hasks hstep =>
    refine h.of_fabric (List.prefix_append _ _) rfl (hs _) (ho _) hstep ?_
    intro r hr
    cases hr
    exact ⟨s.commands.length, command, List.getElem?_concat_length, rfl, hasks⟩
  | send device i fabric hstep =>
    exact h.of_fabric (List.prefix_refl _) rfl (hs _) (ho _) hstep nofun
  | fabric device move fabric hown hstep =>
    refine h.of_fabric (List.prefix_refl _) rfl (hs _) (ho _) hstep ?_
    intro r hr
    rw [hr] at hown
    cases hown

end AskedAll

/-- In every run, what the services were given was asked for. -/
theorem asked_reach {devices : Devices} {s : State} (h : (system devices).Reachable s) :
    AskedAll s := by
  refine h.invariant_given (J := fun s => (system devices).Reachable s) (I := AskedAll)
    (fun s hs => hs) ?_ ?_
  · intro s hinit
    constructor
    · intro device request hrequest
      rw [hinit.1 device] at hrequest
      cases hrequest
    · intro device request hrequest
      rw [hinit.1 device] at hrequest
      cases hrequest
  · intro s e s' hs _ _ hstep hasked
    exact hasked.step (fun device => (owned_reach (fabric_reach hs device)).1)
      (fun device => (owned_reach (fabric_reach hs device)).2) (steps_of_step hstep)

/-! ### A run -/

/-- `123456789`, the bytes that checksums are checked on. -/
def checkBytes : Bytes := [49, 50, 51, 52, 53, 54, 55, 56, 57]

/-- One device that needs no local registration. Its checksum is the CRC-32C on `checkBytes`. -/
def checkDevices : Devices where
  count := 1
  setup _ :=
    { configuration := ⟨true, none, 1000000000⟩
      device := ⟨7, false, 0, .efa⟩
      lib := default
      checksum := fun bytes => if bytes = checkBytes then 0xe3069283 else 0
      quiescePointer := 65536 }

/-- The module before its first command. -/
def loaded : State where
  fabrics device := Fabric.State.start (checkDevices.setup device)
  next := 0
  keyspace := ∅
  commands := []
  landings := []
  finished := []
  replies := []

/-- A command whose destination will be at 4096. -/
def checkCall : Call := ⟨1, .ok (), false, none, ⟨0, 0, by decide⟩, 4096, false⟩

def checkAdvertisement : Advertisement := ⟨List.replicate 32 254, 9, 8192⟩

/-- The worker is ready. -/
def getsReady : List Event :=
  [.fabric 0 (.worker .none), .fabric 0 (.worker (.address (.ok [])))]

/-- A transfer is sent, posted and reaped, its bytes land in between, and the pool hashes and
delivers it. -/
def lands : List Event :=
  [.send 0 0, .fabric 0 (.worker .none), .fabric 0 (.worker .none),
    .fabric 0 (.worker (.avInsert 1)), .fabric 0 (.worker (.rma 0 0 0)), .fabric 0 (.worker .none),
    .write fun address => UInt8.ofNat (address - 4096 + 49),
    .fabric 0 (.worker (.cq [.entries [some 0], .code (-11)])), .fabric 0 (.worker .none),
    .fabric 0 (.worker .none), .fabric 0 (.worker .none), .fabric 0 (.worker .none),
    .fabric 0 (.hash 0), .fabric 0 (.finish 0)]

/-- A `DMA.SET` of `checkBytes`, up to the delivery of its completion. -/
theorem reachable_lands {s₁ s₂ s₃ : State}
    (hready : (system checkDevices).run loaded getsReady = some s₁)
    (hset : (s₁.dmaSet checkDevices checkCall checkAdvertisement [107] 9 (some 0xe3069283)).map
      Prod.fst = some s₂) (hlands : (system checkDevices).run s₂ lands = some s₃) :
    (system checkDevices).Reachable s₃ := by
  have h₁ := Machine.reach_run (M := system checkDevices) ⟨fun _ => rfl, rfl, rfl, rfl, rfl, rfl⟩
    getsReady hready
  have hstep : (system checkDevices).step s₁
      (.set checkCall (commandArgs [] checkAdvertisement 9 [107] (some 0xe3069283))) = some s₂ := by
    show (s₁.dmaSetCommand checkDevices checkCall _).map Prod.fst = some s₂
    rw [dmaSetCommand_commandArgs]
    exact hset
  exact (h₁.step trivial hstep).run (Machine.obeys_true _ _) hlands

end Vdma.Module
