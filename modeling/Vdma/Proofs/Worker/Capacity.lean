import Vdma.Proofs.Worker.Accounts

/-!
# `Vdma.Proofs.Worker.Capacity`: the in-flight cap

The posting loop asks for room before each post, so a queued transfer never takes the
worker over the cap (`Roomy`). The loop of quiesce reads asks for none. A write gives up its
place when it is reaped, the place goes to the next transfer, and a quiesce read that was put
off by `-FI_EAGAIN` then comes on top.

`within_cap` holds for the runs in which libfabric takes no quiesce read while the cap is
used up, and it says that one such read is all it takes to break the bound.
-/

set_option autoImplicit false

namespace Vdma.Fabric

open Vdma.Lib

variable {T : Type}

/-- The in-flight cap of the endpoint. -/
def Setup.cap (setup : Setup) : Nat :=
  inFlightCap setup.device setup.configuration.maxInFlight

/-- In `post`, for a queued transfer. -/
def Phase.inPost : Phase T → Bool
  | .operand _ _ _ => true
  | _ => false

namespace State

/-- libfabric takes a quiesce read. -/
def quiescePosts (s : State T) : Move T → Bool
  | .worker (.rma code _ _) =>
    match s.phase with
    | .quiesceOperand _ _ (.done _) => code == 0
    | _ => false
  | _ => false

/-- A move that posts a quiesce read only below the cap. -/
def BelowCap (setup : Setup) (s : State T) (m : Move T) : Prop :=
  s.quiescePosts m = true → s.wire.posts.length < setup.cap

instance (setup : Setup) (s : State T) (m : Move T) : Decidable (s.BelowCap setup m) :=
  inferInstanceAs (Decidable (_ → _))

end State

/-- There is room for the transfer in `post`. -/
def Roomy (setup : Setup) (s : State T) : Prop :=
  s.phase.inPost = true → s.pass.inFlight < setup.cap

section
variable [Operands T] {setup : Setup} {s s' : State T} {m : Move T}

/-- Every move keeps the room that the posting loop found. -/
theorem Roomy.step (h : Roomy setup s) (hs : Settled s) (ho : Owned s)
    (hmove : Moves setup s m s') : Roomy setup s' := by
  obtain ⟨part, hmove⟩ := hmove
  cases hmove with
  | submit | send | sendFails | message | refused | dropService | thread | write | hash | finish
  | releasePool =>
    exact h
  | turn hturn => cases hturn <;> exact nofun
  | pinnedQuiesce base limit result phase hphase hnext =>
    rcases hnext with rfl | rfl
    all_goals exact nofun
  | attempt prepared pending inserted entry books hphase hpending hinsert hcap =>
    intro _
    exact hcap
  | operand prepared entry call call' c region hphase hstep =>
    intro _
    exact h (by rw [hphase]; rfl)
  | toQuiescing context reaped op read hphase | toCrc context result reaped op hphase
  | toCompletion context result reaped op hphase =>
    intro hpost
    change s.phase.inPost = true at hpost
    rw [hphase] at hpost
    cases hpost
  | dangling context hraw howned => exact (ho.backed.not_dangling hraw howned).elim
  | danglingPending hphase hreclaim => exact (hs.not_danglingPending hphase hreclaim).elim
  | _ => exact nofun

/-- In every run there is room for the transfer in `post`. -/
theorem roomy_reach {ok : State T → Move T → Prop} (h : (service T setup).Reach ok s) :
    Roomy setup s := by
  refine service_invariant (J := fun s => Settled s ∧ Owned s) (I := Roomy setup)
    (fun s hs => owned_reach hs) (by intro h; cases h) ?_ h
  intro s m s' hs hs' hok hmove hroomy
  exact hroomy.step hs.1 hs.2 hmove

/-- A move that posts no quiesce read over the cap keeps the bound. -/
theorem posts_le_of_belowCap (hroomy : Roomy setup s) (hs : Settled s) (ho : Owned s)
    (hle : s.wire.posts.length ≤ setup.cap) (hok : s.BelowCap setup m)
    (hmove : Moves setup s m s') : s'.wire.posts.length ≤ setup.cap := by
  obtain ⟨part, hmove⟩ := hmove
  cases hmove with
  | posted prepared entry operand now op hphase hclock hraw =>
    have hroom := hroomy (by rw [hphase]; rfl)
    have hinFlight := hs.inFlight
    show (s.wire.posts ++ [_]).length ≤ setup.cap
    rw [List.length_append, List.length_singleton]
    omega
  | quiesced waiting entry operand now hphase hclock first =>
    have hbelow := hok (by simp [State.quiescePosts, hphase])
    show (s.wire.posts ++ [_]).length ≤ setup.cap
    rw [List.length_append, List.length_singleton]
    omega
  | reap reaped wire hphase htake =>
    obtain ⟨claimed, -, hperm, -⟩ := Wire.take_spec htake
    have hlength := hperm.length_eq
    rw [List.length_append] at hlength
    show wire.posts.length ≤ setup.cap
    omega
  | dangling context hraw howned => exact (ho.backed.not_dangling hraw howned).elim
  | danglingPending hphase hreclaim => exact (hs.not_danglingPending hphase hreclaim).elim
  | _ => exact hle

/-- A quiesce read that libfabric takes is one more op in flight. -/
theorem length_of_quiescePosts (hposts : s.quiescePosts m = true)
    (hstep : (service T setup).step s m = some s') :
    s'.wire.posts.length = s.wire.posts.length + 1 := by
  change s.step setup m = some s' at hstep
  cases m with
  | worker answer =>
    cases answer with
    | rma code first now =>
      unfold State.quiescePosts at hposts
      dsimp only at hposts
      split at hposts
      · next waiting entry operand hphase =>
        have hcode : code = 0 := by simpa using hposts
        subst hcode
        simp only [State.step, State.stepWorker, hphase, State.stepQuiesceOperand] at hstep
        split at hstep
        · cases hstep
          show (s.wire.posts ++ [_]).length = _
          rw [List.length_append, List.length_singleton]
        · cases hstep
      · cases hposts
    | _ => cases hposts
  | _ => cases hposts

end

/-- The in-flight cap is a bound in every run in which libfabric takes no quiesce read at the
cap. A move breaks the bound just when it posts such a read. -/
theorem within_cap [Operands T] (setup : Setup) :
    (∀ s : State T, (service T setup).Reach (State.BelowCap setup) s →
      s.wire.posts.length ≤ setup.cap) ∧
    (∀ (s s' : State T) (m : Move T), (service T setup).Reachable s →
      s.wire.posts.length ≤ setup.cap → (service T setup).step s m = some s' →
      (s'.wire.posts.length ≤ setup.cap ↔ s.BelowCap setup m)) := by
  constructor
  · intro s h
    refine service_invariant (J := fun s => (Settled s ∧ Owned s) ∧ Roomy setup s)
      (I := fun s => s.wire.posts.length ≤ setup.cap)
      (fun s hs => ⟨owned_reach hs, roomy_reach hs⟩) (Nat.zero_le _) ?_ h
    intro s m s' hs hs' hok hmove hle
    exact posts_le_of_belowCap hs.2 hs.1.1 hs.1.2 hle hok hmove
  · intro s s' m h hle hstep
    obtain ⟨hs, ho⟩ := owned_reach h
    constructor
    · intro hle' hposts
      have hlength := length_of_quiescePosts hposts hstep
      omega
    · intro hok
      exact posts_le_of_belowCap (roomy_reach h) hs ho hle hok (moves_of_step hstep)

/-! ### Two runs at a cap of one -/

/-- The sample service, one operation at a time. -/
def narrowSetup : Setup :=
  { bufferSetup with configuration := ⟨true, some 1, 1000000000⟩ }

/-- A write is in flight, and a second one waits for its place. -/
def postTwo : List (Move Buffer) :=
  [.submit (writeTo 1 (List.replicate 32 254) false 4096),
    .submit (writeTo 1 (List.replicate 32 254) false 8192), .send 0, .send 0, .worker .none,
    .worker .none, .worker .none, .worker (.avInsert 1), .worker (.region .none),
    .worker (.region (.span none)), .worker (.region (.mrReg 0)), .worker (.rma 0 0 0),
    .worker .none]

/-- The first write is reaped, and libfabric answers `code` to its quiesce read. -/
def quiesceFirst (code : Int) : List (Move Buffer) :=
  [.worker (.cq [.entries [some 0], .code (-11)]), .worker .none, .worker .none,
    .worker (.avInsert 1), .worker (.region .none), .worker (.rma code 0 0)]

/-- The pass ends, and the second write has its turn in the next one. -/
def postSecond : List (Move Buffer) :=
  [.worker .none, .worker .none, .worker .none, .worker .none, .worker .none,
    .worker (.avInsert 1), .worker (.region .none), .worker (.region (.span none)),
    .worker (.region (.mrReg 0)), .worker (.rma 0 0 0), .worker .none]

/-- The first quiesce read is put off and comes back when the second write is in flight. -/
def quiesceLate : List (Move Buffer) :=
  [.worker (.cq [.code (-11)]), .worker .none, .worker (.avInsert 1), .worker (.region .none),
    .worker (.rma 0 0 0)]

/-- A quiesce read that is taken at once finds the place of its write free. -/
theorem within_cap_free :
    ∃ s, (service Buffer narrowSetup).run (State.start narrowSetup)
        (startUp ++ postTwo ++ quiesceFirst 0) = some s ∧
      narrowSetup.cap = 1 ∧ s.queues.pending.length = 1
        ∧ s.wire.posts.length ≤ narrowSetup.cap := by
  have hobeys : (service Buffer narrowSetup).Obeys (State.BelowCap narrowSetup)
      (State.start narrowSetup) (startUp ++ postTwo ++ quiesceFirst 0) := by
    decide +kernel
  obtain ⟨s, hrun, hpending⟩ :
      ∃ s, (service Buffer narrowSetup).run (State.start narrowSetup)
          (startUp ++ postTwo ++ quiesceFirst 0) = some s ∧ s.queues.pending.length = 1 :=
    ⟨_, rfl, rfl⟩
  have hreach := (Machine.Reach.init (M := service Buffer narrowSetup) rfl).run hobeys hrun
  exact ⟨s, hrun, rfl, hpending, (within_cap narrowSetup).1 s hreach⟩

/-- A quiesce read that was put off comes back when the place of its write is taken: two
operations are in flight at a cap of one. -/
theorem cap_exceeded :
    ∃ s, (service Buffer narrowSetup).run (State.start narrowSetup)
        (startUp ++ postTwo ++ quiesceFirst (-11) ++ postSecond ++ quiesceLate) = some s ∧
      s.wire.posts.map PostedOp.kind = [.write, .quiesce] ∧ narrowSetup.cap < s.wire.posts.length :=
  ⟨_, rfl, rfl, by decide +kernel⟩

end Vdma.Fabric
