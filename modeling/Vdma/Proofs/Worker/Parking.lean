import Vdma.Proofs.Worker.Removal
import Vdma.Proofs.Worker.Teardown

/-!
# `Vdma.Proofs.Worker.Parking`: what is left when the worker stops

The worker blocks on the channel only at the end of a pass that found it idle, and it leaves
its loop only there. `AllDone` holds at both points. The phases promise the queues (`Settled`),
and with no op left the tables of clients are empty too (`Books.Tallied`).

The pool is another matter. A batch that was flushed before the worker exits may still wait
for its hash, and `FabricService::drop` joins the worker only. The worker waits for the pool
where it holds the last clone of it, and only there. `dropped_delivers` says that every
completion is delivered by then just when the pool has nothing left.
-/

set_option autoImplicit false

namespace Vdma.Fabric

open Vdma.Lib

variable {T : Type}

/-! ### The idle worker -/

/-- No op is left with the worker or with libfabric, and no removal is due. -/
structure AllDone (s : State T) : Prop where
  pending : s.queues.pending = []
  quiescing : s.queues.quiescing = []
  crcPending : s.queues.crcPending = []
  completions : s.queues.completions = []
  reaped : s.queues.reaped = []
  posts : s.wire.posts = []
  outstandingByClient : s.books.outstandingByClient = ∅
  pendingRemoval : s.books.pendingRemoval = ∅

/-- The worker blocks on the channel, or it has left its loop. -/
def State.Stops (s : State T) : Prop :=
  (s.phase = .parking ∧ s.pass.idle = true) ∨ s.phase = .exiting

/-- A worker that stops has nothing queued, staged or in hand. -/
theorem State.Stops.drained [Operands T] {s : State T} (h : s.Stops) (hs : Settled s) :
    Drained s ∧ s.queues.completions = [] ∧ s.phase ≠ .dispatching ∧ s.phase.prepared = [] ∧
      s.phase.inHand = [] := by
  rcases h with ⟨hphase, hidle⟩ | hphase
  · have hdrained := hs.idle (by rw [hphase]; rfl) hidle
    have hcompletions := hs.parked hphase
    rw [hphase]
    exact ⟨hdrained, hcompletions, by nofun, rfl, rfl⟩
  · have hquiet := hs.quiet (by rw [hphase]; rfl)
    rw [hphase]
    exact ⟨hquiet.toDrained, hquiet.completions, by nofun, rfl, rfl⟩

/-- A worker with nothing queued, posted or staged has nothing to do at all. -/
theorem State.Stops.allDone [Operands T] {s : State T} (h : s.Stops) (hs : Settled s)
    (ho : Owned s) (hbooks : Accounted s) : AllDone s := by
  obtain ⟨hdrained, hcompletions, hdispatching, hprepared, hinHand⟩ := h.drained hs
  obtain ⟨hposts, hraw⟩ := raw_of_drained ho hs hdrained hdispatching hprepared
  -- Nothing is left to count for anybody.
  have hnone : ∀ client, s.unfinishedOf client = 0 := by
    intro client
    simp only [State.unfinishedOf, State.live, hraw, hdrained.quiescing, hinHand,
      Assoc.weight_empty, List.map_nil, List.sum_nil, Nat.add_zero]
  refine ⟨hdrained.pending, hdrained.quiescing, hdrained.crcPending, hcompletions,
    hs.reaped hdispatching, hposts, ?_, ?_⟩
  · -- A client in the table would have an op.
    refine Assoc.eq_empty_of_lookup ?_
    intro client
    cases hlookup : s.books.outstandingByClient.lookup client with
    | none => rfl
    | some n =>
      have hpos := hbooks.positive client n hlookup
      have hcount := hbooks.counted client
      rw [hlookup, Option.getD_some, hnone] at hcount
      omega
  · -- A removal that waits would wait for an op.
    rw [Finset.eq_empty_iff_forall_notMem]
    intro client hclient
    have hpos := hbooks.removal client hclient
    rw [hnone] at hpos
    omega

/-- With no op left, no client has an unfinished one. -/
theorem AllDone.unfinishedOf [Operands T] {s : State T} (h : AllDone s) (hbooks : Accounted s)
    (client : ClientId) : s.unfinishedOf client = 0 := by
  have hcount := hbooks.counted client
  rw [h.outstandingByClient] at hcount
  exact hcount.symm

/-- Every transfer that a stopped worker took off the channel is delivered or with the pool. -/
theorem State.Stops.perm [Operands T] {s : State T} (h : s.Stops) (hs : Settled s)
    (ho : Owned s) :
    ((transfers s.callers.channel).map returned
        ++ (s.delivered.map Completion.callerContext ++ s.inPool)).Perm
      (s.callers.sent.map returned) := by
  obtain ⟨hdrained, hcompletions, hdispatching, hprepared, hinHand⟩ := h.drained hs
  have hraw := (raw_of_drained ho hs hdrained hdispatching hprepared).2
  exact perm_of_drained ho hdrained hcompletions hraw hinHand

/-- The worker never parks or exits on unfinished work. Where it blocks on the channel, and where
it has left its loop, no op is queued, quiescing, posted or staged, and no removal is deferred.
The shutdown finds nothing to complete. None of it was lost on the way: each transfer that came
off the channel was handed to `complete_batch` or is with the pool, once, and each client whose
removal came off it has been removed. -/
theorem parks_when_done [Operands T] {setup : Setup} {s : State T}
    (h : (service T setup).Reachable s) :
    (s.phase = .parking → s.pass.idle = true → AllDone s) ∧
    (s.phase = .exiting → AllDone s ∧ (s.stepExiting setup).delivered = s.delivered) ∧
    (s.Stops →
      ((transfers s.callers.channel).map returned
          ++ (s.delivered.map Completion.callerContext ++ s.inPool)).Perm
        (s.callers.sent.map returned) ∧
      ∀ c, s.RemovedSince setup c → s.books.peers.byClient.lookup c = none) := by
  obtain ⟨hs, ho⟩ := owned_reach h
  have hbooks := accounted_reach h
  refine ⟨fun hphase hidle => ?_, fun hphase => ?_, fun hstops => ⟨hstops.perm hs ho, ?_⟩⟩
  · exact State.Stops.allDone (.inl ⟨hphase, hidle⟩) hs ho hbooks
  · have hdone : AllDone s := State.Stops.allDone (.inr hphase) hs ho hbooks
    refine ⟨hdone, ?_⟩
    simp only [State.stepExiting, hdone.pending, hdone.crcPending, State.reclaimAll, List.map_nil,
      List.append_nil]
  · -- A client that is leaving holds nothing once its last op is finished.
    intro c hremoved
    exact hremoved.leaving.2.gone ((hstops.allDone hs ho hbooks).unfinishedOf hbooks c)

/-- After a checksummed write the worker parks, with the batch of one already with the pool. -/
theorem parks_when_done_flushed :
    ∃ s, (service Buffer bufferSetup).run (State.start bufferSetup)
        (startUp ++ postWrite (writeTo 1 (List.replicate 32 254) true 4096) ++ quiesceAndHash
          ++ [.worker .none]) = some s ∧
      s.phase = .parking ∧ s.pool.length = 1 ∧ AllDone s := by
  obtain ⟨s, hrun, hphase, hidle, hpool⟩ :
      ∃ s, (service Buffer bufferSetup).run (State.start bufferSetup)
          (startUp ++ postWrite (writeTo 1 (List.replicate 32 254) true 4096) ++ quiesceAndHash
            ++ [.worker .none]) = some s ∧
        s.phase = .parking ∧ s.pass.idle = true ∧ s.pool.length = 1 :=
    ⟨_, rfl, rfl, rfl, rfl⟩
  have hreach := Machine.reach_run rfl _ hrun
  exact ⟨s, hrun, hphase, hpool, (parks_when_done hreach).1 hphase hidle⟩

/-! ### The drop of the service -/

/-- `complete_batch` was called with the completion of every transfer that was sent. -/
def State.AllDelivered [Operands T] (s : State T) : Prop :=
  ∀ request ∈ s.callers.sent, ∃ c ∈ s.delivered, c.callerContext = returned request

/-- The worker's thread drops its clone of the pool, and ends. -/
def State.ends (s : State T) : Move T → Bool
  | .worker _ =>
    match s.phase with
    | .leaving => true
    | _ => false
  | _ => false

/-- A move that ends the worker only where it holds the last clone of the pool, or where the pool
has nothing left of it. -/
def State.JoinsLate (s : State T) (m : Move T) : Prop :=
  s.ends m = true → s.poolShared = false ∨ s.pool.isEmpty = true

instance (s : State T) (m : Move T) : Decidable (s.JoinsLate m) :=
  inferInstanceAs (Decidable (_ → _))

/-- Every pool job has a completion to make or to deliver. -/
def Staffed (s : State T) : Prop := ∀ job ∈ s.pool, job.batch ≠ [] ∨ job.done ≠ []

section
variable [Operands T] {setup : Setup} {s s' : State T} {m : Move T}

/-- Every move leaves the jobs with something to do. -/
theorem Staffed.step (h : Staffed s) (hs : Settled s) (ho : Owned s) (hmove : Moves setup s m s') :
    Staffed s' := by
  obtain ⟨part, hmove⟩ := hmove
  cases hmove with
  -- A hashed op moves from the batch to what is done, so the job is not empty.
  | hash before after op result batch done hpool =>
    intro job hjob
    rcases List.mem_append.mp hjob with hbefore | hjob
    · exact h job (by rw [hpool]; exact List.mem_append_left _ hbefore)
    · rcases List.mem_cons.mp hjob with rfl | hafter
      · right
        simp
      · exact h job (by rw [hpool]; exact List.mem_append_right _ (.tail _ hafter))
  -- The other jobs stay.
  | finish before after done hpool =>
    intro job hjob
    refine h job ?_
    rw [hpool]
    rcases List.mem_append.mp hjob with hbefore | hafter
    · exact List.mem_append_left _ hbefore
    · exact List.mem_append_right _ (.tail _ hafter)
  | flush hphase hflush =>
    intro job hjob
    rcases List.mem_append.mp hjob with hold | hnew
    · exact h job hold
    · -- Only a batch with ops in it is flushed.
      left
      rw [List.mem_singleton.mp hnew]
      intro hnone
      change s.queues.crcPending = [] at hnone
      simp [shouldFlushCrc, hnone] at hflush
  | dangling context hraw howned => exact (ho.backed.not_dangling hraw howned).elim
  | danglingPending hphase hreclaim => exact (hs.not_danglingPending hphase hreclaim).elim
  | _ => exact h

/-- In every run each pool job has something to do. -/
theorem staffed_reach {ok : State T → Move T → Prop} (h : (service T setup).Reach ok s) :
    Staffed s := by
  refine service_invariant (J := fun s => Settled s ∧ Owned s) (I := Staffed)
    (fun s hs => owned_reach hs) (by intro job h; cases h) ?_ h
  intro s m s' hs hs' hok hmove hstaffed
  exact hstaffed.step hs.1 hs.2 hmove

/-- A move into the exit is the one that ends the worker, and it waits for a pool that nobody else
holds. Past the exit the pool gets nothing. -/
theorem Moves.pool_of_exited (hs : Settled s) (ho : Owned s) (hmove : Moves setup s m s')
    (hexited : s'.phase = .exited) :
    (s.ends m = true ∧ (s.poolShared = true ∨ s.pool = []) ∧ s'.pool = s.pool) ∨
    (s.phase = .exited ∧ (s.pool = [] → s'.pool = [])) := by
  obtain ⟨part, hmove⟩ := hmove
  -- Only leaving ends in the exit; the rest keeps it or does not reach it.
  cases hmove with
  | submit | send | sendFails | message | refused | dropService | thread | write | releasePool =>
    exact .inr ⟨hexited, fun hpool => hpool⟩
  -- The pool takes jobs off; it adds none.
  | hash before after op result batch done hpool | finish before after done hpool =>
    refine .inr ⟨hexited, fun hnone => ?_⟩
    rw [hpool] at hnone
    simp at hnone
  | leave hphase hpool => exact .inl ⟨by rw [State.ends, hphase], hpool, rfl⟩
  | turn hturn => cases hturn <;> cases hexited
  | pinnedQuiesce base limit result phase hphase hnext =>
    rcases hnext with rfl | rfl
    all_goals cases hexited
  | toQuiescing context reaped op read hphase | toCrc context result reaped op hphase
  | toCompletion context result reaped op hphase =>
    change s.phase = .exited at hexited
    rw [hphase] at hexited
    cases hexited
  | dangling context hraw howned => exact (ho.backed.not_dangling hraw howned).elim
  | danglingPending hphase hreclaim => exact (hs.not_danglingPending hphase hreclaim).elim
  | _ => cases hexited

/-- At the exit of the worker everything is delivered just when the pool has nothing left. -/
theorem allDelivered_iff (h : (service T setup).Reachable s) (hphase : s.phase = .exited) :
    s.AllDelivered ↔ s.pool = [] := by
  obtain ⟨hs, ho⟩ := owned_reach h
  have hloops : s.phase.loops = false := by rw [hphase]; rfl
  have hraw := raw_of_quiet ho hs hloops (by rw [hphase]; rfl)
  have hperm := perm_of_quiet ho (hs.quiet hloops) hraw (by rw [hphase]; rfl)
  constructor
  · intro hall
    by_contra hpool
    obtain ⟨job, hjob⟩ := List.exists_mem_of_ne_nil _ hpool
    -- A context that the pool has is one that was sent, and so it was delivered as well.
    obtain ⟨context, hcontext⟩ : ∃ context, context ∈ s.inPool := by
      rcases staffed_reach h job hjob with hbatch | hdone
      · obtain ⟨op, hop⟩ := List.exists_mem_of_ne_nil _ hbatch
        exact ⟨_, List.mem_flatMap.mpr ⟨job, hjob,
          List.mem_append_left _ (List.mem_map_of_mem hop)⟩⟩
      · obtain ⟨c, hc⟩ := List.exists_mem_of_ne_nil _ hdone
        exact ⟨_, List.mem_flatMap.mpr ⟨job, hjob,
          List.mem_append_right _ (List.mem_map_of_mem hc)⟩⟩
    have hsent : context ∈ s.callers.sent.map returned :=
      hperm.mem_iff.mp (List.mem_append_right _ hcontext)
    obtain ⟨request, hrequest, rfl⟩ := List.mem_map.mp hsent
    obtain ⟨c, hc, heq⟩ := hall request hrequest
    have hdelivered : returned request ∈ s.delivered.map Completion.callerContext :=
      heq ▸ List.mem_map_of_mem hc
    -- But no number is sent twice.
    have hnodup : (s.callers.sent.map returned).Nodup := by
      have hunique := ho.unique
      rw [show s.callers.sent.map TransferRequest.number
        = (s.callers.sent.map returned).map Tagged.number by rw [List.map_map]; rfl] at hunique
      exact List.Nodup.of_map _ hunique
    have hdisjoint := List.disjoint_of_nodup_append (hperm.nodup_iff.mpr hnodup)
    exact hdisjoint hdelivered hcontext
  · intro hpool request hrequest
    have hnone : s.inPool = [] := by rw [State.inPool, hpool]; rfl
    rw [hnone, List.append_nil] at hperm
    have hmem := hperm.mem_iff.mpr (List.mem_map_of_mem (f := returned) hrequest)
    obtain ⟨c, hc, heq⟩ := List.mem_map.mp hmem
    exact ⟨c, hc, heq⟩

end

/-- Take any run that ends the worker only where it holds the last clone of the pool, or where the
pool has nothing left of it. The worker's exit, and with it the drop of the service, finds every
transfer completed. At the exit nothing less will do than an empty pool. -/
theorem dropped_delivers [Operands T] (setup : Setup) :
    (∀ s : State T, (service T setup).Reach State.JoinsLate s → s.phase = .exited →
      s.AllDelivered) ∧
    (∀ s : State T, (service T setup).Reachable s → s.phase = .exited →
      (s.AllDelivered ↔ s.pool = [])) := by
  constructor
  · -- The exit's last move waits for the pool, or the condition says the pool was empty.
    intro s h hphase
    have hempty : s.phase = .exited → s.pool = [] := by
      refine service_invariant (J := fun s => Settled s ∧ Owned s)
        (I := fun s => s.phase = .exited → s.pool = []) (fun s hs => owned_reach hs) ?_ ?_ h
      · intro _
        rfl
      · intro s m s' hs hs' hok hmove hbefore hexited
        rcases hmove.pool_of_exited hs.1 hs.2 hexited with
          ⟨hends, hwaits, hpool⟩ | ⟨hold, hpool⟩
        · rw [hpool]
          rcases hok hends with hlast | hnone
          · -- The last clone takes the pool with it, and that waits for its jobs.
            rw [hlast] at hwaits
            exact hwaits.resolve_left Bool.false_ne_true
          · exact List.isEmpty_iff.mp hnone
        · exact hpool (hbefore hold)
    exact (allDelivered_iff h.reachable hphase).mpr (hempty hphase)
  · intro s h hphase
    exact allDelivered_iff h hphase

/-- The service is dropped, the worker holds the last clone of the pool, and it ends once the pool
has hashed what it has. -/
def joinPool : List (Move Buffer) :=
  [.dropService, .releasePool, .worker .none, .worker .none, .worker .none, .worker .none,
    .worker .none, .worker .none, .hash 0, .finish 0, .worker .none]

/-- The pool hashes the write while the worker waits for it, and its completion is there when the
worker exits. -/
theorem dropped_delivers_hashed :
    ∃ s, (service Buffer bufferSetup).run (State.start bufferSetup)
        (startUp ++ postWrite (writeTo 1 (List.replicate 32 254) true 4096) ++ quiesceAndHash
          ++ joinPool) = some s ∧
      s.phase = .exited ∧ s.callers.sent.length = 1 ∧ s.AllDelivered := by
  have hobeys : (service Buffer bufferSetup).Obeys State.JoinsLate (State.start bufferSetup)
      (startUp ++ postWrite (writeTo 1 (List.replicate 32 254) true 4096) ++ quiesceAndHash
        ++ joinPool) := by
    decide +kernel
  obtain ⟨s, hrun, hphase, hsent⟩ :
      ∃ s, (service Buffer bufferSetup).run (State.start bufferSetup)
          (startUp ++ postWrite (writeTo 1 (List.replicate 32 254) true 4096) ++ quiesceAndHash
            ++ joinPool) = some s ∧
        s.phase = .exited ∧ s.callers.sent.length = 1 :=
    ⟨_, rfl, rfl, rfl⟩
  have hreach := (Machine.Reach.init (M := service Buffer bufferSetup) rfl).run hobeys hrun
  exact ⟨s, hrun, hphase, hsent, (dropped_delivers bufferSetup).1 s hreach hphase⟩

/-- The service is dropped while the pool, which others hold too, has yet to hash a write. The
worker exits, and nobody was told of the write. -/
theorem dropped_undelivered :
    ∃ s, (service Buffer bufferSetup).run (State.start bufferSetup)
        (startUp ++ postWrite (writeTo 1 (List.replicate 32 254) true 4096) ++ quiesceAndHash
          ++ shutDown) = some s ∧
      s.phase = .exited ∧ s.delivered = [] ∧ ¬s.AllDelivered := by
  obtain ⟨s, hrun, hphase, hdelivered, request, hrequest⟩ :
      ∃ s, (service Buffer bufferSetup).run (State.start bufferSetup)
          (startUp ++ postWrite (writeTo 1 (List.replicate 32 254) true 4096) ++ quiesceAndHash
            ++ shutDown) = some s ∧
        s.phase = .exited ∧ s.delivered = [] ∧ ∃ request, request ∈ s.callers.sent :=
    ⟨_, rfl, rfl, rfl, _, .head _⟩
  refine ⟨s, hrun, hphase, hdelivered, ?_⟩
  intro hall
  obtain ⟨c, hc, -⟩ := hall request hrequest
  rw [hdelivered] at hc
  cases hc

end Vdma.Fabric
