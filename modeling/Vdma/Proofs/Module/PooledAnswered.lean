import Vdma.Proofs.Module.Turns

/-!
# `Vdma.Proofs.Module.PooledAnswered`: every client is answered, whatever the pool

An execution of `pooled` is one of `system` (`exists_system`). What `Fair` asks of the pool of each
service comes from threads that go on (`IsHost.fair_pool`), and what it asks of a worker from a
worker that does not stay in `submit` (`IsHost.fair_worker`). So the clients are answered as they
are without a pool.
-/

set_option autoImplicit false

namespace Vdma.Module

open Vdma.Lib Vdma.Fabric

/-! ### Executions -/

/-- What a step is to the module. -/
def Pooled.Seen (p : Pooled) : PooledEvent → Option Event → Prop
  | .host e, seen => seen = some e
  | .submit _, seen => seen = none
  | .take _, seen => seen = none
  | .hash w, seen => ∃ device ticket, p.running w = some (device, ticket) ∧
      seen = some (.fabric device (.hash ((p.tickets device).idxOf ticket)))
  | .finish w, seen => ∃ device ticket, p.running w = some (device, ticket) ∧
      seen = some (.fabric device (.finish ((p.tickets device).idxOf ticket)))

/-- A step of the module that is not one of a job. -/
def PooledEvent.isHost (group : Event → Prop) : PooledEvent → Prop
  | .host e => group e
  | _ => False

/-- Whoever has something to do gets round to it. Of the pool, each thread does. -/
structure PooledFair {devices : Devices} {threads : Nat} (x : (pooled devices threads).Execution) :
    Prop where
  send : ∀ device, device < devices.count →
    x.FairTo (PooledEvent.isHost fun e => ∃ i, e = .send device i)
  worker : ∀ device, device < devices.count →
    x.FairTo (PooledEvent.isHost fun e => ∃ answer, e = .fabric device (.worker answer))
  submit : ∀ device, device < devices.count → x.FairTo fun e => e = .submit device
  thread : ∀ w, x.FairTo (PooledEvent.isThread w)
  finish : ∀ device, device < devices.count →
    x.FairTo (PooledEvent.isHost fun e => ∃ index stores, e = .finish device index stores)
  provider : ∀ device, device < devices.count →
    ∀ k, ∀ op ∈ ((x.state k).state.fabrics device).wire.posts,
      (∀ l, ∃ m answers, l ≤ m ∧
        x.label m = some (.host (.fabric device (.worker (.cq answers))))) →
        ∃ m, k ≤ m ∧ op ∉ ((x.state m).state.fabrics device).wire.posts
  clock : ∀ device, device < devices.count → ∀ time, ∃ k, ∀ m code first now, k ≤ m →
    x.label m = some (.host (.fabric device (.worker (.rma code first now)))) → time ≤ now

/-- No more commands arrive, and nobody else asks the services for anything. -/
def PooledSubsides {devices : Devices} {threads : Nat} (x : (pooled devices threads).Execution)
    (n : Nat) : Prop :=
  ∀ m e, n ≤ m → x.label m = some (.host e) →
    e.arrives = false ∧ ∀ device move, e = .fabric device move → move.isCaller = false

/-- What the module does in an execution of the pooled one. -/
structure IsHost {devices : Devices} {threads : Nat} (x : (pooled devices threads).Execution)
    (y : (system devices).Execution) : Prop where
  state : ∀ n, y.state n = (x.state n).state
  idle : ∀ n, x.label n = none → y.label n = none
  seen : ∀ n e, x.label n = some e → (x.state n).Seen e (y.label n)

/-! ### A fair pool -/

section
variable {devices : Devices} {threads : Nat} {p p' : Pooled} {e : PooledEvent}
  {x : (pooled devices threads).Execution} {y : (system devices).Execution} {n : Nat} {device : Nat}

/-- A step on the pool is a step of the module, or one that the module does not see. -/
theorem seen_of_pooledMoves (h : PooledMoves devices p e p') :
    ∃ seen, p.Seen e seen ∧ Machine.Stutters (system devices) p.state seen p'.state := by
  cases h with
  | host e s hstep => exact ⟨some e, rfl, hstep⟩
  | batch device answer s pool hstep => exact ⟨_, rfl, hstep⟩
  | submit | take => exact ⟨none, rfl, rfl⟩
  | hash w device ticket s hrunning hstep =>
    exact ⟨_, ⟨device, ticket, hrunning, rfl⟩, hstep⟩
  | finish w device ticket s pool hrunning hstep =>
    exact ⟨_, ⟨device, ticket, hrunning, rfl⟩, hstep⟩

/-- An execution of the pooled module is one of the module. -/
theorem exists_system (x : (pooled devices threads).Execution) :
    ∃ y : (system devices).Execution, IsHost x y := by
  obtain ⟨y, hstate, hidle, hseen⟩ := x.exists_projection Pooled.state Pooled.Seen x.starts.1
    fun n e hlabel => seen_of_pooledMoves (pooledMoves_of_step (x.steps n e hlabel))
  exact ⟨y, hstate, hidle, hseen⟩

namespace IsHost

/-- What the host does is what the module does. -/
theorem label_of_host (h : IsHost x y) {e : Event} (hlabel : x.label n = some (.host e)) :
    y.label n = some e := h.seen n _ hlabel

/-- Anything but a step of a job is a label of the pooled module. -/
theorem host_of_label (h : IsHost x y) {e : Event}
    (hjob : ∀ device move, e = .fabric device move → move.isPool = false)
    (hlabel : y.label n = some e) : x.label n = some (.host e) := by
  cases hx : x.label n with
  | none =>
    rw [h.idle n hx] at hlabel
    cases hlabel
  | some e' =>
    have hseen := h.seen n e' hx
    rw [hlabel] at hseen
    cases e' with
    | host e' => rw [Option.some.inj hseen]
    | submit | take => cases hseen
    | hash | finish =>
      obtain ⟨device, ticket, -, heq⟩ := hseen
      have hnot := hjob device _ (Option.some.inj heq)
      cases hnot

end IsHost

/-- Every worker leaves `submit`, time and again. -/
theorem PooledFair.frees (hfair : PooledFair x) (hdevice : device < devices.count) (n : Nat) :
    ∃ m, n ≤ m ∧ (x.state m).inSubmit device = false := by
  by_contra hnever
  have hin : ∀ m, n ≤ m → (x.state m).inSubmit device = true := by
    intro m hm
    by_contra hout
    exact hnever ⟨m, hm, Bool.eq_false_iff.mpr hout⟩
  obtain ⟨m, e, hm, rfl, hlabel⟩ := hfair.submit device hdevice n fun m hm =>
    ⟨_, rfl, (state_reach (x.reachable m)).2.submit_enabled (hin m hm)⟩
  have hmove := pooledMoves_of_step (x.steps m _ hlabel)
  exact hnever ⟨m + 1, by omega, (state_reach (x.reachable m)).2.submit_frees hmove⟩

namespace IsHost

/-- What is not of a service does as in the module. -/
theorem fair_plain (h : IsHost x y) {group : Event → Prop}
    (hfair : x.FairTo (PooledEvent.isHost group))
    (hplain : ∀ e, group e → ∀ device move, e ≠ .fabric device move) : y.FairTo group := by
  intro n hmoves
  have hmoves' : ∀ m, n ≤ m →
      (pooled devices threads).CanMove (PooledEvent.isHost group) (x.state m) := by
    intro m hm
    obtain ⟨e, he, henabled⟩ := hmoves m hm
    rw [h.state] at henabled
    refine ⟨.host e, he, ?_⟩
    change ((x.state m).state.step devices e).isSome = true at henabled
    show ((x.state m).stepHost devices e).isSome = true
    cases e with
    | fabric device move => exact absurd rfl (hplain _ he device move)
    | _ => simpa only [Pooled.stepHost, Option.isSome_map] using henabled
  obtain ⟨m, e, hm, he, hlabel⟩ := hfair n hmoves'
  cases e with
  | host e => exact ⟨m, e, hm, he, h.label_of_host hlabel⟩
  | submit | take | hash | finish => exact he.elim

/-- A worker that stays able to move does, since it does not stay in `submit`. -/
theorem fair_worker (h : IsHost x y) (hfair : PooledFair x) (hdevice : device < devices.count) :
    y.FairTo fun e => ∃ answer, e = .fabric device (.worker answer) := by
  intro n hmoves
  by_contra hnever
  have hworker : ∀ m e, n ≤ m → x.label m = some e →
      ∀ answer, e ≠ .host (.fabric device (.worker answer)) := by
    rintro m _ hm hlabel answer rfl
    exact hnever ⟨m, _, hm, ⟨answer, rfl⟩, h.label_of_host hlabel⟩
  obtain ⟨N, hN, hfree⟩ := hfair.frees hdevice n
  have hfrees : ∀ m, N ≤ m → (x.state m).inSubmit device = false := by
    intro m hm
    refine x.stays (P := fun p => p.inSubmit device = false) hfree ?_ hm
    intro m e hm hlabel hfree
    exact inSubmit_kept (pooledMoves_of_step (x.steps m e hlabel)) hfree
      (hworker m e (by omega) hlabel)
  have hmoves' : ∀ m, N ≤ m → (pooled devices threads).CanMove
      (PooledEvent.isHost fun e => ∃ answer, e = .fabric device (.worker answer)) (x.state m) := by
    intro m hm
    obtain ⟨_, ⟨answer, rfl⟩, henabled⟩ := hmoves m (by omega)
    rw [h.state] at henabled
    exact ⟨.host _, ⟨answer, rfl⟩,
      worker_enabled (state_reach (x.reachable m)).2 (hfrees m hm) henabled⟩
  obtain ⟨m, e, hm, he, hlabel⟩ := hfair.worker device hdevice N hmoves'
  cases e with
  | host e =>
    obtain ⟨answer, rfl⟩ := he
    exact hworker m _ (by omega) hlabel answer rfl
  | submit | take | hash | finish => exact he.elim

/-- A service that has jobs has one of them hashed or delivered in time, whatever the threads have
to do before: each of its jobs comes to the head of a line. -/
theorem fair_pool (h : IsHost x y) (hfair : PooledFair x) (hdevice : device < devices.count) :
    y.FairTo fun e => ∃ move, e = .fabric device move ∧ move.isPool = true := by
  intro n hmoves
  by_contra hnever
  have hruns : ∀ m e ticket, n ≤ m → x.label m = some e →
      ¬e.runs (x.state m) (device, ticket) := by
    rintro m e ticket hm hlabel ⟨w, hrunning, rfl | rfl⟩
    · obtain ⟨d, k, hrunning', hseen⟩ := h.seen m _ hlabel
      cases hrunning.symm.trans hrunning'
      exact hnever ⟨m, _, hm, ⟨_, rfl, rfl⟩, hseen⟩
    · obtain ⟨d, k, hrunning', hseen⟩ := h.seen m _ hlabel
      cases hrunning.symm.trans hrunning'
      exact hnever ⟨m, _, hm, ⟨_, rfl, rfl⟩, hseen⟩
  -- There is a job to begin with.
  obtain ⟨ticket, hticket⟩ : ∃ ticket, ticket ∈ (x.state n).tickets device := by
    obtain ⟨_, ⟨move, rfl, hpool⟩, henabled⟩ := hmoves n (Nat.le_refl n)
    rw [h.state] at henabled
    change ((x.state n).state.step devices (.fabric device move)).isSome = true at henabled
    obtain ⟨s, hs⟩ := Option.isSome_iff_exists.mp henabled
    have hsome : 0 < ((x.state n).state.fabrics device).pool.length := by
      cases move with
      | hash i =>
        obtain ⟨⟨op, batch, done, done', hi, -⟩, -⟩ := hash_pool hs
        exact Nat.zero_lt_of_lt (List.getElem?_eq_some_iff.mp hi).1
      | finish i => exact Nat.zero_lt_of_lt (finish_pool hs).1
      | _ => cases hpool
    rw [← (state_reach (x.reachable n)).2.aligned] at hsome
    exact List.exists_mem_of_length_pos hsome
  obtain ⟨N, hN, hfree⟩ := hfair.frees hdevice n
  have hkept : ticket ∈ (x.state N).tickets device :=
    x.stays (P := fun p => ticket ∈ p.tickets device) hticket (fun m e hm hlabel hmem =>
      Ticketed.ticket_kept (pooledMoves_of_step (x.steps m e hlabel)) hmem
        (hruns m e ticket hm hlabel)) hN
  obtain ⟨w, t, ht, hline⟩ := (state_reach (x.reachable N)).2.exists_line hkept hfree
  -- Then it is in the line of a thread, for good, and that thread gets ever nearer to it.
  have hnear : ∀ m e, N ≤ m → x.label m = some e →
      (∃ t, (x.state m).pool.threads[w]? = some t ∧ (device, ticket) ∈ t.line) → _ :=
    fun m e hm hlabel ⟨t, ht, hline⟩ =>
      (state_reach (x.reachable m)).2.ahead_step (state_reach (x.reachable m)).1
        (pooledMoves_of_step (x.steps m e hlabel)) ht hline (hruns m e ticket (by omega) hlabel)
  have hin : ∀ m, N ≤ m →
      ∃ t, (x.state m).pool.threads[w]? = some t ∧ (device, ticket) ∈ t.line := fun m hm =>
    x.stays (P := fun p => ∃ t, p.pool.threads[w]? = some t ∧ (device, ticket) ∈ t.line)
      ⟨t, ht, hline⟩ (fun m e hm hlabel hin => (hnear m e hm hlabel hin).1) hm
  obtain ⟨m, hm, hstuck⟩ := x.runs_out (hfair.thread w) (fun p => p.ahead w (device, ticket))
    (fun m e hm hnot hlabel => (hnear m e hm hlabel (hin m hm)).2.2 hnot)
    (fun m e hm he hlabel => (hnear m e hm hlabel (hin m hm)).2.1 he)
  obtain ⟨t, ht, hline⟩ := hin m hm
  exact hstuck ((state_reach (x.reachable m)).2.canMove ht hline)

/-- Fair threads make for a fair module. -/
theorem fair (h : IsHost x y) (hfair : PooledFair x) : Fair y where
  send device hdevice := h.fair_plain (hfair.send device hdevice) (by rintro _ ⟨i, rfl⟩; simp)
  worker device hdevice := h.fair_worker hfair hdevice
  pool device hdevice := h.fair_pool hfair hdevice
  finish device hdevice :=
    h.fair_plain (hfair.finish device hdevice) (by rintro _ ⟨index, stores, rfl⟩; simp)
  provider device hdevice k op hop hreads := by
    rw [h.state] at hop
    have hreads' : ∀ l, ∃ m answers, l ≤ m ∧
        x.label m = some (.host (.fabric device (.worker (.cq answers)))) := by
      intro l
      obtain ⟨m, answers, hm, hlabel⟩ := hreads l
      exact ⟨m, answers, hm, h.host_of_label (by rintro d move ⟨⟩; rfl) hlabel⟩
    obtain ⟨m, hm, hgone⟩ := hfair.provider device hdevice k op hop hreads'
    exact ⟨m, hm, by rwa [h.state]⟩
  clock device hdevice time := by
    obtain ⟨k, hk⟩ := hfair.clock device hdevice time
    exact ⟨k, fun m code first now hm hlabel =>
      hk m code first now hm (h.host_of_label (by rintro d move ⟨⟩; rfl) hlabel)⟩

/-- The module subsides with its commands. -/
theorem subsides (h : IsHost x y) (hsubsides : PooledSubsides x n) : Subsides y n := by
  intro m e hm hlabel
  cases hx : x.label m with
  | none =>
    rw [h.idle m hx] at hlabel
    cases hlabel
  | some e' =>
    have hseen := h.seen m e' hx
    rw [hlabel] at hseen
    cases e' with
    | host e' =>
      obtain rfl := Option.some.inj hseen
      exact hsubsides m _ hm hx
    | submit | take => cases hseen
    | hash | finish =>
      obtain ⟨d, k, -, heq⟩ := hseen
      cases heq
      exact ⟨rfl, by rintro d move ⟨⟩; rfl⟩

end IsHost

/-- In a fair execution of the module on its pool, once no more commands arrive, every client that
was blocked is answered in time, and once, whatever the number of threads. -/
theorem pooled_clients_answered (hfair : PooledFair x) (hsubsides : PooledSubsides x n) :
    ∃ N, n ≤ N ∧ ∀ k, N ≤ k → ((x.state k).state.replies.map PendingReply.blocked).Perm
      (List.range (x.state k).state.commands.length) := by
  obtain ⟨y, hy⟩ := exists_system x
  obtain ⟨N, hN, hdone⟩ := (hy.fair hfair).finishes_all (hy.subsides hsubsides)
  refine ⟨N, hN, fun k hk => ?_⟩
  rw [← hy.state]
  exact answered_of_finished (y.reachable k) (hdone k hk)

/-- What the host can do, the module can do. -/
theorem canMove_of_host {group : Event → Prop}
    (h : (pooled devices threads).CanMove (PooledEvent.isHost group) p) :
    (system devices).CanMove group p.state := by
  obtain ⟨e, he, henabled⟩ := h
  obtain ⟨p', hstep⟩ := Option.isSome_iff_exists.mp henabled
  cases e with
  | host e =>
    refine ⟨e, he, Option.isSome_iff_exists.mpr ?_⟩
    cases pooledMoves_of_step hstep with
    | host e s hs | batch device answer s pool hs => exact ⟨s, hs⟩
  | submit | take | hash | finish => exact he.elim

/-- The threads of a pool that holds no jobs have nothing to do. -/
theorem stuck_thread (h : p.pool.held = []) (w : Nat) :
    ¬(pooled devices threads).CanMove (PooledEvent.isThread w) p := by
  rintro ⟨e, he, henabled⟩
  obtain ⟨p', hstep⟩ := Option.isSome_iff_exists.mp henabled
  have hnone : ∀ t, p.pool.threads[w]? = some t → t.line = [] := fun t ht =>
    List.flatMap_eq_nil_iff.mp (List.append_eq_nil_iff.mp h).2 t (List.mem_of_getElem? ht)
  have hidle : ∀ job, p.running w ≠ some job := by
    intro job hrunning
    obtain ⟨t, ht, hr⟩ := Option.bind_eq_some_iff.mp hrunning
    have hnil := hnone t ht
    simp [PoolThread.line, hr] at hnil
  cases pooledMoves_of_step hstep with
  | host | batch | submit => simp [PooledEvent.isThread] at he
  | take v pool htake =>
    cases htake with
    | take v job channel ht =>
      have hv : v = w := by simpa [PooledEvent.isThread] using he
      subst hv
      have hnil := hnone _ ht
      cases hnil
  | hash v device ticket s hrunning hs =>
    have hv : v = w := by simpa [PooledEvent.isThread] using he
    subst hv
    exact hidle _ hrunning
  | finish v device ticket s pool hrunning hs hfinish =>
    have hv : v = w := by simpa [PooledEvent.isThread] using he
    subst hv
    exact hidle _ hrunning

/-- A run that ends with everything done is fair. -/
theorem pooledFair_ofRun {es : List PooledEvent} (hinit : (pooled devices threads).init p)
    (hrun : (pooled devices threads).run p es = some p') (hheld : p'.pool.held = [])
    (hdone : ∀ device, device < devices.count → p'.state.Done device) :
    PooledFair (Machine.Execution.ofRun hinit hrun) := by
  have hreach := (state_reach (Machine.reach_run hinit es hrun)).1
  have hlabel : ∀ m, es.length ≤ m → (Machine.Execution.ofRun hinit hrun).label m = none :=
    fun m hm => List.getElem?_eq_none hm
  have hfair : ∀ group : Event → Prop, ¬(system devices).CanMove group p'.state →
      (Machine.Execution.ofRun hinit hrun).FairTo (PooledEvent.isHost group) := fun group hstuck =>
    Machine.Execution.fairTo_ofRun hinit hrun fun hmove => hstuck (canMove_of_host hmove)
  refine ⟨fun device hdevice => ?_, fun device hdevice => ?_, fun device hdevice => ?_, fun w => ?_,
    fun device hdevice => ?_, fun device _ k op _ hreads => ?_, fun device _ time => ?_⟩
  · exact hfair _ (hdone device hdevice).stuck_send
  · exact hfair _ ((hdone device hdevice).stuck_worker hreach)
  · refine Machine.Execution.fairTo_ofRun hinit hrun ?_
    rintro ⟨_, rfl, henabled⟩
    change (p'.stepSubmit device).isSome = true at henabled
    have hsubmitting := List.map_eq_nil_iff.mp (List.append_eq_nil_iff.mp hheld).1
    simp [Pooled.stepSubmit, hsubmitting] at henabled
  · exact Machine.Execution.fairTo_ofRun hinit hrun (stuck_thread hheld w)
  · exact hfair _ (hdone device hdevice).stuck_finish
  · obtain ⟨m, answers, hm, hread⟩ := hreads es.length
    rw [hlabel m hm] at hread
    cases hread
  · refine ⟨es.length, fun m code first now hm hread => ?_⟩
    rw [hlabel m hm] at hread
    cases hread

end

/-- In this run the client of the only command gets its reply. -/
theorem pooled_clients_answered_set :
    ∃ (x : (pooled checkDevices 2).Execution) (n : Nat), (x.state n).state.commands.length = 1 ∧
      ((x.state n).state.replies.map PendingReply.blocked).Perm
        (List.range (x.state n).state.commands.length) := by
  obtain ⟨p, p', hset, -, hreply, hnone, hdone, hcommands⟩ := run_pooledSet
  have hrun : (pooled checkDevices 2).run (pooledLoaded 2) (pooledSet ++ pooledReply)
      = some p' := by
    rw [Machine.run_append hset]
    exact hreply
  have hfair : PooledFair (Machine.Execution.ofRun (pooledLoaded_init 2) hrun) := by
    refine pooledFair_ofRun (pooledLoaded_init 2) hrun hnone fun device hdevice => ?_
    have hzero : device = 0 := Nat.lt_one_iff.mp hdevice
    subst hzero
    exact hdone
  have hsubsides : PooledSubsides (Machine.Execution.ofRun (pooledLoaded_init 2) hrun)
      (pooledSet ++ pooledReply).length := by
    intro m e hm hlabel
    rw [show (Machine.Execution.ofRun (pooledLoaded_init 2) hrun).label m = none from
      List.getElem?_eq_none hm] at hlabel
    cases hlabel
  obtain ⟨N, hN, hanswered⟩ := pooled_clients_answered hfair hsubsides
  refine ⟨Machine.Execution.ofRun (pooledLoaded_init 2) hrun, N, ?_, hanswered N (Nat.le_refl N)⟩
  rw [show (Machine.Execution.ofRun (pooledLoaded_init 2) hrun).state N = p' from
    Machine.Execution.after_end hrun hN]
  exact hcommands

end Vdma.Module
