import Vdma.Module.Pooled
import Vdma.Proofs.Module.Answered
import Vdma.Proofs.Pool

/-!
# `Vdma.Proofs.Module.Pooled`: the module on its pool is the module

`Ticketed` ties the pool to the services. The tickets of a device are those of its service's jobs,
and a job has its ticket from the draw of its number until a thread is done with it. In between it
is in one place, by the law of the pool: on its way to a thread, in the thread's channel, or
running.

So every step of `pooled` is one of `system`, or leaves the module as it is.
-/

set_option autoImplicit false

namespace Vdma.Module

open Vdma.Lib Vdma.Fabric

/-! ### The jobs of a service -/

/-- Only the worker hands a batch over. -/
theorem pool_of_moves {setup : Setup} {f f' : Fabric.State OpToken} {move : Move OpToken}
    (hs : Settled f) (ho : Owned f) (hmove : Moves setup f move f') (hpool : move.isPool = false) :
    f'.pool = f.pool ∨
      ∃ answer batch, move = .worker answer ∧ f'.pool = f.pool ++ [⟨batch, []⟩] := by
  obtain ⟨part, hmove⟩ := hmove
  cases hmove with
  | hash | finish => cases hpool
  | flush => exact .inr ⟨_, _, rfl, rfl⟩
  | dangling context hraw howned => exact (ho.backed.not_dangling hraw howned).elim
  | danglingPending hphase hreclaim => exact (hs.not_danglingPending hphase hreclaim).elim
  | _ => exact .inl rfl

section
variable {devices : Devices} {s s' : State} {e : Event}

/-- A step that is not one of a job leaves the jobs of a service, or hands a batch over. -/
theorem pool_of_steps (hreach : (system devices).Reachable s) (h : Steps devices s e s')
    (hjob : ∀ device move, e = .fabric device move → move.isPool = false) (device : Nat) :
    (s'.fabrics device).pool = (s.fabrics device).pool ∨
      ∃ answer batch, e = .fabric device (.worker answer) ∧
        (s'.fabrics device).pool = (s.fabrics device).pool ++ [⟨batch, []⟩] := by
  obtain ⟨move, hseen, hstep⟩ := seen_of_steps h device
  obtain ⟨hs, ho⟩ := owned_reach (fabric_reach hreach device)
  cases move with
  | none => exact .inl (congrArg Fabric.State.pool (show s'.fabrics device = _ from hstep))
  | some move =>
    have hmove : (s.fabrics device).step (devices.setup device) move = some (s'.fabrics device) :=
      hstep
    -- Only a job of the pool moves the pool on its own.
    have hpool : move.isPool = false := by
      cases e with
      | set | get =>
        rcases hseen with hnone | ⟨request, hsubmit⟩
        · cases hnone
        · cases hsubmit
          rfl
      | send d i =>
        simp only [Seen] at hseen
        split at hseen
        · cases hseen
          rfl
        · cases hseen
      | fabric d own =>
        simp only [Seen] at hseen
        split at hseen
        · cases hseen
          exact hjob d _ rfl
        · cases hseen
      | finish | keyspace => cases hseen
      | write memory =>
        cases hseen
        rfl
    rcases pool_of_moves hs ho (moves_of_step hmove) hpool with hsame | ⟨answer, batch, rfl, hnew⟩
    · exact .inl hsame
    · refine .inr ⟨answer, batch, ?_, hnew⟩
      -- The batch was flushed by a step of this device's worker.
      cases e with
      | set | get =>
        rcases hseen with hnone | ⟨request, hsubmit⟩
        · cases hnone
        · cases hsubmit
      | send d i =>
        simp only [Seen] at hseen
        split at hseen <;> cases hseen
      | fabric d own =>
        simp only [Seen] at hseen
        split at hseen
        · next hd =>
          cases hseen
          rw [hd]
        · cases hseen
      | finish | keyspace | write => cases hseen

/-- A job that is hashed is one of its device's, and has an op less to hash. -/
theorem hash_pool {device i : Nat}
    (h : s.step devices (.fabric device (.hash i)) = some s') :
    (∃ op batch done done', (s.fabrics device).pool[i]? = some ⟨op :: batch, done⟩ ∧
      (s'.fabrics device).pool = (s.fabrics device).pool.set i ⟨batch, done'⟩) ∧
      ∀ d, d ≠ device → s'.fabrics d = s.fabrics d := by
  simp only [State.step, isOwn, if_true, Option.map_eq_some_iff] at h
  obtain ⟨fabric, hstep, rfl⟩ := h
  simp only [Fabric.State.step, Fabric.State.stepHash] at hstep
  split at hstep
  · next op result batch done hi =>
    cases hstep
    let crc := (s.fabrics device).crc (devices.setup device)
    refine ⟨⟨(op, result), batch, done, done ++ [op.intoCompletion crc result], hi, ?_⟩,
      fun d hd => Function.update_of_ne hd ..⟩
    show (Function.update s.fabrics device _ device).pool = _
    rw [Function.update_self]
  · cases hstep

/-- Hashing keeps the number of jobs. -/
theorem hash_length {device i : Nat} (h : s.step devices (.fabric device (.hash i)) = some s')
    (d : Nat) : (s'.fabrics d).pool.length = (s.fabrics d).pool.length := by
  obtain ⟨⟨op, batch, done, done', -, hset⟩, hothers⟩ := hash_pool h
  by_cases hd : d = device
  · rw [hd, hset, List.length_set]
  · rw [hothers d hd]

/-- A job that is delivered is one of its device's, and is taken from them. -/
theorem finish_pool {device i : Nat}
    (h : s.step devices (.fabric device (.finish i)) = some s') :
    i < (s.fabrics device).pool.length ∧
      (s'.fabrics device).pool = (s.fabrics device).pool.eraseIdx i ∧
      ∀ d, d ≠ device → s'.fabrics d = s.fabrics d := by
  simp only [State.step, isOwn, if_true, Option.map_eq_some_iff] at h
  obtain ⟨fabric, hstep, rfl⟩ := h
  simp only [Fabric.State.step, Fabric.State.stepFinish] at hstep
  split at hstep
  · next done hi =>
    cases hstep
    refine ⟨(List.getElem?_eq_some_iff.mp hi).1, ?_, fun d hd => Function.update_of_ne hd ..⟩
    show (Function.update s.fabrics device _ device).pool = _
    rw [Function.update_self]
  · cases hstep

end

/-! ### Moves -/

/-- What a step of the pooled module does. -/
inductive PooledMoves (devices : Devices) (p : Pooled) : PooledEvent → Pooled → Prop
  | host (e : Event) (s : State) (hstep : p.state.step devices e = some s)
      (hjob : ∀ device move, e = .fabric device move → move.isPool = false)
      (hworker : ∀ device answer, e = .fabric device (.worker answer) → p.inSubmit device = false)
      (hpool : ∀ device answer, e = .fabric device (.worker answer) →
        (s.fabrics device).pool.length ≤ (p.state.fabrics device).pool.length) :
      PooledMoves devices p (.host e) { p with state := s }
  | batch (device : Nat) (answer : Answer) (s : State) (pool : Pool (Nat × Nat))
      (hstep : p.state.step devices (.fabric device (.worker answer)) = some s)
      (hsubmit : p.inSubmit device = false)
      (hpool : (p.state.fabrics device).pool.length < (s.fabrics device).pool.length)
      (hdraw : p.pool.Moves (.draw (device, p.issued device)) pool) :
      PooledMoves devices p (.host (.fabric device (.worker answer)))
        { state := s
          pool := pool
          tickets := Function.update p.tickets device (p.tickets device ++ [p.issued device])
          issued := Function.update p.issued device (p.issued device + 1) }
  | submit (device i thread ticket : Nat) (pool : Pool (Nat × Nat))
      (hi : p.pool.submitting[i]? = some (thread, (device, ticket)))
      (hmove : p.pool.Moves (.send i) pool) :
      PooledMoves devices p (.submit device) { p with pool := pool }
  | take (w : Nat) (pool : Pool (Nat × Nat)) (hmove : p.pool.Moves (.take w) pool) :
      PooledMoves devices p (.take w) { p with pool := pool }
  | hash (w device ticket : Nat) (s : State) (hrunning : p.running w = some (device, ticket))
      (hstep : p.state.step devices (.fabric device (.hash ((p.tickets device).idxOf ticket)))
        = some s) :
      PooledMoves devices p (.hash w) { p with state := s }
  | finish (w device ticket : Nat) (s : State) (pool : Pool (Nat × Nat))
      (hrunning : p.running w = some (device, ticket))
      (hstep : p.state.step devices (.fabric device (.finish ((p.tickets device).idxOf ticket)))
        = some s)
      (hmove : p.pool.Moves (.finish w false) pool) :
      PooledMoves devices p (.finish w)
        { p with
          state := s
          pool := pool
          tickets := Function.update p.tickets device
            ((p.tickets device).eraseIdx ((p.tickets device).idxOf ticket)) }

section
variable {devices : Devices} {p p' : Pooled} {e : PooledEvent}

/-- Every step of the host is a move of one service, and of the pool where it flushes or runs a
job. -/
theorem pooledMoves_of_host {e : Event} (h : p.stepHost devices e = some p') :
    PooledMoves devices p (.host e) p' := by
  -- Most labels do as in the module.
  have hplain : (p.state.step devices e).map (fun s => { p with state := s }) = some p' →
      (∀ device move, e = .fabric device move → move.isPool = false) →
      (∀ device answer, e ≠ .fabric device (.worker answer)) →
        PooledMoves devices p (.host e) p' := by
    intro hmap hjob hworker
    obtain ⟨s, hstep, rfl⟩ := Option.map_eq_some_iff.mp hmap
    exact .host e s hstep hjob (fun device answer he => absurd he (hworker device answer))
      fun device answer he => absurd he (hworker device answer)
  cases e with
  | fabric device move =>
    cases move with
    | hash | finish => cases h
    | worker answer =>
      simp only [Pooled.stepHost, Pooled.stepWorker] at h
      split at h
      · cases h
      · next hsubmit =>
        split at h
        · cases h
        · next s hstep =>
          have hfree := Bool.eq_false_iff.mpr hsubmit
          split at h
          · next hgrown =>
            obtain ⟨pool, hdraw, rfl⟩ := Option.map_eq_some_iff.mp h
            exact .batch device answer s pool hstep hfree hgrown (Pool.moves_of_step hdraw)
          · next hsame =>
            cases h
            refine .host _ s hstep ?_ ?_ ?_
            · rintro d move ⟨⟩
              rfl
            · rintro d answer' ⟨⟩
              exact hfree
            · rintro d answer' ⟨⟩
              exact Nat.le_of_not_lt hsame
    | _ =>
      refine hplain h ?_ (by simp)
      rintro d move ⟨⟩
      rfl
  | _ => exact hplain h (by simp) (by simp)

/-- Every step of the module on its pool is one of these moves. -/
theorem pooledMoves_of_step (h : (pooled devices 0).step p e = some p') :
    PooledMoves devices p e p' := by
  change p.step devices e = some p' at h
  cases e with
  | host e => exact pooledMoves_of_host h
  | submit device =>
    simp only [Pooled.step, Pooled.stepSubmit] at h
    split at h
    · cases h
    · next i hindex =>
      obtain ⟨pool, hsend, rfl⟩ := Option.map_eq_some_iff.mp h
      obtain ⟨hlt, hdevice, -⟩ := List.findIdx?_eq_some_iff_getElem.mp hindex
      obtain rfl := of_decide_eq_true hdevice
      exact .submit _ i _ _ pool (List.getElem?_eq_getElem hlt) (Pool.moves_of_step hsend)
  | take w =>
    obtain ⟨pool, htake, rfl⟩ := Option.map_eq_some_iff.mp h
    exact .take w pool (Pool.moves_of_step htake)
  | hash w =>
    simp only [Pooled.step, Pooled.stepHash] at h
    split at h
    · cases h
    · next device ticket hrunning =>
      obtain ⟨s, hstep, rfl⟩ := Option.map_eq_some_iff.mp h
      exact .hash w device ticket s hrunning hstep
  | finish w =>
    simp only [Pooled.step, Pooled.stepFinish] at h
    split at h
    · cases h
    · next device ticket hrunning =>
      split at h
      · next s pool hstep hfinish =>
        cases h
        exact .finish w device ticket s pool hrunning hstep (Pool.moves_of_step hfinish)
      · cases h

end

/-! ### Tickets -/

/-- The tickets of a device are those of its jobs, each for a job that the pool has and has not run
yet. -/
structure Ticketed (p : Pooled) : Prop where
  pool : p.pool.Sound
  running : p.pool.closed = false
  aligned : ∀ device, (p.tickets device).length = (p.state.fabrics device).pool.length
  fresh : ∀ entry ∈ p.pool.drawn, entry.2.2 < p.issued entry.2.1
  unique : (p.pool.drawn.map Prod.snd).Nodup
  tickets : ∀ device ticket, ticket ∈ p.tickets device ↔
    (device, ticket) ∈ p.pool.drawn.map Prod.snd ∧ (device, ticket) ∉ p.pool.ran.map Prod.snd
  nodup : ∀ device, (p.tickets device).Nodup
  single : ∀ entry ∈ p.pool.submitting, ∀ entry' ∈ p.pool.submitting,
    entry.2.1 = entry'.2.1 → entry = entry'

namespace Ticketed

variable {devices : Devices} {p p' : Pooled} {e : PooledEvent} {w : Nat}
  {t : PoolThread (Nat × Nat)} {job : Nat × Nat}

/-- A job is on one thread. -/
theorem thread_eq (h : Ticketed p) {v : Nat} (hv : (v, job) ∈ p.pool.submitting ++ p.pool.sent)
    (hw : (w, job) ∈ p.pool.submitting ++ p.pool.sent) : v = w := by
  have hdrawn : ∀ {u : Nat},
      (u, job) ∈ p.pool.submitting ++ p.pool.sent → (u, job) ∈ p.pool.drawn :=
    fun hu => h.pool.drawn.mem_iff.mpr hu
  exact congrArg Prod.fst (List.inj_on_of_nodup_map h.unique (hdrawn hv) (hdrawn hw) rfl)

/-- The jobs that a thread was sent are different. -/
theorem nodup_onThread (h : Ticketed p) (w : Nat) : (onThread w p.pool.sent).Nodup := by
  have hsent : (p.pool.sent.map Prod.snd).Nodup := by
    have hperm := (h.pool.drawn.map Prod.snd).nodup_iff.mp h.unique
    rw [List.map_append, List.nodup_append] at hperm
    exact hperm.2.1
  exact hsent.sublist (List.filter_sublist.map Prod.snd)

/-- A job of a thread was sent to it. -/
theorem sent_of_held (h : Ticketed p) (ht : p.pool.threads[w]? = some t)
    (hjob : job ∈ t.running.toList ++ t.channel) : (w, job) ∈ p.pool.sent := by
  have hmem : job ∈ onThread w p.pool.sent := by
    rw [h.pool.turns w t ht, List.append_assoc]
    exact List.mem_append_right _ hjob
  exact mem_onThread.mp hmem

/-- A job of a thread has its ticket. -/
theorem ticket_of_held (h : Ticketed p) (ht : p.pool.threads[w]? = some t)
    (hjob : job ∈ t.running.toList ++ t.channel) : job.2 ∈ p.tickets job.1 := by
  have hsent := h.sent_of_held ht hjob
  have hturns := h.pool.turns w t ht
  refine (h.tickets job.1 job.2).mpr ⟨?_, fun hran => ?_⟩
  · exact List.mem_map_of_mem (h.pool.drawn.mem_iff.mpr (List.mem_append_right _ hsent))
  · -- It would have run on this thread, where it is still to run.
    obtain ⟨⟨v, job'⟩, hmem, heq⟩ := List.mem_map.mp hran
    rw [show job' = job from heq] at hmem
    have hv : (v, job) ∈ p.pool.sent := h.pool.ran_subset hmem
    obtain rfl := h.thread_eq (List.mem_append_right _ hv) (List.mem_append_right _ hsent)
    have hnodup := h.nodup_onThread v
    rw [hturns, List.append_assoc, List.nodup_append] at hnodup
    exact hnodup.2.2 job (mem_onThread.mpr hmem) job hjob rfl

/-- A step of the module that keeps the number of jobs of each device. -/
theorem of_state (h : Ticketed p) {s : State}
    (hlength : ∀ device, (s.fabrics device).pool.length = (p.state.fabrics device).pool.length) :
    Ticketed { p with state := s } where
  pool := h.pool
  running := h.running
  aligned device := (h.aligned device).trans (hlength device).symm
  fresh := h.fresh
  unique := h.unique
  tickets := h.tickets
  nodup := h.nodup
  single := h.single

/-- A move of the pool that draws no number and ends no job. -/
theorem of_pool (h : Ticketed p) {pool : Pool (Nat × Nat)} (hsound : pool.Sound)
    (hclosed : pool.closed = p.pool.closed) (hdrawn : pool.drawn = p.pool.drawn)
    (hran : pool.ran = p.pool.ran) (hsubmitting : pool.submitting ⊆ p.pool.submitting) :
    Ticketed { p with pool := pool } where
  pool := hsound
  running := hclosed.trans h.running
  aligned := h.aligned
  fresh := by rw [hdrawn]; exact h.fresh
  unique := by rw [hdrawn]; exact h.unique
  tickets := by rw [hdrawn, hran]; exact h.tickets
  nodup := h.nodup
  single entry hentry entry' hentry' :=
    h.single entry (hsubmitting hentry) entry' (hsubmitting hentry')

/-- A batch is handed over, and its job gets a new ticket. -/
theorem of_batch (h : Ticketed p) {device thread : Nat} {s : State} {pool : Pool (Nat × Nat)}
    (hsound : pool.Sound) (hsubmit : p.inSubmit device = false)
    (hlength : (s.fabrics device).pool.length = (p.state.fabrics device).pool.length + 1)
    (hothers : ∀ d, d ≠ device →
      (s.fabrics d).pool.length = (p.state.fabrics d).pool.length)
    (hclosed : pool.closed = p.pool.closed) (hran : pool.ran = p.pool.ran)
    (hsubmitting : pool.submitting
      = p.pool.submitting ++ [(thread, (device, p.issued device))])
    (hdrawn : pool.drawn = p.pool.drawn ++ [(thread, (device, p.issued device))]) :
    Ticketed
      { state := s
        pool := pool
        tickets := Function.update p.tickets device (p.tickets device ++ [p.issued device])
        issued := Function.update p.issued device (p.issued device + 1) } := by
  -- Its ticket is new: those that were issued are smaller.
  have hnew : (device, p.issued device) ∉ p.pool.drawn.map Prod.snd := by
    intro hmem
    obtain ⟨entry, hentry, heq⟩ := List.mem_map.mp hmem
    have hlt := h.fresh entry hentry
    rw [heq] at hlt
    exact Nat.lt_irrefl _ hlt
  have hnotRan : (device, p.issued device) ∉ p.pool.ran.map Prod.snd := by
    intro hmem
    obtain ⟨entry, hentry, heq⟩ := List.mem_map.mp hmem
    refine hnew (List.mem_map.mpr ⟨entry, h.pool.drawn.mem_iff.mpr ?_, heq⟩)
    exact List.mem_append_right _ (h.pool.ran_subset hentry)
  -- Device by device: the new ticket is the last of its own, and the others' stay.
  refine ⟨hsound, hclosed.trans h.running, ?_, ?_, ?_, ?_, ?_, ?_⟩
  · intro d
    by_cases hd : d = device
    · subst hd
      simp only [Function.update_self, List.length_append, List.length_singleton, h.aligned d,
        hlength]
    · simp only [Function.update_of_ne hd, h.aligned d, hothers d hd]
  · intro entry hentry
    rw [hdrawn] at hentry
    rcases List.mem_append.mp hentry with hold | hlast
    · have hlt := h.fresh entry hold
      by_cases hd : entry.2.1 = device
      · rw [hd] at hlt ⊢
        simp only [Function.update_self]
        omega
      · simp only [Function.update_of_ne hd]
        exact hlt
    · rw [List.mem_singleton.mp hlast]
      simp
  · rw [hdrawn, List.map_append, List.map_singleton, List.nodup_append]
    refine ⟨h.unique, List.nodup_singleton _, fun job hjob job' hlast heq => ?_⟩
    rw [heq, List.mem_singleton.mp hlast] at hjob
    exact hnew hjob
  · intro d ticket
    dsimp only
    rw [hdrawn, hran, List.map_append, List.map_singleton, List.mem_append, List.mem_singleton]
    by_cases hd : d = device
    · subst hd
      rw [Function.update_self, List.mem_append, List.mem_singleton, h.tickets]
      constructor
      · rintro (⟨hold, hnot⟩ | rfl)
        · exact ⟨.inl hold, hnot⟩
        · exact ⟨.inr rfl, hnotRan⟩
      · rintro ⟨hold | heq, hnot⟩
        · exact .inl ⟨hold, hnot⟩
        · exact .inr (congrArg Prod.snd heq)
    · rw [Function.update_of_ne hd, h.tickets]
      have hne : (d, ticket) ≠ (device, p.issued device) := fun heq => hd (congrArg Prod.fst heq)
      simp [hne]
  · intro d
    dsimp only
    by_cases hd : d = device
    · subst hd
      rw [Function.update_self, List.nodup_append]
      refine ⟨h.nodup d, List.nodup_singleton _, fun ticket hticket ticket' hlast heq => ?_⟩
      rw [heq, List.mem_singleton.mp hlast] at hticket
      exact hnew ((h.tickets d _).mp hticket).1
    · rw [Function.update_of_ne hd]
      exact h.nodup d
  · -- The worker was not in `submit` before.
    have hfree : ∀ entry ∈ p.pool.submitting, entry.2.1 ≠ device := by
      intro entry hentry heq
      have hany : p.inSubmit device = true :=
        List.any_eq_true.mpr ⟨entry, hentry, decide_eq_true heq⟩
      rw [hsubmit] at hany
      cases hany
    rw [hsubmitting]
    intro entry hentry entry' hentry' hsame
    rcases List.mem_append.mp hentry with hold | hlast <;>
      -- Two jobs of one device in `submit` are one, since the device had none there.
      rcases List.mem_append.mp hentry' with hold' | hlast'
    · exact h.single entry hold entry' hold' hsame
    · rw [List.mem_singleton.mp hlast'] at hsame
      exact absurd hsame (hfree entry hold)
    · rw [List.mem_singleton.mp hlast] at hsame
      exact absurd hsame.symm (hfree entry' hold')
    · rw [List.mem_singleton.mp hlast, List.mem_singleton.mp hlast']

/-- A job is delivered, and gives its ticket up. -/
theorem of_finish (h : Ticketed p) {device ticket : Nat} {s : State} {pool : Pool (Nat × Nat)}
    (hsound : pool.Sound) (hticket : ticket ∈ p.tickets device)
    (hlength : (s.fabrics device).pool
      = (p.state.fabrics device).pool.eraseIdx ((p.tickets device).idxOf ticket))
    (hothers : ∀ d, d ≠ device → s.fabrics d = p.state.fabrics d)
    (hclosed : pool.closed = p.pool.closed) (hdrawn : pool.drawn = p.pool.drawn)
    (hran : pool.ran = p.pool.ran ++ [(w, (device, ticket))])
    (hsubmitting : pool.submitting = p.pool.submitting) :
    Ticketed
      { p with
        state := s
        pool := pool
        tickets := Function.update p.tickets device
          ((p.tickets device).eraseIdx ((p.tickets device).idxOf ticket)) } := by
  have hlt : (p.tickets device).idxOf ticket < (p.tickets device).length :=
    List.idxOf_lt_length_iff.mpr hticket
  have herase : (p.tickets device).eraseIdx ((p.tickets device).idxOf ticket)
      = (p.tickets device).erase ticket := (List.erase_eq_eraseIdx_of_idxOf rfl).symm
  -- The job leaves the queue of its device and joins what ran, ticket and all.
  refine ⟨hsound, hclosed.trans h.running, ?_, by rw [hdrawn]; exact h.fresh,
    by rw [hdrawn]; exact h.unique, ?_, ?_, by rw [hsubmitting]; exact h.single⟩
  · intro d
    by_cases hd : d = device
    · subst hd
      have haligned := h.aligned d
      simp only [Function.update_self, hlength]
      rw [List.length_eraseIdx_of_lt hlt, List.length_eraseIdx_of_lt (haligned ▸ hlt), haligned]
    · simp only [Function.update_of_ne hd, hothers d hd, h.aligned d]
  · intro d ticket'
    dsimp only
    rw [hdrawn, hran, List.map_append, List.map_singleton, List.mem_append, List.mem_singleton]
    by_cases hd : d = device
    · subst hd
      rw [Function.update_self, herase, (h.nodup d).mem_erase_iff, h.tickets]
      simp only [Prod.mk.injEq, true_and, not_or, ne_eq]
      -- It was drawn and had not run, and now it has.
      tauto
    · rw [Function.update_of_ne hd, h.tickets]
      simp [hd]
  · intro d
    dsimp only
    by_cases hd : d = device
    · subst hd
      rw [Function.update_self, herase]
      exact (h.nodup d).erase ticket
    · rw [Function.update_of_ne hd]
      exact h.nodup d

/-- Every step keeps the tickets. -/
theorem step (h : Ticketed p) (hreach : (system devices).Reachable p.state)
    (hmove : PooledMoves devices p e p') : Ticketed p' := by
  cases hmove with
  | host e s hstep hjob hworker hpool =>
    refine h.of_state fun device => ?_
    have hsteps : Steps devices p.state e s := steps_of_step hstep
    rcases pool_of_steps hreach hsteps hjob device with hsame | ⟨answer, batch, rfl, hnew⟩
    · rw [hsame]
    · -- A step that is no flush leaves every queue as long as it is.
      have hle := hpool device answer rfl
      rw [hnew, List.length_append, List.length_singleton] at hle
      omega
  | batch device answer s pool hstep hsubmit hpool hdraw =>
    have hjob : ∀ d move, Event.fabric device (.worker answer) = .fabric d move →
        move.isPool = false := by
      rintro d move ⟨⟩
      rfl
    have hsteps : Steps devices p.state (.fabric device (.worker answer)) s := steps_of_step hstep
    have hpools := pool_of_steps hreach hsteps hjob
    -- A flush draws a thread for the batch it adds.
    have hsound := h.pool.step hdraw
    cases hdraw with
    | draw job hopen =>
      refine h.of_batch hsound hsubmit ?_ (fun d hd => ?_) rfl rfl rfl rfl
      · rcases hpools device with hsame | ⟨answer', batch, -, hnew⟩
        · rw [hsame] at hpool
          exact absurd hpool (Nat.lt_irrefl _)
        · rw [hnew, List.length_append, List.length_singleton]
      · rcases hpools d with hsame | ⟨answer', batch, heq, -⟩
        · rw [hsame]
        · cases heq
          exact absurd rfl hd
  | submit device i thread ticket pool hi hmove =>
    have hsound := h.pool.step hmove
    cases hmove with
    | send | lose => exact h.of_pool hsound rfl rfl rfl List.eraseIdx_subset
  | take v pool hmove =>
    have hsound := h.pool.step hmove
    cases hmove with
    | take v job channel ht => exact h.of_pool hsound rfl rfl rfl (List.Subset.refl _)
  | hash v device ticket s hrunning hstep => exact h.of_state (hash_length hstep)
  | finish v device ticket s pool hrunning hstep hmove =>
    obtain ⟨hlt, hlength, hothers⟩ := finish_pool hstep
    rw [← h.aligned] at hlt
    have hsound := h.pool.step hmove
    cases hmove with
    | finish v panics job channel ht =>
      -- The job that the thread ends is the one it was running.
      have hjob : job = (device, ticket) := by
        simp only [Pooled.running, ht, Option.bind_some, Option.some.injEq] at hrunning
        exact hrunning
      subst hjob
      exact h.of_finish hsound (List.idxOf_lt_length_iff.mp hlt) hlength hothers rfl rfl rfl rfl

end Ticketed

section
variable {devices : Devices} {threads : Nat} {p : Pooled}

/-- In every run of the pooled module the module is in a state that it reaches by itself. -/
theorem state_reach (h : (pooled devices threads).Reachable p) :
    (system devices).Reachable p.state ∧ Ticketed p := by
  refine h.invariant (I := fun p => (system devices).Reachable p.state ∧ Ticketed p) ?_ ?_
  · rintro p ⟨hinit, hpool, htickets, hissued⟩
    refine ⟨.init hinit, ?_⟩
    -- No service has a batch at the start.
    have hempty : ∀ device, (p.state.fabrics device).pool = [] := by
      intro device
      rw [hinit.1 device]
      rfl
    refine ⟨by rw [hpool]; exact .new threads, by rw [hpool]; rfl, fun device => ?_, ?_, ?_, ?_, ?_,
      ?_⟩
    · rw [htickets, hempty]
      rfl
    · rw [hpool]
      simp [Pool.new]
    · rw [hpool]
      exact List.nodup_nil
    · intro device ticket
      rw [htickets, hpool]
      simp [Pool.new]
    · intro device
      rw [htickets]
      exact List.nodup_nil
    · rw [hpool]
      simp [Pool.new]
  · rintro p e p' - hstep ⟨hreach, hticketed⟩
    have hmove := pooledMoves_of_step hstep
    refine ⟨?_, hticketed.step hreach hmove⟩
    have hnext : ∀ (e : Event) (s : State), p.state.step devices e = some s →
        (system devices).Reachable s := fun e s hs => hreach.step trivial hs
    -- A step of the pool is one of the host, or the host does not see it.
    cases hmove with
    | host e s hs | batch device answer s pool hs | hash w device ticket s hrunning hs
    | finish w device ticket s pool hrunning hs => exact hnext _ s hs
    | submit | take => exact hreach

/-- In every run of the module on its pool, the module is in a state that it reaches by itself.
Every job that was handed to the pool has been delivered, or is held by the pool, once. The jobs
that it holds for a device are those of the device's service. -/
theorem pool_holds_jobs (h : (pooled devices threads).Reachable p) :
    (system devices).Reachable p.state ∧
      (p.pool.drawn.map Prod.snd).Perm (p.pool.ran.map Prod.snd ++ p.pool.held) ∧
      (p.pool.ran.map Prod.snd ++ p.pool.held).Nodup ∧
      ∀ device, ((p.pool.held.filter fun job => job.1 = device).map Prod.snd).Perm
          (p.tickets device) ∧
        (p.tickets device).length = (p.state.fabrics device).pool.length := by
  obtain ⟨hreach, hticketed⟩ := state_reach h
  have hconserved := hticketed.pool.conserved
  have hnodup := hconserved.nodup_iff.mp hticketed.unique
  refine ⟨hreach, hconserved, hnodup, fun device => ⟨?_, hticketed.aligned device⟩⟩
  obtain ⟨-, hheld, hapart⟩ := List.nodup_append.mp hnodup
  refine (List.perm_ext_iff_of_nodup ?_ (hticketed.nodup device)).mpr fun ticket => ?_
  · refine (hheld.filter _).map_on fun job hjob job' hjob' heq => Prod.ext ?_ heq
    simp only [List.mem_filter, decide_eq_true_eq] at hjob hjob'
    exact hjob.2.trans hjob'.2.symm
  · have hmem : ticket ∈ (p.pool.held.filter fun job => job.1 = device).map Prod.snd
        ↔ (device, ticket) ∈ p.pool.held := by simp
    rw [hmem, hticketed.tickets, hconserved.mem_iff, List.mem_append]
    constructor
    · exact fun hin => ⟨.inr hin, fun hran => hapart _ hran _ hin rfl⟩
    · rintro ⟨hran | hin, hnot⟩
      · exact absurd hran hnot
      · exact hin

end

/-- The module on its pool, before its first command. -/
def pooledLoaded (threads : Nat) : Pooled := ⟨loaded, Pool.new threads, fun _ => [], fun _ => 0⟩

/-- The process starts with an idle pool. -/
theorem pooledLoaded_init (threads : Nat) :
    (pooled checkDevices threads).init (pooledLoaded threads) :=
  ⟨⟨fun _ => rfl, rfl, rfl, rfl, rfl, rfl⟩, rfl, fun _ => rfl, fun _ => rfl⟩

/-- `wholeSet` on a pool, up to the step in which a thread has hashed the job. -/
def pooledSet : List PooledEvent :=
  getsReady.map PooledEvent.host
    ++ .host (.set checkCall (commandArgs [] checkAdvertisement 9 [107] (some 0xe3069283)))
    :: ((lands.take 12).map PooledEvent.host ++ [.submit 0, .take 0, .hash 0])

/-- The rest of it. -/
def pooledReply : List PooledEvent :=
  [.finish 0, .host (.finish 0 0 true), .host (.fabric 0 (.worker .none))]

/-- A `DMA.SET` has its one job on the pool, and then none. -/
theorem run_pooledSet :
    ∃ p p' : Pooled, (pooled checkDevices 2).run (pooledLoaded 2) pooledSet = some p ∧
      p.pool.held = [(0, 0)] ∧ (pooled checkDevices 2).run p pooledReply = some p' ∧
      p'.pool.held = [] ∧ p'.state.Done 0 ∧ p'.state.commands.length = 1 := by
  obtain ⟨p₁, s₂, p, p', hready, hset, hlands, hheld, hreply, hnone, hphase, hidle, hchannel,
      hservice, hpool, hsubmitting, hfinished, hcommands⟩ :
      ∃ (p₁ : Pooled) (s₂ : State) (p p' : Pooled),
        (pooled checkDevices 2).run (pooledLoaded 2) (getsReady.map PooledEvent.host) = some p₁ ∧
        (p₁.state.dmaSet checkDevices checkCall checkAdvertisement [107] 9 (some 0xe3069283)).map
          Prod.fst = some s₂ ∧
        (pooled checkDevices 2).run { p₁ with state := s₂ }
          ((lands.take 12).map PooledEvent.host ++ [.submit 0, .take 0, .hash 0]) = some p ∧
        p.pool.held = [(0, 0)] ∧ (pooled checkDevices 2).run p pooledReply = some p' ∧
        p'.pool.held = [] ∧ (p'.state.fabrics 0).phase = .parking ∧
        (p'.state.fabrics 0).pass.idle = true ∧ (p'.state.fabrics 0).callers.channel = [] ∧
        (p'.state.fabrics 0).callers.service = .serving ∧ (p'.state.fabrics 0).pool = [] ∧
        (p'.state.fabrics 0).callers.submitting = [] ∧
        ((p'.state.fabrics 0).delivered.all fun c =>
          (0, c.callerContext.number) ∈ p'.state.finished) = true ∧
        p'.state.commands.length = 1 :=
    ⟨_, _, _, _, rfl, rfl, rfl, rfl, rfl, rfl, rfl, rfl, rfl, rfl, rfl, rfl, rfl, rfl⟩
  have hstep : (pooled checkDevices 2).step p₁
      (.host (.set checkCall (commandArgs [] checkAdvertisement 9 [107] (some 0xe3069283))))
        = some { p₁ with state := s₂ } := by
    show ((p₁.state.dmaSetCommand checkDevices checkCall _).map Prod.fst).map _ = _
    rw [dmaSetCommand_commandArgs, hset]
    rfl
  refine ⟨p, p', ?_, hheld, hreply, hnone, ?_, hcommands⟩
  · rw [pooledSet, Machine.run_append hready]
    simp only [Machine.run, hstep]
    exact hlands
  · refine ⟨.inr ⟨hphase, hidle, hchannel, by rw [hservice]; simp⟩, hpool, hsubmitting, ?_⟩
    simpa using hfinished

/-- In this run the pool holds the job that is hashed, and the service has it. -/
theorem pool_holds_jobs_set :
    ∃ p : Pooled, (pooled checkDevices 2).run (pooledLoaded 2) pooledSet = some p ∧
      p.pool.held = [(0, 0)] ∧ (p.tickets 0).length = (p.state.fabrics 0).pool.length := by
  obtain ⟨p, p', hrun, hheld, -⟩ := run_pooledSet
  obtain ⟨-, -, -, hjobs⟩ := pool_holds_jobs
    (Machine.reach_run (pooledLoaded_init 2) pooledSet hrun)
  exact ⟨p, hrun, hheld, (hjobs 0).2⟩

end Vdma.Module
