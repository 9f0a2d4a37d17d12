import Vdma.Proofs.Module.Pooled
import Mathlib.Data.Prod.Lex

/-!
# `Vdma.Proofs.Module.Turns`: how a job comes to its turn

A worker that is in `submit` can go on, and is out of it then. From there on its job is in the line
of one thread, the same one up to the job's end. `Pooled.ahead` is how far the job is from running:
the jobs before it, and what the thread's own job has yet to hash. The thread's own steps bring it
down, and nobody else changes it, since jobs that come later are behind it.
-/

set_option autoImplicit false

namespace Vdma.Module

open Vdma.Lib Vdma.Fabric

/-! ### A job in the pool -/

/-- Where an element is, once another one is taken out of the list. -/
theorem getElem?_eraseIdx_idxOf {α β : Type} [DecidableEq α] {l : List α} {m : List β} {a b : α}
    (hlength : l.length = m.length) (ha : a ∈ l) (hb : b ∈ l) (hne : a ≠ b) :
    (m.eraseIdx (l.idxOf b))[(l.eraseIdx (l.idxOf b)).idxOf a]? = m[l.idxOf a]? := by
  induction l generalizing m with
  | nil => cases ha
  | cons c l ih =>
    cases m with
    | nil => cases hlength
    | cons d m =>
      by_cases hcb : c = b
      · -- The head goes.
        subst hcb
        rw [List.idxOf_cons_self, List.idxOf_cons_ne _ (Ne.symm hne)]
        rfl
      · rw [List.idxOf_cons_ne _ hcb, List.eraseIdx_cons_succ, List.eraseIdx_cons_succ]
        by_cases hca : c = a
        · subst hca
          rw [List.idxOf_cons_self, List.idxOf_cons_self]
          rfl
        · rw [List.idxOf_cons_ne _ hca, List.idxOf_cons_ne _ hca]
          exact ih (Nat.succ.inj hlength) (List.mem_of_ne_of_mem (Ne.symm hca) ha)
            (List.mem_of_ne_of_mem (Ne.symm hcb) hb)

/-- The ops that a job has yet to hash. -/
def Pooled.batch (p : Pooled) (job : Nat × Nat) : Nat :=
  ((p.state.fabrics job.1).pool[(p.tickets job.1).idxOf job.2]?.map
    fun entry => entry.batch.length).getD 0

section
variable {devices : Devices} {threads : Nat} {p p' : Pooled} {e : PooledEvent} {w : Nat}
  {t : PoolThread (Nat × Nat)} {job : Nat × Nat}

/-- The moves of a thread. -/
def PooledEvent.isThread (w : Nat) (e : PooledEvent) : Prop :=
  e = .take w ∨ e = .hash w ∨ e = .finish w

/-- A step of a job. -/
def PooledEvent.runs (p : Pooled) (job : Nat × Nat) (e : PooledEvent) : Prop :=
  ∃ w, p.running w = some job ∧ (e = .hash w ∨ e = .finish w)

namespace Ticketed

/-- The place of a job among its device's. -/
theorem idxOf_lt (h : Ticketed p) (hticket : job.2 ∈ p.tickets job.1) :
    (p.tickets job.1).idxOf job.2 < (p.state.fabrics job.1).pool.length := by
  rw [← h.aligned]
  exact List.idxOf_lt_length_iff.mpr hticket

/-- Only the steps of a job change what it has yet to hash. -/
theorem batch_kept (h : Ticketed p) (hreach : (system devices).Reachable p.state)
    (hmove : PooledMoves devices p e p') (hticket : job.2 ∈ p.tickets job.1)
    (hruns : ¬e.runs p job) : p'.batch job = p.batch job := by
  obtain ⟨d, k⟩ := job
  have hlt := h.idxOf_lt hticket
  cases hmove with
  | host e s hstep hjob hworker hpool =>
    have hsteps : Steps devices p.state e s := steps_of_step hstep
    have hsame : (s.fabrics d).pool = (p.state.fabrics d).pool := by
      rcases pool_of_steps hreach hsteps hjob d with hsame | ⟨answer, batch, rfl, hnew⟩
      · exact hsame
      · have hle := hpool d answer rfl
        rw [hnew, List.length_append, List.length_singleton] at hle
        omega
    simp only [Pooled.batch, hsame]
  | batch device answer s pool hstep hsubmit hpool hdraw =>
    have hjob : ∀ d move, Event.fabric device (.worker answer) = .fabric d move →
        move.isPool = false := by
      rintro d move ⟨⟩
      rfl
    have hsteps : Steps devices p.state (.fabric device (.worker answer)) s := steps_of_step hstep
    -- The new job comes last.
    have htickets : (Function.update p.tickets device
        (p.tickets device ++ [p.issued device]) d).idxOf k = (p.tickets d).idxOf k := by
      by_cases hd : d = device
      · subst hd
        rw [Function.update_self, List.idxOf_append_of_mem hticket]
      · rw [Function.update_of_ne hd]
    have hkept : (s.fabrics d).pool[(p.tickets d).idxOf k]?
        = (p.state.fabrics d).pool[(p.tickets d).idxOf k]? := by
      rcases pool_of_steps hreach hsteps hjob d with hsame | ⟨answer', batch, -, hnew⟩
      · rw [hsame]
      · rw [hnew, List.getElem?_append_left hlt]
    simp only [Pooled.batch, htickets, hkept]
  | submit | take => rfl
  | hash v device ticket s hrunning hstep =>
    obtain ⟨⟨op, batch, done, done', hi, hset⟩, hothers⟩ := hash_pool hstep
    by_cases hd : d = device
    · subst hd
      have hne : (p.tickets d).idxOf ticket ≠ (p.tickets d).idxOf k := by
        intro heq
        have hmem : ticket ∈ p.tickets d := by
          rw [← List.idxOf_lt_length_iff, heq, h.aligned]
          exact hlt
        have hk := (List.idxOf_inj hmem).mp heq
        subst hk
        exact hruns ⟨v, hrunning, .inl rfl⟩
      simp only [Pooled.batch, hset, List.getElem?_set_ne hne]
    · simp only [Pooled.batch, hothers d hd]
  | finish v device ticket s pool hrunning hstep hfinish =>
    obtain ⟨hlt', hset, hothers⟩ := finish_pool hstep
    by_cases hd : d = device
    · subst hd
      have hmem : ticket ∈ p.tickets d := by
        rw [← List.idxOf_lt_length_iff, h.aligned]
        exact hlt'
      have hne : k ≠ ticket := by
        rintro rfl
        exact hruns ⟨v, hrunning, .inr rfl⟩
      simp only [Pooled.batch, hset, Function.update_self]
      rw [getElem?_eraseIdx_idxOf (h.aligned d) hticket hmem hne]
    · simp only [Pooled.batch, hothers d hd, Function.update_of_ne hd]

/-- A job that is hashed has less left to hash. -/
theorem batch_hash (hmove : PooledMoves devices p (.hash w) p')
    (hrunning : p.running w = some job) : p'.batch job < p.batch job := by
  cases hmove with
  | hash v device ticket s hrunning' hstep =>
    rw [hrunning] at hrunning'
    obtain rfl := Option.some.inj hrunning'
    obtain ⟨⟨op, batch, done, done', hi, hset⟩, -⟩ := hash_pool hstep
    have hlt := (List.getElem?_eq_some_iff.mp hi).1
    simp only [Pooled.batch, hset, hi, List.getElem?_set_self hlt, Option.map_some,
      Option.getD_some, List.length_cons]
    omega

/-- A job keeps its ticket, up to its last step. -/
theorem ticket_kept {d k : Nat} (hmove : PooledMoves devices p e p') (hticket : k ∈ p.tickets d)
    (hruns : ¬e.runs p (d, k)) : k ∈ p'.tickets d := by
  cases hmove with
  | host | submit | take | hash => exact hticket
  | batch device answer s pool hstep hsubmit hpool hdraw =>
    by_cases hd : d = device
    · subst hd
      simp only [Function.update_self]
      exact List.mem_append_left _ hticket
    · simp only [Function.update_of_ne hd]
      exact hticket
  | finish v device ticket s pool hrunning hstep hfinish =>
    by_cases hd : d = device
    · subst hd
      have hne : k ≠ ticket := by
        rintro rfl
        exact hruns ⟨v, hrunning, .inr rfl⟩
      simp only [Function.update_self]
      rw [← List.erase_eq_eraseIdx_of_idxOf rfl]
      exact (List.mem_erase_of_ne hne).mpr hticket
    · simp only [Function.update_of_ne hd]
      exact hticket

end Ticketed

/-- How far a job is from running: the jobs before it on thread `w`, and what the thread's own job
has yet to hash. -/
def Pooled.ahead (p : Pooled) (w : Nat) (job : Nat × Nat) : Nat ×ₗ Nat :=
  match p.pool.threads[w]? with
  | none => toLex (0, 0)
  | some t =>
    toLex (2 * t.line.idxOf job + (if t.running.isNone then 1 else 0),
      (t.running.map p.batch).getD 0)

/-- What is ahead of a job is its place in the line of its thread, and what is left of the job that
runs. -/
theorem ahead_eq (ht : p.pool.threads[w]? = some t) :
    p.ahead w job = toLex (2 * t.line.idxOf job + (if t.running.isNone then 1 else 0),
      (t.running.map p.batch).getD 0) := by
  simp only [Pooled.ahead, ht]

/-- A thread that keeps its job, and the place of another, is as far from that one. -/
theorem ahead_same {t' : PoolThread (Nat × Nat)} (ht : p.pool.threads[w]? = some t)
    (ht' : p'.pool.threads[w]? = some t') (hrunning : t'.running = t.running)
    (hplace : t'.line.idxOf job = t.line.idxOf job)
    (hbatch : ∀ r, t.running = some r → p'.batch r = p.batch r) :
    p'.ahead w job = p.ahead w job := by
  rw [ahead_eq ht, ahead_eq ht', hrunning, hplace]
  cases hr : t.running with
  | none => rfl
  | some r => rw [Option.map_some, Option.map_some, hbatch r hr]

namespace Ticketed

/-- The job of a thread is run by that thread only. -/
theorem not_runs (h : Ticketed p) {r : Nat × Nat} (ht : p.pool.threads[w]? = some t)
    (hr : t.running = some r) (hthread : ¬e.isThread w) : ¬e.runs p r := by
  rintro ⟨v, hrunning, he⟩
  obtain ⟨u, hu, hur⟩ := Option.bind_eq_some_iff.mp hrunning
  have hv : (v, r) ∈ p.pool.sent := h.sent_of_held hu (by simp [hur])
  have hw : (w, r) ∈ p.pool.sent := h.sent_of_held ht (by simp [hr])
  obtain rfl := h.thread_eq (List.mem_append_right _ hv) (List.mem_append_right _ hw)
  rcases he with rfl | rfl
  · exact hthread (.inr (.inl rfl))
  · exact hthread (.inr (.inr rfl))

/-- Nobody but the thread itself lets a job of its line wait longer. -/
theorem ahead_others (h : Ticketed p) (hreach : (system devices).Reachable p.state)
    (hmove : PooledMoves devices p e p') (ht : p.pool.threads[w]? = some t) (hline : job ∈ t.line)
    (hthread : ¬e.isThread w) :
    ∃ t', p'.pool.threads[w]? = some t' ∧ job ∈ t'.line ∧ p'.ahead w job = p.ahead w job := by
  have hbatch : ∀ r, t.running = some r → p'.batch r = p.batch r := fun r hr =>
    h.batch_kept hreach hmove (h.ticket_of_held ht (by simp [hr])) (h.not_runs ht hr hthread)
  -- Mostly, the thread is as it was.
  have hsame : p'.pool.threads[w]? = some t →
      ∃ t', p'.pool.threads[w]? = some t' ∧ job ∈ t'.line ∧ p'.ahead w job = p.ahead w job :=
    fun ht' => ⟨t, ht', hline, ahead_same ht ht' rfl rfl hbatch⟩
  cases hmove with
  | host | hash => exact hsame ht
  | batch device answer s pool hstep hsubmit hpool hdraw =>
    cases hdraw with
    | draw => exact hsame ht
  | submit device i thread ticket pool hi hsend =>
    cases hsend with
    | send i v job' u hi hu hlive =>
      by_cases hv : v = w
      · subst hv
        rw [ht] at hu
        obtain rfl := Option.some.inj hu
        have hlonger : ({ t with channel := t.channel ++ [job'] } : PoolThread _).line
            = t.line ++ [job'] := (List.append_assoc ..).symm
        have ht' := List.getElem?_set_self (a := { t with channel := t.channel ++ [job'] })
          (List.getElem?_eq_some_iff.mp ht).1
        refine ⟨_, ht', ?_, ahead_same ht ht' rfl ?_ hbatch⟩
        · rw [hlonger]
          exact List.mem_append_left _ hline
        · rw [hlonger, List.idxOf_append_of_mem hline]
      · exact hsame ((List.getElem?_set_ne hv).trans ht)
    | lose => exact hsame ht
  | take v pool htake =>
    have hv : v ≠ w := by
      rintro rfl
      exact hthread (.inl rfl)
    cases htake with
    | take => exact hsame ((List.getElem?_set_ne hv).trans ht)
  | finish v device ticket s pool hrunning hstep hfinish =>
    have hv : v ≠ w := by
      rintro rfl
      exact hthread (.inr (.inr rfl))
    cases hfinish with
    | finish => exact hsame ((List.getElem?_set_ne hv).trans ht)

/-- The thread gets nearer to a job of its line, up to that job's first step. -/
theorem ahead_thread (hmove : PooledMoves devices p e p') (ht : p.pool.threads[w]? = some t)
    (hline : job ∈ t.line) (hthread : e.isThread w) (hruns : ¬e.runs p job) :
    ∃ t', p'.pool.threads[w]? = some t' ∧ job ∈ t'.line ∧ p'.ahead w job < p.ahead w job := by
  have hlt := (List.getElem?_eq_some_iff.mp ht).1
  rcases hthread with rfl | rfl | rfl
  · cases hmove with
    | take v pool htake =>
      cases htake with
      | take v job' channel hu =>
        rw [ht] at hu
        obtain rfl := Option.some.inj hu
        have ht' := List.getElem?_set_self (a := (⟨channel, some job', false⟩ : PoolThread _)) hlt
        refine ⟨_, ht', hline, ?_⟩
        rw [ahead_eq ht, ahead_eq (p := { p with pool := _ }) ht', Prod.Lex.toLex_lt_toLex]
        exact .inl (Nat.lt_succ_self _)
  · cases hmove with
    | hash v device ticket s hrunning hstep =>
      have hr : t.running = some (device, ticket) := by
        simpa only [Pooled.running, ht, Option.bind_some] using hrunning
      refine ⟨t, ht, hline, ?_⟩
      rw [ahead_eq ht, ahead_eq (p := { p with state := s }) ht, Prod.Lex.toLex_lt_toLex]
      refine .inr ⟨rfl, ?_⟩
      simp only [hr, Option.map_some, Option.getD_some]
      exact batch_hash (.hash w device ticket s hrunning hstep) hrunning
  · cases hmove with
    | finish v device ticket s pool hrunning hstep hfinish =>
      cases hfinish with
      | finish v panics job' channel hu =>
        rw [ht] at hu
        obtain rfl := Option.some.inj hu
        -- The job that ends is another one.
        have hne : job' ≠ job := by
          rintro rfl
          exact hruns ⟨w, by simp only [Pooled.running, ht, Option.bind_some], .inr rfl⟩
        have ht' := List.getElem?_set_self (a := (⟨channel, none, false⟩ : PoolThread _)) hlt
        refine ⟨_, ht', ?_, ?_⟩
        · exact List.mem_of_ne_of_mem (Ne.symm hne) hline
        · rw [ahead_eq ht, ahead_eq (p := { p with state := s, pool := _, tickets := _ }) ht',
            Prod.Lex.toLex_lt_toLex]
          left
          have hplace : (PoolThread.line ⟨channel, some job', false⟩).idxOf job
              = channel.idxOf job + 1 := List.idxOf_cons_ne _ hne
          have hplace' : (PoolThread.line ⟨channel, none, false⟩).idxOf job = channel.idxOf job :=
            rfl
          rw [hplace, hplace']
          simp
          omega

/-- A thread with something in its line can move. -/
theorem canMove (h : Ticketed p) (ht : p.pool.threads[w]? = some t) (hline : job ∈ t.line) :
    (pooled devices threads).CanMove (PooledEvent.isThread w) p := by
  obtain ⟨channel, running, ended⟩ := t
  have hlive : ended = false := by
    by_contra hended
    obtain ⟨-, hchannel, hrunning⟩ :=
      h.pool.ended _ (List.mem_of_getElem? ht) (Bool.not_eq_false _ ▸ hended)
    simp only at hchannel hrunning
    subst hchannel hrunning
    cases hline
  subst hlive
  cases running with
  | none =>
    cases channel with
    | nil => cases hline
    | cons job' channel =>
      refine ⟨.take w, .inl rfl, ?_⟩
      show ((p.pool.take w).map _).isSome = true
      simp only [Pool.take, ht, Option.map_some, Option.isSome_some]
  | some r =>
    obtain ⟨device, ticket⟩ := r
    have hrunning : p.running w = some (device, ticket) := by
      simp only [Pooled.running, ht, Option.bind_some]
    have hplace := h.idxOf_lt (h.ticket_of_held ht
      (show (device, ticket) ∈ (some (device, ticket)).toList ++ channel by simp))
    have hi := List.getElem?_eq_getElem hplace
    rcases hentry : (p.state.fabrics device).pool[(p.tickets device).idxOf ticket] with
      ⟨batch, done⟩
    rw [hentry] at hi
    cases batch with
    | nil =>
      refine ⟨.finish w, .inr (.inr rfl), ?_⟩
      show (p.stepFinish devices w).isSome = true
      simp [Pooled.stepFinish, hrunning, State.step, isOwn, Fabric.State.step,
        Fabric.State.stepFinish, hi, Pool.finish, ht]
    | cons op batch =>
      refine ⟨.hash w, .inr (.inl rfl), ?_⟩
      show (p.stepHash devices w).isSome = true
      simp [Pooled.stepHash, hrunning, State.step, isOwn, Fabric.State.step,
        Fabric.State.stepHash, hi]

end Ticketed
end

/-! ### Submission -/

section
variable {devices : Devices} {threads : Nat} {p p' : Pooled} {e : PooledEvent} {device : Nat}

/-- The entry of a worker that is in `submit`. -/
theorem inSubmit_iff :
    p.inSubmit device = true ↔ ∃ entry ∈ p.pool.submitting, entry.2.1 = device := by
  simp [Pooled.inSubmit, List.any_eq_true]

namespace Ticketed

/-- A worker that is in `submit` can send. -/
theorem submit_enabled (h : Ticketed p) (hsubmit : p.inSubmit device = true) :
    (pooled devices threads).Enabled p (.submit device) := by
  show (p.stepSubmit device).isSome = true
  obtain ⟨i, hindex⟩ := Option.isSome_iff_exists.mp (List.findIdx?_isSome.trans hsubmit)
  obtain ⟨hlt, -⟩ := List.findIdx?_eq_some_iff_getElem.mp hindex
  have hthread : p.pool.submitting[i].1 < p.pool.threads.length :=
    h.pool.within _ (List.mem_append_left _ (List.mem_append_left _ (List.getElem_mem hlt)))
  simp only [Pooled.stepSubmit, hindex, Pool.send, List.getElem?_eq_getElem hlt,
    List.getElem?_eq_getElem hthread, Option.isSome_map]
  split <;> rfl

/-- A worker that has sent its job is no longer in `submit`. -/
theorem submit_frees (h : Ticketed p) (hmove : PooledMoves devices p (.submit device) p') :
    p'.inSubmit device = false := by
  rw [Bool.eq_false_iff, Ne, inSubmit_iff]
  rintro ⟨entry, hentry, hdevice⟩
  have hnodup : p.pool.submitting.Nodup := by
    have hperm := (h.pool.drawn.map Prod.snd).nodup_iff.mp h.unique
    rw [List.map_append, List.nodup_append] at hperm
    exact hperm.1.of_map _
  cases hmove with
  | submit device i thread ticket pool hi hsend =>
    have hrest : entry ∈ p.pool.submitting.eraseIdx i := by
      cases hsend with
      | send | lose => exact hentry
    obtain ⟨j, hne, hj⟩ := List.mem_eraseIdx_iff_getElem?.mp hrest
    have hsame := h.single entry (List.mem_of_getElem? hj) _ (List.mem_of_getElem? hi) hdevice
    rw [hsame, ← hi] at hj
    exact hne ((List.getElem?_inj (List.getElem?_eq_some_iff.mp hi).1 hnodup).mp hj.symm).symm

end Ticketed

/-- Only its own steps bring a worker into `submit`. -/
theorem inSubmit_kept (hmove : PooledMoves devices p e p') (hfree : p.inSubmit device = false)
    (hworker : ∀ answer, e ≠ .host (.fabric device (.worker answer))) :
    p'.inSubmit device = false := by
  have hsubset : p'.pool.submitting ⊆ p.pool.submitting → p'.inSubmit device = false := by
    intro hsubset
    rw [Bool.eq_false_iff, Ne, inSubmit_iff] at hfree ⊢
    exact fun ⟨entry, hentry, hdevice⟩ => hfree ⟨entry, hsubset hentry, hdevice⟩
  cases hmove with
  | host | hash => exact hfree
  | batch d answer s pool hstep hsubmit hpool hdraw =>
    cases hdraw with
    | draw =>
      have hd : d ≠ device := by
        rintro rfl
        exact hworker answer rfl
      simp only [Pooled.inSubmit, List.any_append, List.any_cons, List.any_nil, hd, Bool.or_false,
        decide_false]
      exact hfree
  | submit d i thread ticket pool hi hsend =>
    cases hsend with
    | send | lose => exact hsubset List.eraseIdx_subset
  | take w pool htake =>
    cases htake with
    | take => exact hfree
  | finish w d ticket s pool hrunning hstep hfinish =>
    cases hfinish with
    | finish => exact hfree

/-- A worker that is not in `submit` moves as in the module. -/
theorem worker_enabled (h : Ticketed p) {answer : Answer} (hfree : p.inSubmit device = false)
    (henabled : (system devices).Enabled p.state (.fabric device (.worker answer))) :
    (pooled devices threads).Enabled p (.host (.fabric device (.worker answer))) := by
  obtain ⟨s, hs⟩ := Option.isSome_iff_exists.mp henabled
  have hstep : p.state.step devices (.fabric device (.worker answer)) = some s := hs
  show (p.stepWorker devices device answer).isSome = true
  simp only [Pooled.stepWorker, hfree, Bool.false_eq_true, if_false, hstep]
  split
  · simp [Pool.draw, h.running]
  · rfl

/-- A job that nobody is about to send is in the line of a thread. -/
theorem Ticketed.exists_line (h : Ticketed p) {ticket : Nat} (hticket : ticket ∈ p.tickets device)
    (hfree : p.inSubmit device = false) :
    ∃ (w : Nat) (t : PoolThread (Nat × Nat)),
      p.pool.threads[w]? = some t ∧ (device, ticket) ∈ t.line := by
  obtain ⟨hdrawn, hran⟩ := (h.tickets device ticket).mp hticket
  obtain ⟨⟨w, job⟩, hentry, heq⟩ := List.mem_map.mp hdrawn
  obtain rfl : job = (device, ticket) := heq
  have hsent : (w, (device, ticket)) ∈ p.pool.sent := by
    rcases List.mem_append.mp (h.pool.drawn.mem_iff.mp hentry) with hsubmit | hsent
    · exact absurd (inSubmit_iff.mpr ⟨_, hsubmit, rfl⟩) (Bool.eq_false_iff.mp hfree)
    · exact hsent
  have hw : w < p.pool.threads.length :=
    h.pool.within _ (List.mem_append_left _ (List.mem_append_right _ hsent))
  have ht := List.getElem?_eq_getElem hw
  have hmem := mem_onThread.mpr hsent
  rw [h.pool.turns w _ ht, List.append_assoc] at hmem
  rcases List.mem_append.mp hmem with hold | hline
  · exact absurd (List.mem_map_of_mem (f := Prod.snd) (mem_onThread.mp hold)) hran
  · exact ⟨w, _, ht, hline⟩

/-- Every step of a line brings the job nearer, or leaves it where it is. -/
theorem Ticketed.ahead_step (h : Ticketed p) (hreach : (system devices).Reachable p.state)
    {w : Nat} {t : PoolThread (Nat × Nat)} {job : Nat × Nat}
    (hmove : PooledMoves devices p e p') (ht : p.pool.threads[w]? = some t) (hline : job ∈ t.line)
    (hruns : ¬e.runs p job) :
    (∃ t', p'.pool.threads[w]? = some t' ∧ job ∈ t'.line) ∧
      (e.isThread w → p'.ahead w job < p.ahead w job) ∧
      (¬e.isThread w → p'.ahead w job ≤ p.ahead w job) := by
  by_cases hthread : e.isThread w
  · obtain ⟨t', ht', hline', hless⟩ := ahead_thread hmove ht hline hthread hruns
    exact ⟨⟨t', ht', hline'⟩, fun _ => hless, fun hnot => absurd hthread hnot⟩
  · obtain ⟨t', ht', hline', hsame⟩ := h.ahead_others hreach hmove ht hline hthread
    exact ⟨⟨t', ht', hline'⟩, fun hin => absurd hin hthread, fun _ => hsame.le⟩

end

end Vdma.Module
