import Mathlib.Data.Int.CardIntervalMod
import Mathlib.Order.Filter.AtTopBot.Basic
import Mathlib.Order.Filter.Finite
import Vdma.Fabric.Pool
import Vdma.Lib.Fairness

/-!
# `Vdma.Proofs.Pool`: each job runs once, in its turn

`onThread` picks the jobs of one thread out of a history. `Sound` is the law of the pool: of the
jobs that a thread was sent, in order, a first part has ended, then comes the one that is running,
then those in the channel. So none is lost, none runs twice, and none overtakes another of its
thread. The numbers that are drawn go round, so the threads get equally many jobs, to within one.

`drains` is what `drop` waits for: when nothing more is drawn, every job comes to its end, and the
threads of a closed pool end.
-/

set_option autoImplicit false

namespace Vdma.Fabric

open Vdma.Lib

variable {J : Type}

/-- The jobs of one thread. -/
def onThread (thread : Nat) (jobs : List (Nat × J)) : List J :=
  (jobs.filter fun entry => entry.1 = thread).map Prod.snd

/-- In an empty list no thread has a job. -/
@[simp] theorem onThread_nil (thread : Nat) : onThread thread ([] : List (Nat × J)) = [] := rfl

/-- The jobs of a thread come in the order of the list. -/
@[simp] theorem onThread_append (thread : Nat) (jobs jobs' : List (Nat × J)) :
    onThread thread (jobs ++ jobs') = onThread thread jobs ++ onThread thread jobs' := by
  simp [onThread]

/-- A job is for its thread only. -/
theorem onThread_singleton (thread number : Nat) (job : J) :
    onThread thread [(number, job)] = if number = thread then [job] else [] := by
  by_cases h : number = thread <;> simp [onThread, h]

/-- The jobs of a thread are those that name it. -/
theorem mem_onThread {thread : Nat} {job : J} {jobs : List (Nat × J)} :
    job ∈ onThread thread jobs ↔ (thread, job) ∈ jobs := by
  rw [onThread, List.mem_map]
  constructor
  · rintro ⟨⟨number, job'⟩, hentry, rfl⟩
    obtain ⟨hmem, hnumber⟩ := List.mem_filter.mp hentry
    rwa [← show number = thread from of_decide_eq_true hnumber]
  · exact fun hmem => ⟨(thread, job), List.mem_filter.mpr ⟨hmem, decide_eq_true rfl⟩, rfl⟩

/-- Two histories with the same jobs on each thread have the same jobs. -/
theorem perm_of_onThread {jobs jobs' : List (Nat × J)}
    (h : ∀ thread, onThread thread jobs = onThread thread jobs') : jobs.Perm jobs' := by
  classical
  have hcount : ∀ (l : List (Nat × J)) (thread : Nat) (job : J),
      l.count (thread, job) = (onThread thread l).count job := by
    intro l thread job
    induction l with
    | nil => rfl
    | cons entry l ih =>
      obtain ⟨number, job'⟩ := entry
      rw [List.count_cons, ih, ← List.singleton_append (x := (number, job')), onThread_append,
        onThread_singleton, List.count_append]
      by_cases hnumber : number = thread
      · simp [hnumber, List.count_singleton, Nat.add_comm]
      · simp [hnumber]
  rw [List.perm_iff_count]
  intro entry
  rw [hcount, hcount, h]

/-- What a thread has to run: its job, and the jobs of its channel. -/
def PoolThread.line (t : PoolThread J) : List J := t.running.toList ++ t.channel

/-- The jobs that a pool holds: those in `submit`, and those that its threads have to run. -/
def Pool.held (p : Pool J) : List J :=
  p.submitting.map Prod.snd ++ p.threads.flatMap PoolThread.line

/-- The jobs of the threads from number `n` on, each with its number. -/
def lines (n : Nat) : List (PoolThread J) → List (Nat × J)
  | [] => []
  | t :: threads => t.line.map (fun job => (n, job)) ++ lines (n + 1) threads

/-- Without their threads the lines are one after the other. -/
theorem map_snd_lines (n : Nat) (threads : List (PoolThread J)) :
    (lines n threads).map Prod.snd = threads.flatMap PoolThread.line := by
  induction threads generalizing n with
  | nil => rfl
  | cons t threads ih =>
    rw [lines, List.map_append, ih, List.flatMap_cons, List.map_map]
    congr 1
    exact List.map_id _

/-- All the jobs of a line are for its thread. -/
theorem onThread_map (w n : Nat) (jobs : List J) :
    onThread w (jobs.map fun job => (n, job)) = if n = w then jobs else [] := by
  induction jobs with
  | nil => simp
  | cons job jobs ih =>
    rw [List.map_cons, ← List.singleton_append, onThread_append, onThread_singleton, ih]
    split <;> rfl

/-- The line of a thread is what is in front of that thread. -/
theorem onThread_lines (n w : Nat) (threads : List (PoolThread J)) :
    onThread w (lines n threads)
      = if n ≤ w then (threads[w - n]?.map PoolThread.line).getD [] else [] := by
  induction threads generalizing n with
  | nil => simp [lines]
  | cons t threads ih =>
    rw [lines, onThread_append, onThread_map, ih]
    rcases Nat.lt_trichotomy n w with hlt | rfl | hgt
    · rw [if_neg (Nat.ne_of_lt hlt), if_pos (show n + 1 ≤ w from hlt), if_pos (Nat.le_of_lt hlt),
        show w - n = w - (n + 1) + 1 by omega, List.getElem?_cons_succ, List.nil_append]
    · simp
    · rw [if_neg (Nat.ne_of_gt hgt), if_neg (by omega), if_neg (by omega), List.nil_append]

/-! ### Moves -/

/-- What a move does. -/
inductive Pool.Moves (p : Pool J) : PoolMove J → Pool J → Prop
  | draw (job : J) (hopen : p.closed = false) :
      Moves p (.draw job)
        { p with
          next := (p.next + 1) % addressSpace
          submitting := p.submitting ++ [(p.next % p.threads.length, job)]
          drawn := p.drawn ++ [(p.next % p.threads.length, job)] }
  | send (i w : Nat) (job : J) (t : PoolThread J) (hi : p.submitting[i]? = some (w, job))
      (ht : p.threads[w]? = some t) (hlive : t.ended = false) :
      Moves p (.send i)
        { p with
          submitting := p.submitting.eraseIdx i
          threads := p.threads.set w { t with channel := t.channel ++ [job] }
          sent := p.sent ++ [(w, job)] }
  | lose (i w : Nat) (job : J) (t : PoolThread J) (hi : p.submitting[i]? = some (w, job))
      (ht : p.threads[w]? = some t) (hended : t.ended = true) :
      Moves p (.send i)
        { p with submitting := p.submitting.eraseIdx i, lost := p.lost ++ [job] }
  | take (w : Nat) (job : J) (channel : List J)
      (ht : p.threads[w]? = some ⟨job :: channel, none, false⟩) :
      Moves p (.take w) { p with threads := p.threads.set w ⟨channel, some job, false⟩ }
  | finish (w : Nat) (panics : Bool) (job : J) (channel : List J)
      (ht : p.threads[w]? = some ⟨channel, some job, false⟩) :
      Moves p (.finish w panics)
        { p with
          threads := p.threads.set w ⟨channel, none, false⟩
          ran := p.ran ++ [(w, job)] }
  | close (hopen : p.closed = false) (hsubmitting : p.submitting = []) :
      Moves p .close { p with closed := true }
  | leave (w : Nat) (hclosed : p.closed = true) (ht : p.threads[w]? = some ⟨[], none, false⟩) :
      Moves p (.leave w) { p with threads := p.threads.set w ⟨[], none, true⟩ }

/-- Every step of the pool is a move. -/
theorem Pool.moves_of_step {p p' : Pool J} {move : PoolMove J} (h : p.step move = some p') :
    p.Moves move p' := by
  cases move with
  | draw job =>
    simp only [Pool.step, Pool.draw] at h
    split at h
    · cases h
    · next hopen =>
      cases h
      exact .draw job (Bool.eq_false_iff.mpr hopen)
  -- A thread that has ended takes no job: the channel is gone, and the job is lost.
  | send i =>
    simp only [Pool.step, Pool.send] at h
    split at h
    · cases h
    · next w job hi =>
      split at h
      · cases h
      · next t ht =>
        split at h
        · next hended =>
          cases h
          exact .lose i w job t hi ht hended
        · next hlive =>
          cases h
          exact .send i w job t hi ht (Bool.eq_false_iff.mpr hlive)
  | take w =>
    simp only [Pool.step, Pool.take] at h
    split at h
    · next job channel ht =>
      cases h
      exact .take w job channel ht
    · cases h
  | finish w panics =>
    simp only [Pool.step, Pool.finish] at h
    split at h
    · next channel job ht =>
      cases h
      exact .finish w panics job channel ht
    · cases h
  | close =>
    simp only [Pool.step, Pool.close] at h
    split at h
    · next hopen hsubmitting =>
      cases h
      exact .close hopen hsubmitting
    · cases h
  | leave w =>
    simp only [Pool.step, Pool.leave] at h
    split at h
    · next hclosed ht =>
      cases h
      exact .leave w hclosed ht
    · cases h

/-! ### The law -/

/-- What a pool keeps. -/
structure Pool.Sound (p : Pool J) : Prop where
  positive : 0 < p.threads.length
  turns : ∀ (w : Nat) (t : PoolThread J), p.threads[w]? = some t →
    onThread w p.sent = onThread w p.ran ++ t.running.toList ++ t.channel
  within : ∀ entry ∈ p.submitting ++ p.sent ++ p.ran, entry.1 < p.threads.length
  drawn : p.drawn.Perm (p.submitting ++ p.sent)
  rotates : p.drawn.map Prod.fst
    = (List.range p.drawn.length).map fun k => k % addressSpace % p.threads.length
  next : p.next = p.drawn.length % addressSpace
  ended : ∀ t ∈ p.threads, t.ended = true → p.closed = true ∧ t.channel = [] ∧ t.running = none
  closed : p.closed = true → p.submitting = []
  lost : p.lost = []

namespace Pool.Sound

variable {p p' : Pool J} {w : Nat} {t t' : PoolThread J}

/-- A new pool has nothing in it. -/
theorem new (threads : Nat) : (Pool.new threads : Pool J).Sound where
  positive := by simp [Pool.new]
  turns w t h := by
    have ht := List.eq_of_mem_replicate (List.mem_of_getElem? h)
    rw [ht]
    rfl
  within entry h := by simp [Pool.new] at h
  drawn := .nil
  rotates := rfl
  next := rfl
  ended t h hended := by
    rw [List.eq_of_mem_replicate h] at hended
    cases hended
  closed h := by cases h
  lost := rfl

/-- One thread moves, and the jobs of the others are as they were. -/
theorem turns_set (h : p.Sound) {sent ran : List (Nat × J)} (ht : p.threads[w]? = some t)
    (hw : onThread w sent = onThread w ran ++ t'.running.toList ++ t'.channel)
    (hothers : ∀ v, v ≠ w → onThread v sent = onThread v p.sent ∧ onThread v ran = onThread v p.ran)
    (v : Nat) (u : PoolThread J) (hu : (p.threads.set w t')[v]? = some u) :
    onThread v sent = onThread v ran ++ u.running.toList ++ u.channel := by
  by_cases hv : v = w
  · subst hv
    rw [List.getElem?_set_self (List.getElem?_eq_some_iff.mp ht).1] at hu
    cases hu
    exact hw
  · rw [List.getElem?_set_ne (Ne.symm hv)] at hu
    rw [(hothers v hv).1, (hothers v hv).2]
    exact h.turns v u hu

/-- A thread that moves without ending leaves those that have ended. -/
theorem ended_set (h : p.Sound) (ht' : t'.ended = false) (u : PoolThread J)
    (hu : u ∈ p.threads.set w t') (hended : u.ended = true) :
    p.closed = true ∧ u.channel = [] ∧ u.running = none := by
  rcases List.mem_or_eq_of_mem_set hu with hold | rfl
  · exact h.ended u hold hended
  · rw [ht'] at hended
    cases hended

/-- The jobs of a thread that is sent none, and ends none, are as they were. -/
theorem onThread_append_other {jobs : List (Nat × J)} {job : J} {v : Nat} (hv : v ≠ w) :
    onThread v (jobs ++ [(w, job)]) = onThread v jobs := by
  rw [onThread_append, onThread_singleton, if_neg (Ne.symm hv), List.append_nil]

/-- A job that comes last is last for its thread. -/
theorem onThread_append_self {jobs : List (Nat × J)} {job : J} :
    onThread w (jobs ++ [(w, job)]) = onThread w jobs ++ [job] := by
  rw [onThread_append, onThread_singleton, if_pos rfl]

/-- Every move keeps the law. -/
theorem step {move : PoolMove J} (h : p.Sound) (hmove : p.Moves move p') : p'.Sound := by
  cases hmove with
  | draw job hopen =>
    have hlength := h.positive
    refine ⟨h.positive, h.turns, ?_, ?_, ?_, ?_, h.ended, ?_, h.lost⟩
    · intro entry hentry
      simp only [List.mem_append, List.mem_singleton] at hentry
      rcases hentry with ((hold | rfl) | hold) | hold
      · exact h.within entry (by simp [hold])
      · exact Nat.mod_lt _ hlength
      · exact h.within entry (by simp [hold])
      · exact h.within entry (by simp [hold])
    · -- What is drawn is yet to be sent.
      refine (h.drawn.append_right _).trans ?_
      rw [List.append_assoc, List.append_assoc]
      exact List.perm_append_comm.append_left _
    · rw [List.map_append, h.rotates, List.length_append, List.length_singleton, List.range_succ,
        List.map_append, List.map_singleton, List.map_singleton, h.next]
    · show (p.next + 1) % addressSpace = (p.drawn ++ _).length % addressSpace
      rw [h.next, List.length_append, List.length_singleton, Nat.mod_add_mod]
    · intro hclosed
      rw [show p.closed = true from hclosed] at hopen
      cases hopen
  | send i w job t hi ht hlive =>
    have hperm := List.getElem_cons_eraseIdx_perm (List.getElem?_eq_some_iff.mp hi).1
    rw [(List.getElem?_eq_some_iff.mp hi).2] at hperm
    refine ⟨by simpa using h.positive, ?_, ?_, ?_, by simpa using h.rotates, h.next, ?_, ?_,
      h.lost⟩
    · refine h.turns_set ht ?_ fun v hv => ⟨onThread_append_other hv, rfl⟩
      rw [onThread_append_self, h.turns w t ht, List.append_assoc]
    · intro entry hentry
      simp only [List.length_set, List.mem_append, List.mem_singleton] at hentry ⊢
      rcases hentry with (hold | hold | rfl) | hold
      · exact h.within entry (by simp [List.mem_of_mem_eraseIdx hold])
      · exact h.within entry (by simp [hold])
      · exact h.within _ (by simp [List.mem_of_getElem? hi])
      · exact h.within entry (by simp [hold])
    · refine h.drawn.trans ((hperm.symm.append_right _).trans ?_)
      rw [← List.append_assoc]
      exact (List.perm_append_singleton (w, job) _).symm
    · exact fun u hu hended => h.ended_set (by exact hlive) u hu hended
    · intro hclosed
      rw [h.closed hclosed] at hi
      cases hi
  | lose i w job t hi ht hended =>
    -- A thread ends only once nobody is left in `submit`.
    rw [h.closed (h.ended t (List.mem_of_getElem? ht) hended).1] at hi
    cases hi
  | take w job channel ht =>
    refine ⟨by simpa using h.positive, ?_, by simpa using h.within, h.drawn,
      by simpa using h.rotates, h.next, ?_, h.closed, h.lost⟩
    · refine h.turns_set ht ?_ fun v hv => ⟨rfl, rfl⟩
      simpa using h.turns w _ ht
    · exact fun u hu hended => h.ended_set rfl u hu hended
  | finish w panics job channel ht =>
    refine ⟨by simpa using h.positive, ?_, ?_, h.drawn, by simpa using h.rotates, h.next, ?_,
      h.closed, h.lost⟩
    · refine h.turns_set ht ?_ fun v hv => ⟨rfl, onThread_append_other hv⟩
      rw [onThread_append_self]
      simpa using h.turns w _ ht
    · intro entry hentry
      simp only [List.length_set, List.mem_append, List.mem_singleton] at hentry ⊢
      rcases hentry with (hold | hold) | hold | rfl
      · exact h.within entry (by simp [hold])
      · exact h.within entry (by simp [hold])
      · exact h.within entry (by simp [hold])
      · exact (List.getElem?_eq_some_iff.mp ht).1
    · exact fun u hu hended => h.ended_set rfl u hu hended
  | close hopen hsubmitting =>
    refine ⟨h.positive, h.turns, h.within, h.drawn, h.rotates, h.next, fun u hu hended => ?_,
      fun _ => hsubmitting, h.lost⟩
    exact ⟨rfl, (h.ended u hu hended).2⟩
  | leave w hclosed ht =>
    refine ⟨by simpa using h.positive, ?_, by simpa using h.within, h.drawn,
      by simpa using h.rotates, h.next, fun u hu hended => ?_, h.closed, h.lost⟩
    · refine h.turns_set ht ?_ fun v hv => ⟨rfl, rfl⟩
      simpa using h.turns w _ ht
    · rcases List.mem_or_eq_of_mem_set hu with hold | rfl
      · exact h.ended u hold hended
      · exact ⟨hclosed, rfl, rfl⟩

/-- What has run was sent. -/
theorem ran_subset (h : p.Sound) : p.ran ⊆ p.sent := by
  rintro ⟨w, job⟩ hmem
  have hw : w < p.threads.length := h.within (w, job) (by simp [hmem])
  refine mem_onThread.mp ?_
  rw [h.turns w _ (List.getElem?_eq_getElem hw), List.append_assoc]
  exact List.mem_append_left _ (mem_onThread.mpr hmem)

/-- No jobs are on a thread that there is not. -/
theorem onThread_eq_nil (h : p.Sound) (hw : p.threads.length ≤ w) :
    onThread w p.sent = [] ∧ onThread w p.ran = [] := by
  have hnone : ∀ jobs : List (Nat × J), (∀ entry ∈ jobs, entry.1 < p.threads.length) →
      onThread w jobs = [] := by
    intro jobs hjobs
    rw [onThread, List.map_eq_nil_iff, List.filter_eq_nil_iff]
    intro entry hentry heq
    have hlt := hjobs entry hentry
    rw [of_decide_eq_true heq] at hlt
    omega
  exact ⟨hnone _ fun entry hentry => h.within entry (by simp [hentry]),
    hnone _ fun entry hentry => h.within entry (by simp [hentry])⟩

/-- Every job that was submitted has ended, or is held. -/
theorem conserved (h : p.Sound) :
    (p.drawn.map Prod.snd).Perm (p.ran.map Prod.snd ++ p.held) := by
  have hsent : p.sent.Perm (p.ran ++ lines 0 p.threads) := by
    refine perm_of_onThread fun w => ?_
    have hlines := onThread_lines 0 w p.threads
    rw [if_pos (Nat.zero_le w), Nat.sub_zero] at hlines
    rw [onThread_append, hlines]
    by_cases hw : w < p.threads.length
    · rw [h.turns w _ (List.getElem?_eq_getElem hw), List.getElem?_eq_getElem hw,
        List.append_assoc]
      rfl
    · have hw := Nat.le_of_not_lt hw
      rw [(h.onThread_eq_nil hw).1, (h.onThread_eq_nil hw).2, List.getElem?_eq_none hw]
      rfl
  have hdrawn := (h.drawn.trans (hsent.append_left _)).map Prod.snd
  rw [List.map_append, List.map_append, map_snd_lines] at hdrawn
  refine hdrawn.trans ?_
  rw [Pool.held, ← List.append_assoc, ← List.append_assoc]
  exact List.perm_append_comm.append_right _

/-- When no thread has anything left, and nobody is in `submit`, every job has run. -/
theorem all_ran (h : p.Sound) (hsubmitting : p.submitting = [])
    (hidle : ∀ t ∈ p.threads, t.channel = [] ∧ t.running = none) : p.ran.Perm p.drawn := by
  have hsent : p.ran.Perm p.sent := by
    refine perm_of_onThread fun w => ?_
    by_cases hw : w < p.threads.length
    · have ht := List.getElem?_eq_getElem hw
      obtain ⟨hchannel, hrunning⟩ := hidle _ (List.getElem_mem hw)
      rw [h.turns w _ ht, hchannel, hrunning]
      simp
    · obtain ⟨hsent, hran⟩ := h.onThread_eq_nil (Nat.le_of_not_lt hw)
      rw [hsent, hran]
  refine hsent.trans ?_
  have hdrawn := h.drawn
  rw [hsubmitting, List.nil_append] at hdrawn
  exact hdrawn.symm

/-- The threads are drawn in turn. -/
theorem balanced (h : p.Sound)
    (hwrap : p.drawn.length ≤ addressSpace ∨ p.threads.length ∣ addressSpace) {v : Nat}
    (hv : v < p.threads.length) :
    (p.drawn.map Prod.fst).count v = p.drawn.length / p.threads.length
      + if v < p.drawn.length % p.threads.length then 1 else 0 := by
  have hturn : ∀ k, k < p.drawn.length →
      k % addressSpace % p.threads.length = k % p.threads.length := by
    intro k hk
    rcases hwrap with hshort | hdvd
    · rw [Nat.mod_eq_of_lt (Nat.lt_of_lt_of_le hk hshort)]
    · exact Nat.mod_mod_of_dvd k hdvd
  have hcount := Nat.count_modEq_card p.drawn.length h.positive v
  rw [Nat.mod_eq_of_lt hv] at hcount
  rw [← hcount, h.rotates, List.count, List.countP_map, Nat.count]
  refine List.countP_congr fun k hk => ?_
  rw [List.mem_range] at hk
  simp only [Function.comp_apply, hturn k hk, beq_iff_eq, decide_eq_true_eq, Nat.ModEq,
    Nat.mod_eq_of_lt hv]

end Pool.Sound

section
variable {threads : Nat} {p : Pool J}

/-- The law holds in every run. -/
theorem sound_reach (h : (threadPool J threads).Reachable p) : p.Sound := by
  refine h.invariant (I := Pool.Sound) ?_ ?_
  · rintro _ rfl
    exact .new threads
  · intro p move p' _ hstep hsound
    exact hsound.step (Pool.moves_of_step hstep)

/-- In every run of the pool, whatever is submitted and whichever jobs panic: each thread runs the
jobs it was sent in their order, and none is lost. Once the threads have ended, every submitted job
has run, once. The numbers of jobs of two threads are never more than one apart, while `next` has
not wrapped, or if the number of threads divides its range. -/
theorem each_job_runs_once (h : (threadPool J threads).Reachable p) :
    (∀ (w : Nat) (t : PoolThread J), p.threads[w]? = some t →
      onThread w p.sent = onThread w p.ran ++ t.running.toList ++ t.channel) ∧
    p.drawn.Perm (p.submitting ++ p.sent) ∧ p.lost = [] ∧ (p.Joined → p.ran.Perm p.drawn) ∧
    (p.drawn.length ≤ addressSpace ∨ p.threads.length ∣ addressSpace →
      ∀ v w, v < p.threads.length → w < p.threads.length →
        (p.drawn.map Prod.fst).count v ≤ (p.drawn.map Prod.fst).count w + 1) := by
  have hsound := sound_reach h
  refine ⟨hsound.turns, hsound.drawn, hsound.lost, fun hjoined => ?_, ?_⟩
  · have hclosed : p.closed = true :=
      (hsound.ended _ (List.getElem_mem hsound.positive) (hjoined _ (List.getElem_mem _))).1
    exact hsound.all_ran (hsound.closed hclosed) fun t ht =>
      (hsound.ended t ht (hjoined t ht)).2
  · intro hwrap v w hv hw
    rw [hsound.balanced hwrap hv, hsound.balanced hwrap hw]
    split <;> split <;> omega

end

/-- Two threads. One job of the first panics, and the next one of its channel runs all the same. -/
def panicked : List (PoolMove Nat) :=
  [.draw 10, .draw 11, .send 0, .draw 12, .send 0, .send 0, .take 0, .finish 0 true, .take 0,
    .take 1, .finish 0 false, .finish 1 false, .close, .leave 1, .leave 0]

/-- In this run one job panics, and the others of its thread still run. -/
theorem each_job_runs_once_panicked :
    ∃ p : Pool Nat, (threadPool Nat 2).run (Pool.new 2) panicked = some p ∧
      onThread 0 p.ran = [10, 12] ∧ p.ran.Perm p.drawn := by
  obtain ⟨p, hrun, hran, hjoined⟩ : ∃ p : Pool Nat,
      (threadPool Nat 2).run (Pool.new 2) panicked = some p ∧
      onThread 0 p.ran = [10, 12] ∧ p.threads.all PoolThread.ended = true :=
    ⟨_, rfl, rfl, rfl⟩
  obtain ⟨-, -, -, hall, -⟩ := each_job_runs_once (Machine.reach_run rfl panicked hrun)
  exact ⟨p, hrun, hran, hall fun t ht => List.all_eq_true.mp hjoined t ht⟩

/-! ### Executions -/

/-- The moves of a thread. -/
def PoolMove.isThread (w : Nat) : PoolMove J → Prop
  | .take v => v = w
  | .finish v _ => v = w
  | .leave v => v = w
  | _ => False

/-- Those in `submit` go on, and so does each thread. A job ends in time. -/
structure PoolFair {threads : Nat} (x : (threadPool J threads).Execution) : Prop where
  send : x.FairTo fun move => ∃ i, move = .send i
  thread : ∀ w, x.FairTo (PoolMove.isThread w)

/-- What a thread has left to do. -/
def PoolThread.left (t : PoolThread J) : Nat :=
  2 * t.channel.length + (if t.running.isSome then 1 else 0) + if t.ended then 0 else 1

/-- What thread `w` has left to do. -/
def Pool.left (p : Pool J) (w : Nat) : Nat := (p.threads[w]?.map PoolThread.left).getD 0

/-- Thread `w` has nothing to do, and has ended if it should. -/
def Pool.Idle (p : Pool J) (closed : Bool) (w : Nat) : Prop :=
  ∀ t, p.threads[w]? = some t →
    t.channel = [] ∧ t.running = none ∧ (closed = true → t.ended = true)

section
variable {p p' : Pool J} {move : PoolMove J} {w : Nat}

/-- Without a draw, only sends change who is in `submit`. -/
theorem Pool.submitting_step (hmove : p.Moves move p') (hdraw : ∀ job, move ≠ .draw job) :
    ((∃ i, move = .send i) → p'.submitting.length < p.submitting.length) ∧
      ((¬∃ i, move = .send i) → p'.submitting = p.submitting) := by
  cases hmove with
  | draw job hopen => exact absurd rfl (hdraw job)
  | send i v job t hi | lose i v job t hi =>
    refine ⟨fun _ => ?_, fun hnot => absurd ⟨i, rfl⟩ hnot⟩
    have hlt := (List.getElem?_eq_some_iff.mp hi).1
    show (p.submitting.eraseIdx i).length < _
    rw [List.length_eraseIdx_of_lt hlt]
    omega
  | take | finish | close | leave => exact ⟨by simp, fun _ => rfl⟩

/-- A closed pool stays closed, and keeps its threads. -/
theorem Pool.kept_step (hmove : p.Moves move p') :
    p'.threads.length = p.threads.length ∧ (p.closed = true → p'.closed = true) := by
  cases hmove with
  | close => exact ⟨rfl, fun _ => rfl⟩
  | draw | lose => exact ⟨rfl, id⟩
  | send | take | finish | leave => exact ⟨List.length_set, id⟩

/-- With nobody in `submit`, a thread has less and less left. -/
theorem Pool.left_step (hmove : p.Moves move p') (hsubmitting : p.submitting = []) :
    (move.isThread w → p'.left w < p.left w) ∧ (¬move.isThread w → p'.left w = p.left w) := by
  -- A thread that moves is the one asked about, or another.
  have hset : ∀ (v : Nat) (t t' : PoolThread J), p.threads[v]? = some t → t'.left < t.left →
      p'.threads = p.threads.set v t' →
      (v = w → p'.left w < p.left w) ∧ (¬v = w → p'.left w = p.left w) := by
    intro v t t' ht hless hthreads
    refine ⟨fun hv => ?_, fun hv => ?_⟩
    · subst hv
      simp only [Pool.left, hthreads, ht,
        List.getElem?_set_self (List.getElem?_eq_some_iff.mp ht).1, Option.map_some,
        Option.getD_some]
      exact hless
    · simp only [Pool.left, hthreads, List.getElem?_set_ne hv]
  cases hmove with
  | draw job hopen | close hopen hnobody => exact ⟨fun h => h.elim, fun _ => rfl⟩
  | send i v job t hi | lose i v job t hi =>
    rw [hsubmitting] at hi
    cases hi
  | take v job channel ht =>
    refine hset v _ _ ht ?_ rfl
    simp [PoolThread.left]
    omega
  | finish v panics job channel ht =>
    refine hset v _ _ ht ?_ rfl
    simp [PoolThread.left]
  | leave v hclosed ht =>
    refine hset v _ _ ht ?_ rfl
    simp [PoolThread.left]

/-- A thread that cannot move has nothing to do. -/
theorem Pool.idle_of_stuck {threads : Nat} (h : p.Sound)
    (hstuck : ¬(threadPool J threads).CanMove (PoolMove.isThread w) p) : p.Idle p.closed w := by
  intro t ht
  -- Of a live thread nothing may be left to do: no job running, none waiting, and no closed
  -- channel to leave for.
  by_cases hended : t.ended = true
  · obtain ⟨-, hchannel, hrunning⟩ := h.ended t (List.mem_of_getElem? ht) hended
    exact ⟨hchannel, hrunning, fun _ => hended⟩
  obtain ⟨channel, running, ended⟩ := t
  rw [Bool.not_eq_true] at hended
  dsimp only at hended
  subst hended
  cases running with
  | some job =>
    refine absurd ⟨.finish w false, rfl, ?_⟩ hstuck
    show (p.finish w false).isSome = true
    simp [Pool.finish, ht]
  | none =>
    cases channel with
    | cons job channel =>
      refine absurd ⟨.take w, rfl, ?_⟩ hstuck
      show (p.take w).isSome = true
      simp [Pool.take, ht]
    | nil =>
      refine ⟨rfl, rfl, fun hclosed => absurd ⟨.leave w, rfl, ?_⟩ hstuck⟩
      show (p.leave w).isSome = true
      simp [Pool.leave, ht, hclosed]

/-- A thread with nothing to do stays so, with nobody in `submit`. -/
theorem Pool.Idle.step {closed : Bool} (h : p.Idle closed w) (hmove : p.Moves move p')
    (hsubmitting : p.submitting = []) : p'.Idle closed w := by
  -- A move changes one thread; if it is this one, it stays idle.
  have hset : ∀ (v : Nat) (t t' : PoolThread J), p.threads[v]? = some t →
      (v = w → t'.channel = [] ∧ t'.running = none ∧ (closed = true → t'.ended = true)) →
      p'.threads = p.threads.set v t' → p'.Idle closed w := by
    intro v t t' ht hidle hthreads u hu
    rw [hthreads] at hu
    by_cases hv : v = w
    · subst hv
      rw [List.getElem?_set_self (List.getElem?_eq_some_iff.mp ht).1] at hu
      cases hu
      exact hidle rfl
    · rw [List.getElem?_set_ne hv] at hu
      exact h u hu
  cases hmove with
  | draw job hopen | close hopen hnobody => exact h
  -- Nobody is submitting, so nothing is sent.
  | send i v job t hi | lose i v job t hi =>
    rw [hsubmitting] at hi
    cases hi
  -- An idle thread has no job to take, and none to finish.
  | take v job channel ht =>
    refine hset v _ _ ht (fun hv => ?_) rfl
    subst hv
    cases (h _ ht).1
  | finish v panics job channel ht =>
    refine hset v _ _ ht (fun hv => ?_) rfl
    subst hv
    cases (h _ ht).2.1
  | leave v hclosed ht =>
    refine hset v _ _ ht (fun hv => ?_) rfl
    exact ⟨rfl, rfl, fun _ => rfl⟩

end

section
variable {threads : Nat} {x : (threadPool J threads).Execution} {n : Nat}

/-- Nobody who is in `submit` is kept there. -/
theorem Pool.submitting_of_stuck {p : Pool J} (h : p.Sound)
    (hstuck : ¬(threadPool J threads).CanMove (fun move => ∃ i, move = .send i) p) :
    p.submitting = [] := by
  by_contra hsubmitting
  obtain ⟨⟨w, job⟩, rest, hcons⟩ := List.exists_cons_of_ne_nil hsubmitting
  have hw : w < p.threads.length := h.within (w, job) (by simp [hcons])
  refine hstuck ⟨.send 0, ⟨0, rfl⟩, ?_⟩
  show (p.send 0).isSome = true
  simp only [Pool.send, hcons, List.getElem?_cons_zero, List.getElem?_eq_getElem hw]
  split <;> rfl

/-- Those in `submit` send in time. -/
theorem PoolFair.sends (hfair : PoolFair x)
    (hdone : ∀ m job, n ≤ m → x.label m ≠ some (.draw job)) :
    ∃ N, n ≤ N ∧ ∀ k, N ≤ k → (x.state k).submitting = [] := by
  have hsteps : ∀ m move, n ≤ m → x.label m = some move → _ ∧ _ := fun m move hm hlabel =>
    Pool.submitting_step (Pool.moves_of_step (x.steps m move hlabel)) fun job hdraw =>
      hdone m job hm (hdraw ▸ hlabel)
  obtain ⟨N, hN, hstuck⟩ := x.runs_out hfair.send (fun p => p.submitting.length)
    (fun m move hm hnot hlabel => (congrArg List.length ((hsteps m move hm hlabel).2 hnot)).le)
    (fun m move hm hsend hlabel => (hsteps m move hm hlabel).1 hsend)
  refine ⟨N, hN, fun k hk => ?_⟩
  refine x.stays (P := fun p => p.submitting = [])
    (Pool.submitting_of_stuck (sound_reach (x.reachable N)) hstuck)
    (fun m move hm hlabel hnil => ?_) hk
  obtain ⟨hsend, hkept⟩ := hsteps m move (by omega) hlabel
  refine (hkept fun hmove => ?_).trans hnil
  have hless := hsend hmove
  rw [hnil] at hless
  cases hless

/-- In time a thread has nothing left to do. -/
theorem PoolFair.idles (hfair : PoolFair x) {closed : Bool}
    (hclosed : closed = true → (x.state n).closed = true)
    (hsubmitting : ∀ k, n ≤ k → (x.state k).submitting = []) (w : Nat) :
    ∃ N, ∀ k, N ≤ k → (x.state k).Idle closed w := by
  have hstays : ∀ k, n ≤ k → closed = true → (x.state k).closed = true := by
    intro k hk h
    refine x.stays (P := fun p => p.closed = true) (hclosed h) (fun m move _ hlabel => ?_) hk
    exact (Pool.kept_step (Pool.moves_of_step (x.steps m move hlabel))).2
  obtain ⟨N, hN, hstuck⟩ := x.runs_out (hfair.thread w) (fun p => p.left w)
    (fun m move hm hnot hlabel => ((Pool.left_step (Pool.moves_of_step (x.steps m move hlabel))
      (hsubmitting m hm)).2 hnot).le)
    (fun m move hm hmoves hlabel => (Pool.left_step (Pool.moves_of_step (x.steps m move hlabel))
      (hsubmitting m hm)).1 hmoves)
  refine ⟨N, fun k hk => ?_⟩
  refine x.stays (P := fun p => p.Idle closed w) ?_ (fun m move hm hlabel hidle => ?_) hk
  · intro t ht
    obtain ⟨hchannel, hrunning, hends⟩ :=
      Pool.idle_of_stuck (sound_reach (x.reachable N)) hstuck t ht
    exact ⟨hchannel, hrunning, fun h => hends (hstays N hN h)⟩
  · exact hidle.step (Pool.moves_of_step (x.steps m move hlabel)) (hsubmitting m (by omega))

/-- In a fair execution, once nothing more is submitted, every submitted job comes to run, once.
If the pool was closed by then, its threads end, so that `drop` returns. -/
theorem pool_drains (hfair : PoolFair x) (hdone : ∀ m job, n ≤ m → x.label m ≠ some (.draw job)) :
    ∃ N, n ≤ N ∧ ∀ k, N ≤ k → (x.state k).ran.Perm (x.state k).drawn ∧
      ((x.state n).closed = true → (x.state k).Joined) := by
  obtain ⟨N₁, hN₁, hsubmitting⟩ := hfair.sends hdone
  have hclosed : (x.state n).closed = true → (x.state N₁).closed = true := by
    intro h
    refine x.stays (P := fun p => p.closed = true) h (fun m move _ hlabel => ?_) hN₁
    exact (Pool.kept_step (Pool.moves_of_step (x.steps m move hlabel))).2
  have hlength : ∀ k, (x.state k).threads.length = (x.state 0).threads.length := by
    intro k
    refine x.stays (P := fun p => p.threads.length = (x.state 0).threads.length) rfl
      (fun m move _ hlabel hsame => ?_) (Nat.zero_le k)
    exact (Pool.kept_step (Pool.moves_of_step (x.steps m move hlabel))).1.trans hsame
  -- The threads are finitely many.
  have hidle : ∀ᶠ k in Filter.atTop, ∀ w ∈ Finset.range (x.state 0).threads.length,
      (x.state k).Idle (x.state n).closed w := by
    rw [Filter.eventually_all_finset]
    exact fun w _ => Filter.eventually_atTop.mpr (hfair.idles hclosed hsubmitting w)
  obtain ⟨N, hN⟩ := Filter.eventually_atTop.mp hidle
  refine ⟨max N₁ N, by omega, fun k hk => ?_⟩
  have hthread : ∀ t ∈ (x.state k).threads, t.channel = [] ∧ t.running = none ∧
      ((x.state n).closed = true → t.ended = true) := by
    intro t ht
    obtain ⟨w, hw⟩ := List.getElem?_of_mem ht
    have hlt := (List.getElem?_eq_some_iff.mp hw).1
    rw [hlength] at hlt
    exact hN k (by omega) w (Finset.mem_range.mpr hlt) t hw
  refine ⟨(sound_reach (x.reachable k)).all_ran (hsubmitting k (by omega)) fun t ht => ?_,
    fun h t ht => (hthread t ht).2.2 h⟩
  exact ⟨(hthread t ht).1, (hthread t ht).2.1⟩

end

/-- The same run, from its last submission on. -/
theorem pool_drains_panicked :
    ∃ (x : (threadPool Nat 2).Execution) (k : Nat), (x.state k).drawn.length = 3 ∧
      (x.state k).ran.Perm (x.state k).drawn ∧ (x.state k).Joined := by
  obtain ⟨p, hrun, hsubmitting, hthreads, hclosed, hdrawn⟩ : ∃ p : Pool Nat,
      (threadPool Nat 2).run (Pool.new 2) panicked = some p ∧ p.submitting = [] ∧
      p.threads = [⟨[], none, true⟩, ⟨[], none, true⟩] ∧ p.closed = true ∧ p.drawn.length = 3 :=
    ⟨_, rfl, rfl, rfl, rfl, rfl⟩
  let x := Machine.Execution.ofRun (M := threadPool Nat 2) rfl hrun
  have hfair : PoolFair x := by
    refine ⟨Machine.Execution.fairTo_ofRun rfl hrun ?_, fun w =>
      Machine.Execution.fairTo_ofRun rfl hrun ?_⟩
    · -- Nobody submits after the run.
      rintro ⟨_, ⟨i, rfl⟩, henabled⟩
      change (p.send i).isSome = true at henabled
      simp [Pool.send, hsubmitting] at henabled
    · -- The threads have ended.
      have hended : ∀ t, p.threads[w]? = some t → t = ⟨[], none, true⟩ := by
        intro t ht
        have hmem := List.mem_of_getElem? ht
        rw [hthreads] at hmem
        simpa using hmem
      rintro ⟨move, hmove, henabled⟩
      obtain ⟨p', hp'⟩ := Option.isSome_iff_exists.mp henabled
      cases Pool.moves_of_step hp' with
      | draw | send | lose | close => exact hmove
      | take v job channel ht | finish v panics job channel ht | leave v hopen ht =>
        cases (show v = w from hmove)
        cases hended _ ht
  have hend : ∀ k, panicked.length ≤ k → x.state k = p := fun k hk =>
    Machine.Execution.after_end hrun hk
  -- No job is drawn after the run.
  have hdone : ∀ m job, panicked.length ≤ m → x.label m ≠ some (.draw job) := by
    intro m job hm hlabel
    rw [show x.label m = none from List.getElem?_eq_none hm] at hlabel
    cases hlabel
  obtain ⟨N, hN, hdrains⟩ := pool_drains hfair hdone
  obtain ⟨hran, hjoined⟩ := hdrains N (Nat.le_refl N)
  rw [hend _ (Nat.le_refl _)] at hjoined
  refine ⟨x, N, ?_, hran, hjoined hclosed⟩
  rw [hend N hN]
  exact hdrawn

end Vdma.Fabric
