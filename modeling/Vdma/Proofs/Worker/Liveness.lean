import Mathlib.Data.Prod.Lex
import Vdma.Proofs.Worker.Progress
import Vdma.Proofs.Worker.Peers

/-!
# `Vdma.Proofs.Worker.Liveness`: what was sent is delivered

No single move of a run has to happen, so what is sent is delivered only in an execution that is
fair to the worker and to the pool, in which the provider reports what it was given, and in which
the clock runs on. `Live` has these assumptions, and that the callers are done.

`State.rank` is the work that is left. Nobody but a caller raises it, so from some time on it stays
as it is. A move that keeps it `Idles`: no message is taken, nothing is posted, reaped or completed,
and an attempt can only be refused again. Two ranks show that the worker cannot go on like that:

* While something is on the wire, each pass reaps. `State.afterReap` tells whether this one has.
* With nothing on the wire a pass attempts whatever is queued, and a refusal that comes a deadline
  after the first is no idle move. `State.behind` tells whether a pass has left something out.

So the worker blocks in `recv` with an empty channel, has exited, or has only its clone of the
pool to drop. The last waits for the pool where nobody else holds it, and meanwhile the pool runs
dry.
-/

set_option autoImplicit false

namespace Vdma.Fabric

open Vdma.Lib

variable {T : Type}

/-! ### The work that is left -/

/-- A first refusal takes one off what an entry of a queue stands for. -/
def Prepared.work (prepared : Prepared) : Nat :=
  match prepared.stalledSince with
  | none => 3
  | some _ => 2

def Quiescing.work (waiting : Quiescing T) : Nat :=
  match waiting.stalledSince with
  | none => 7
  | some _ => 6

/-- A box behind its pointer, and its quiesce read if that is to come. -/
def InFlight.work (op : InFlight T) : Nat :=
  match op.quiesce with
  | none => 3
  | some _ => 8

def Phase.work : Phase T → Nat
  | .operand prepared _ _ => prepared.work
  | .failing _ _ => 1
  | .quiesceOperand waiting _ _ => waiting.work
  | .failingQuiesce _ _ => 3
  | _ => 0

/-- The times of first refusals that an entry in hand keeps. -/
def Phase.stall : Phase T → List (Option Nat)
  | .operand prepared _ _ => [prepared.stalledSince]
  | .quiesceOperand waiting _ _ => [waiting.stalledSince]
  | _ => []

/-- A pending entry stands for two or three. -/
theorem Prepared.work_le (prepared : Prepared) : 2 ≤ prepared.work ∧ prepared.work ≤ 3 := by
  unfold Prepared.work
  split <;> omega

/-- A waiting write stands for six or seven. -/
theorem Quiescing.work_le (waiting : Quiescing T) : 6 ≤ waiting.work ∧ waiting.work ≤ 7 := by
  unfold Quiescing.work
  split <;> omega

/-- A box stands for three to eight. -/
theorem InFlight.work_le (op : InFlight T) : 3 ≤ op.work ∧ op.work ≤ 8 := by
  unfold InFlight.work
  split <;> omega

/-- Posting a transfer keeps whether it has a quiesce read to come. -/
theorem work_posted (op : InFlight T) (prepared : Prepared) (lease : Option Nat) :
    (State.posted op prepared lease).work = op.work := by
  unfold State.posted InFlight.work
  cases op.quiesce <;> rfl

namespace State

/-- What is left to do for each message, transfer and op, by where it is. -/
def work (s : State T) : Nat :=
  12 * s.callers.channel.length + Assoc.weight InFlight.work s.queues.raw
    + (s.queues.pending.map Prepared.work).sum + s.wire.posts.length
    + (s.queues.quiescing.map Quiescing.work).sum + s.queues.crcPending.length
    + s.queues.completions.length + s.phase.work

/-- The work that is left, and below it the passes that may yet be spun for more completions. -/
def rank (s : State T) : Nat := 11 * s.work + (10 - s.pass.drainSpins)

/-- The times of first refusals that are kept. -/
def stalls (s : State T) : List (Option Nat) :=
  s.queues.pending.map Prepared.stalledSince ++ s.queues.quiescing.map Quiescing.stalledSince
    ++ s.phase.stall

/-- Whether this pass has reaped. -/
def afterReap (s : State T) : Nat :=
  match s.phase with
  | .dispatching => 1
  | .quiescing => 1
  | .quiesceOperand _ _ _ => 1
  | .failingQuiesce _ _ => 1
  | .flushing => 1
  | .completing => 1
  | .parking => 1
  | _ => 0

/-- Whether this pass has left something out that it could have attempted, with nothing on the
wire. -/
def behind (s : State T) : Nat :=
  match s.phase with
  | .posting => if s.queues.pending = [] ∨ 0 < s.pass.attempts then 0 else 1
  | .reaping => if s.queues.pending = [] then 0 else 1
  | .dispatching => if s.queues.pending = [] then 0 else 1
  | .quiescing =>
    if s.queues.pending = [] ∧ (s.queues.quiescing = [] ∨ 0 < s.pass.attempts) then 0 else 1
  | .flushing => if s.queues.pending = [] ∧ s.queues.quiescing = [] then 0 else 1
  | .completing => if s.pass.idle then 0 else 1
  | .parking => if s.pass.idle then 0 else 1
  | _ => 0

/-- An attempt is refused, before the deadline of an entry that was refused before is up. -/
def RefusedAgain (setup : Setup) (s : State T) (m : Move T) : Prop :=
  ∃ code first now since, m = .worker (.rma code first now) ∧ some since ∈ s.stalls ∧
    now - since < setup.configuration.progressDeadline

end State

/-- A move that does none of the work. -/
structure Idles (setup : Setup) (s : State T) (m : Move T) (s' : State T) : Prop where
  rank : s'.rank = s.rank
  posts : s'.wire.posts = s.wire.posts
  channel : s'.callers.channel = s.callers.channel
  stalls : ∀ since, some since ∈ s'.stalls → some since ∈ s.stalls
  reaps : s.phase ≠ .reaping → s'.afterReap ≤ s.afterReap
  attempts : s.RefusedAgain setup m ∨ (s.wire.posts = [] → s'.behind ≤ s.behind)
  restarts : s.Restarts s' → s.behind = 1

namespace Idles

variable {setup : Setup} {s s' : State T} {m : Move T}

/-- A move that leaves the worker alone. -/
theorem of_others (hphase : s'.phase = s.phase) (hcallers : s'.callers.channel = s.callers.channel)
    (hqueues : s'.queues = s.queues) (hpass : s'.pass = s.pass) (hwire : s'.wire = s.wire) :
    Idles setup s m s' where
  rank := by simp only [State.rank, State.work, hphase, hcallers, hqueues, hpass, hwire]
  posts := by rw [hwire]
  channel := hcallers
  stalls since h := by simpa only [State.stalls, hphase, hqueues] using h
  reaps _ := by simp only [State.afterReap, hphase, le_refl]
  attempts := .inr fun _ => by simp only [State.behind, hphase, hqueues, hpass, le_refl]
  restarts h := by
    obtain ⟨hend, hhead⟩ := h
    rw [hphase] at hhead
    cases hp : s.phase with
    | intake =>
      rw [hp] at hend
      cases hend
    | _ =>
      rw [hp] at hhead
      cases hhead

/-- A move within a pass, from one phase of the worker to another. -/
theorem within (hhead : s'.phase.atHead = false ∨ s.phase.atEnd = false)
    (hrank : s'.rank = s.rank) (hposts : s'.wire.posts = s.wire.posts)
    (hchannel : s'.callers.channel = s.callers.channel)
    (hstalls : ∀ since, some since ∈ s'.stalls → some since ∈ s.stalls)
    (hreaps : s.phase ≠ .reaping → s'.afterReap ≤ s.afterReap)
    (hattempts : s.RefusedAgain setup m ∨ (s.wire.posts = [] → s'.behind ≤ s.behind)) :
    Idles setup s m s' where
  rank := hrank
  posts := hposts
  channel := hchannel
  stalls := hstalls
  reaps := hreaps
  attempts := hattempts
  restarts h := by
    rcases hhead with hhead | hend
    · exact absurd h.2 (by rw [hhead]; exact Bool.false_ne_true)
    · exact absurd h.1 (by rw [hend]; exact Bool.false_ne_true)

/-- A change of phase starts another spin, or does no work. -/
theorem of_turn {phase : Phase T} {pass : Pass} (hs : Settled s)
    (hcap : 0 < inFlightCap setup.device setup.configuration.maxInFlight)
    (hturn : Turn setup s phase pass) :
    ({ s with phase := phase, pass := pass } : State T).rank < s.rank ∨
      Idles setup s m { s with phase := phase, pass := pass } := by
  have hinFlight := hs.inFlight
  cases hturn with
  | spin h hspins =>
    refine .inl ?_
    simp only [State.rank, State.work, h, Phase.work]
    omega
  | again h hidle =>
    refine .inr ⟨?_, rfl, rfl, ?_, fun _ => ?_, .inr fun _ => ?_, fun _ => ?_⟩
    · simp only [State.rank, State.work, h, Phase.work]
    · simp only [State.stalls, h, Phase.stall, imp_self, implies_true]
    · exact Nat.zero_le _
    · exact Nat.zero_le _
    · simp only [State.behind, h, hidle, Bool.false_eq_true, if_false]
  | begin h | giveUp h | exit h hidle hend =>
    refine .inr (.within (.inl rfl) ?_ rfl rfl ?_ (fun _ => Nat.zero_le _)
      (.inr fun _ => Nat.zero_le _))
    · simp only [State.rank, State.work, h, Phase.work]
    · simp only [State.stalls, h, Phase.stall, imp_self, implies_true]
  | startPosting h hchannel disconnected hdisconnected =>
    refine .inr (.within (.inl rfl) ?_ rfl rfl ?_ (fun _ => Nat.zero_le _) (.inr fun _ => ?_))
    · simp only [State.rank, State.work, h, Phase.work]
    · simp only [State.stalls, h, Phase.stall, imp_self, implies_true]
    · -- The pass has an attempt for each entry.
      simp only [State.behind, h, List.length_pos_iff, ne_eq, em, if_true, le_refl]
  | leavePosting h attempts hleave =>
    refine .inr (.within (.inl rfl) ?_ rfl rfl ?_ (fun _ => Nat.zero_le _) (.inr fun hposts => ?_))
    · simp only [State.rank, State.work, h, Phase.work]
    · simp only [State.stalls, h, Phase.stall, imp_self, implies_true]
    · -- With nothing on the wire there is room for an attempt.
      rw [hposts, List.length_nil] at hinFlight
      have hnone := hleave (by rw [hinFlight]; exact hcap)
      simp only [State.behind, h]
      split
      · exact Nat.zero_le _
      · next hpending => rw [if_neg (not_or.mpr ⟨hpending, fun hpos => hpending (hnone hpos)⟩)]
  | leaveDispatching h hreaped =>
    refine .inr (.within (.inl rfl) ?_ rfl rfl ?_ (fun _ => ?_) (.inr fun _ => ?_))
    · simp only [State.rank, State.work, h, Phase.work]
    · simp only [State.stalls, h, Phase.stall, imp_self, implies_true]
    · simp only [State.afterReap, h, le_refl]
    · simp only [State.behind, h, List.length_pos_iff, ne_eq, em, and_true, le_refl]
  | leaveQuiescing h attempts hleave =>
    refine .inr (.within (.inl rfl) ?_ rfl rfl ?_ (fun _ => ?_) (.inr fun _ => ?_))
    · simp only [State.rank, State.work, h, Phase.work]
    · simp only [State.stalls, h, Phase.stall, imp_self, implies_true]
    · simp only [State.afterReap, h, le_refl]
    · simp only [State.behind, h]
      split
      · exact Nat.zero_le _
      · next hleft =>
        rw [if_neg fun hnone => hleft ⟨hnone.1, hnone.2.elim id hleave⟩]
  | skipFlush h hflush =>
    refine .inr (.within (.inl rfl) ?_ rfl rfl ?_ (fun _ => ?_) (.inr fun hposts => ?_))
    · simp only [State.rank, State.work, h, Phase.work]
    · simp only [State.stalls, h, Phase.stall, imp_self, implies_true]
    · simp only [State.afterReap, h, le_refl]
    · rw [hposts, List.length_nil] at hinFlight
      simp only [State.behind, h, isIdle_iff, hinFlight, and_true, le_refl]
  | park h hcompletions =>
    refine .inr (.within (.inl rfl) ?_ rfl rfl ?_ (fun _ => ?_) (.inr fun _ => ?_))
    · simp only [State.rank, State.work, h, Phase.work]
    · simp only [State.stalls, h, Phase.stall, imp_self, implies_true]
    · simp only [State.afterReap, h, le_refl]
    · simp only [State.behind, h, le_refl]

end Idles

/-! ### Nobody but a caller raises the rank -/

section
variable {setup : Setup} {s s' : State T} {m : Move T}

/-- There is room for an op at least. -/
theorem inFlightCap_pos (device : Device) (configured : Option Nat) :
    0 < inFlightCap device configured := by
  unfold inFlightCap
  dsimp only
  split
  · omega
  · next hne => exact lt_min (by omega) (Nat.pos_of_ne_zero hne)

/-- The worker has nothing in hand when it takes a message. -/
theorem Takes.work (h : Takes s) : s.phase.work = 0 := by
  cases h with
  | intake h => rw [h]; rfl
  | parking h hidle => rw [h]; rfl

/-- Less work is a lower rank, wherever the spins stand. -/
theorem rank_lt_of_work (h : s'.work < s.work) : s'.rank < s.rank := by
  simp only [State.rank]
  omega

/-- Taking an empty batch leaves libfabric what it has. -/
theorem Wire.posts_of_take_nil {w w' : Wire} (h : w.take [] = some w') : w'.posts = w.posts := by
  cases h
  rfl

/-- What is taken from the channel weighs more than what it becomes. -/
theorem rank_lt_of_takes {number : Nat} {message : WorkerMessage (Tagged T)}
    {channel : List (Nat × WorkerMessage (Tagged T))} (htakes : Takes s)
    (hchannel : s.callers.channel = (number, message) :: channel)
    (hchannel' : s'.callers.channel = channel) (hwire : s'.wire = s.wire)
    (hqueues : s'.queues = s.queues) (hwork : s'.phase.work = 0) : s'.rank < s.rank := by
  refine rank_lt_of_work ?_
  simp only [State.work, hchannel, hchannel', hwire, hqueues, hwork, htakes.work, List.length_cons]
  omega

variable [Operands T]

/-- The startup and a pin for a message do none of the work. -/
theorem idles_of_pinning (hmove : MovesIn setup s .pinning m s') : Idles setup s m s' := by
  cases hmove with
  | pinnedQuiesce base limit result phase hphase hnext =>
    rcases hnext with rfl | rfl
    all_goals
      refine .within (.inl rfl) ?_ rfl rfl ?_ (fun _ => Nat.zero_le _)
        (.inr fun _ => Nat.zero_le _)
      · simp only [State.rank, State.work, hphase, Phase.work]
      · simp only [State.stalls, hphase, Phase.stall, imp_self, implies_true]
  | _ =>
    refine .within (.inr (by rw [‹s.phase = _›]; rfl)) ?_ rfl rfl ?_
      (fun _ => Nat.zero_le _) (.inr fun _ => Nat.zero_le _)
    · simp only [State.rank, State.work, ‹s.phase = _›, Phase.work, State.answered]
    · simp only [State.stalls, ‹s.phase = _›, Phase.stall, State.answered, imp_self, implies_true]

/-- What is taken from the channel weighs more than what it becomes. -/
theorem rank_lt_of_intake (ho : Owned s) (hmove : MovesIn setup s .intake m s') :
    s'.rank < s.rank := by
  cases hmove with
  | accept number request channel op prepared htakes hchannel hprepare =>
    -- The box is new behind its pointer.
    obtain ⟨-, -, -, hcontext, -, -⟩ := prepare_ok hprepare
    have hnone := ho.lookup_of_channel hchannel
    rw [← hcontext] at hnone
    have hop := op.work_le
    have hprepared := prepared.work_le
    refine rank_lt_of_work ?_
    simp only [State.work, State.popped, hchannel, Phase.work, List.length_cons,
      Assoc.weight_insert_of_none hnone, List.map_append, List.sum_append, List.map_cons,
      List.map_nil, List.sum_cons, List.sum_nil]
    omega
  | refuse number request channel completion htakes hchannel hprepare =>
    refine rank_lt_of_work ?_
    simp only [State.work, State.popped, hchannel, Phase.work, List.length_cons,
      List.length_append, List.length_nil]
    omega
  | addPeer number client address inserted entry channel books htakes hchannel hinsert
  | addPeerFails number client address inserted error channel books htakes hchannel hinsert
  | removePeer number client channel htakes hchannel
  | pinMessage number base length channel htakes hchannel hlocal
  | nothingToPin number base length channel htakes hchannel =>
    exact rank_lt_of_takes htakes hchannel rfl rfl rfl rfl

/-- An attempt posts, fails, or is refused, and only a refusal of an entry that was refused before
is no progress. -/
theorem rank_lt_or_idles_of_posting (hmove : MovesIn setup s .posting m s') :
    s'.rank < s.rank ∨ Idles setup s m s' := by
  cases hmove with
  | posted prepared entry operand now op hphase hclock hraw =>
    -- The entry leaves the hand for the wire: a post, and a box behind its context.
    have hweight := Assoc.weight_insert_of_some hraw InFlight.work
      (State.posted op prepared operand.lease)
    have hprepared := prepared.work_le
    rw [work_posted] at hweight
    refine .inl (rank_lt_of_work ?_)
    simp only [State.work, hphase, Phase.work, Wire.post, List.length_append, List.length_cons,
      List.length_nil]
    omega
  -- A box that fails is worth more than the completion it becomes.
  | failed prepared error op hphase hraw =>
    have hweight := Assoc.weight_of_lookup hraw InFlight.work
    have hop := op.work_le
    refine .inl (rank_lt_of_work ?_)
    simp only [State.work, hphase, Phase.work, List.length_append, List.length_cons,
      List.length_nil]
    omega
  -- An entry without a peer to post to is a completion.
  | attemptFails prepared pending inserted error books hphase hpending hinsert hattempts =>
    have hprepared := prepared.work_le
    refine .inl (rank_lt_of_work ?_)
    simp only [State.work, hphase, hpending, Phase.work, List.map_cons, List.sum_cons]
    omega
  | operandFails prepared entry error hphase
  | postFails prepared entry operand now error hphase hclock =>
    have hprepared := prepared.work_le
    refine .inl (rank_lt_of_work ?_)
    simp only [State.work, hphase, Phase.work]
    omega
  -- A refused entry goes to the back of the queue.
  | requeued prepared entry operand since now hphase hclock hrefusal =>
    obtain ⟨code, first, rfl, rfl, hdeadline⟩ := hrefusal
    cases hstalled : prepared.stalledSince with
    -- Its first refusal: the entry is worth less with the time written down.
    | none =>
      refine .inl (rank_lt_of_work ?_)
      simp only [State.work, hphase, Phase.work, Prepared.work, hstalled, List.map_append,
        List.sum_append, List.map_cons, List.map_nil, List.sum_cons, List.sum_nil]
      omega
    -- A later one: the pass idles, and the stall is named.
    | some since =>
      rw [hstalled] at hdeadline
      refine .inr (.within (.inl rfl) ?_ rfl rfl ?_ (fun _ => Nat.zero_le _)
        (.inl ⟨code, first, now, since, rfl, ?_, hdeadline⟩))
      · simp only [State.rank, State.work, hphase, Phase.work, Prepared.work, hstalled,
          List.map_append, List.sum_append, List.map_cons, List.map_nil, List.sum_cons,
          List.sum_nil]
        omega
      · intro since' h
        simp only [State.stalls, hphase, Phase.stall, hstalled, List.map_append, List.map_cons,
          List.map_nil, List.append_nil, List.mem_append, List.mem_singleton] at h ⊢
        tauto
      · simp only [State.stalls, hphase, Phase.stall, hstalled, List.mem_append,
          List.mem_singleton, or_true]
  -- Taking an entry into the hand does no work yet.
  | attempt prepared pending inserted entry books hphase hpending hinsert hcap hattempts =>
    refine .inr (.within (.inl rfl) ?_ rfl rfl ?_ (fun _ => Nat.zero_le _)
      (.inr fun _ => Nat.zero_le _))
    · simp only [State.rank, State.work, hphase, hpending, Phase.work, List.map_cons,
        List.sum_cons]
      omega
    · intro since h
      simp only [State.stalls, hphase, hpending, Phase.stall, List.map_cons, List.append_nil,
        List.mem_append, List.mem_cons] at h ⊢
      tauto
  | operand prepared entry call call' c region hphase hstep =>
    refine .inr (.within (.inl rfl) ?_ rfl rfl ?_ (fun _ => ?_) (.inr fun _ => Nat.zero_le _))
    · simp only [State.rank, State.work, hphase, Phase.work]
    · simp only [State.stalls, hphase, Phase.stall, imp_self, implies_true]
    · simp only [State.afterReap, hphase, le_refl]

/-- A reap that brings something is progress, and so is each op that it brings. -/
theorem rank_lt_or_idles_of_reaping (hmove : MovesIn setup s .reaping m s') :
    s'.rank < s.rank ∨ Idles setup s m s' := by
  cases hmove with
  | toQuiescing context reaped op read hphase hreaped hraw hquiesce =>
    have hweight := Assoc.weight_of_lookup hraw InFlight.work
    -- The op is read back once, so it is worth the read as well.
    have hop : op.work = 8 := by simp only [InFlight.work, hquiesce]
    refine .inl (rank_lt_of_work ?_)
    simp only [State.work, hphase, Phase.work, Quiescing.work, List.map_append, List.sum_append,
      List.map_cons, List.map_nil, List.sum_cons, List.sum_nil]
    omega
  | toCrc context result reaped op hphase hreaped hraw hquiesce
  | toCompletion context result reaped op hphase hreaped hraw hquiesce =>
    have hweight := Assoc.weight_of_lookup hraw InFlight.work
    have hop := op.work_le
    refine .inl (rank_lt_of_work ?_)
    simp only [State.work, hphase, Phase.work, List.length_append, List.length_cons,
      List.length_nil]
    omega
  | reap reaped wire hphase htake hmax =>
    obtain ⟨claimed, hcontexts, hperm, -⟩ := Wire.take_spec htake
    have hclaimed : claimed.length = reaped.length := by
      simpa using congrArg List.length hcontexts
    have hlength := hperm.length_eq
    rw [List.length_append] at hlength
    cases reaped with
    -- A reap that brings nothing does no work.
    | nil =>
      have hposts := Wire.posts_of_take_nil htake
      refine .inr (.within (.inl rfl) ?_ hposts rfl ?_ (fun h => absurd hphase h)
        (.inr fun _ => ?_))
      · simp only [State.rank, State.work, hphase, Phase.work, hposts]
      · simp only [State.stalls, hphase, Phase.stall, imp_self, implies_true]
      · simp only [State.behind, hphase, le_refl]
    -- What is reaped leaves the wire, and waits for less.
    | cons r reaped =>
      rw [List.length_cons] at hclaimed
      refine .inl (rank_lt_of_work ?_)
      simp only [State.work, hphase, Phase.work]
      omega

/-- A quiesce read is posted, fails, or is refused, as an attempt is. -/
theorem rank_lt_or_idles_of_quiescing (ho : Owned s) (hb : Boxed setup s)
    (hmove : MovesIn setup s .quiescing m s') : s'.rank < s.rank ∨ Idles setup s m s' := by
  cases hmove with
  | quiesced waiting entry operand now hphase hclock first =>
    have hinHand : waiting.inflight ∈ s.phase.inHand := by
      rw [hphase]
      exact List.mem_singleton_self _
    -- An op in hand has no box behind its pointer.
    have hnone := ho.lookup_of_inHand hinHand
    have hread := hb.waiting waiting.inflight (List.mem_append_right _ hinHand)
    have hwaiting := waiting.work_le
    refine .inl (rank_lt_of_work ?_)
    simp only [State.work, hphase, Phase.work, Wire.post, Assoc.weight_insert_of_none hnone,
      InFlight.work, hread, List.length_append, List.length_cons, List.length_nil]
    omega
  | quiescePostFails waiting entry operand now error hphase hclock =>
    have hinHand : waiting.inflight ∈ s.phase.inHand := by
      rw [hphase]
      exact List.mem_singleton_self _
    have hnone := ho.lookup_of_inHand hinHand
    have hwaiting := waiting.work_le
    refine .inl (rank_lt_of_work ?_)
    simp only [State.work, hphase, Phase.work, Assoc.erase_insert_of_none hnone]
    omega
  | quiesceFails waiting quiescing inserted error books hphase hquiescing hinsert hattempts =>
    have hwaiting := waiting.work_le
    refine .inl (rank_lt_of_work ?_)
    simp only [State.work, hphase, hquiescing, Phase.work, List.map_cons, List.sum_cons]
    omega
  | quiesceOperandFails waiting entry error hphase =>
    have hwaiting := waiting.work_le
    refine .inl (rank_lt_of_work ?_)
    simp only [State.work, hphase, Phase.work]
    omega
  | failedQuiesce op error hphase =>
    refine .inl (rank_lt_of_work ?_)
    simp only [State.work, hphase, Phase.work, List.length_append, List.length_cons,
      List.length_nil]
    omega
  | requiesce waiting entry operand since now hphase hclock hrefusal =>
    obtain ⟨code, first, rfl, rfl, hdeadline⟩ := hrefusal
    have hinHand : waiting.inflight ∈ s.phase.inHand := by
      rw [hphase]
      exact List.mem_singleton_self _
    have hnone := ho.lookup_of_inHand hinHand
    cases hstalled : waiting.stalledSince with
    | none =>
      refine .inl (rank_lt_of_work ?_)
      simp only [State.work, hphase, Phase.work, Quiescing.work, hstalled,
        Assoc.erase_insert_of_none hnone, List.map_append, List.sum_append, List.map_cons,
        List.map_nil, List.sum_cons, List.sum_nil]
      omega
    -- As for an attempt: the first refusal counts, a later one idles.
    | some since =>
      rw [hstalled] at hdeadline
      refine .inr (.within (.inl rfl) ?_ rfl rfl ?_ (fun _ => ?_)
        (.inl ⟨code, first, now, since, rfl, ?_, hdeadline⟩))
      · simp only [State.rank, State.work, hphase, Phase.work, Quiescing.work, hstalled,
          Assoc.erase_insert_of_none hnone, List.map_append, List.sum_append, List.map_cons,
          List.map_nil, List.sum_cons, List.sum_nil]
        omega
      · intro since' h
        simp only [State.stalls, hphase, Phase.stall, hstalled, List.map_append, List.map_cons,
          List.map_nil, List.append_nil, List.mem_append, List.mem_singleton] at h ⊢
        tauto
      · simp only [State.afterReap, hphase, le_refl]
      · simp only [State.stalls, hphase, Phase.stall, hstalled, List.mem_append,
          List.mem_singleton, or_true]
  | quiesce waiting quiescing inserted entry books hphase hquiescing hinsert hattempts =>
    refine .inr (.within (.inl rfl) ?_ rfl rfl ?_ (fun _ => ?_) (.inr fun _ => Nat.zero_le _))
    · simp only [State.rank, State.work, hphase, hquiescing, Phase.work, List.map_cons,
        List.sum_cons]
      omega
    · intro since h
      simp only [State.stalls, hphase, hquiescing, Phase.stall, List.map_cons, List.append_nil,
        List.mem_append, List.mem_cons] at h ⊢
      tauto
    · simp only [State.afterReap, hphase, le_refl]
  | quiesceOperand waiting entry call call' c region hphase hstep =>
    refine .inr (.within (.inl rfl) ?_ rfl rfl ?_ (fun _ => ?_) (.inr fun _ => Nat.zero_le _))
    · simp only [State.rank, State.work, hphase, Phase.work]
    · simp only [State.stalls, hphase, Phase.stall, imp_self, implies_true]
    · simp only [State.afterReap, hphase, le_refl]

/-- A batch that is flushed or delivered is progress. The shutdown has nothing left to do. -/
theorem rank_lt_or_idles_of_ending (hs : Settled s) (hmove : MovesIn setup s .ending m s') :
    s'.rank < s.rank ∨ Idles setup s m s' := by
  cases hmove with
  | flush hphase hflush =>
    have hbatched : 0 < s.queues.crcPending.length := by
      rw [shouldFlushCrc, Bool.and_eq_true] at hflush
      exact of_decide_eq_true hflush.1
    refine .inl (rank_lt_of_work ?_)
    simp only [State.work, hphase, Phase.work, List.length_nil]
    omega
  | deliver hphase hcompletions =>
    have hsome := List.length_pos_iff.mpr hcompletions
    refine .inl ?_
    simp only [State.rank, State.work, hphase, Phase.work, List.length_nil]
    omega
  | leftover ops raw hphase hreclaim =>
    -- Nothing is left at the end of the loop.
    obtain ⟨-, rfl, hpending, hcrc⟩ := hs.leftover hphase hreclaim
    refine .inr (.within (.inl rfl) ?_ rfl rfl ?_ (fun _ => Nat.zero_le _)
      (.inr fun _ => Nat.zero_le _))
    · simp only [State.rank, State.work, hphase, Phase.work, hpending, hcrc]
    · simp only [State.stalls, hphase, Phase.stall, hpending, imp_self, implies_true]
  | _ =>
    refine .inr (.within (.inr (by rw [‹s.phase = _›]; rfl)) ?_ rfl rfl ?_
      (fun _ => Nat.zero_le _) (.inr fun _ => Nat.zero_le _))
    · simp only [State.rank, State.work, ‹s.phase = _›, Phase.work]
    · simp only [State.stalls, ‹s.phase = _›, Phase.stall, imp_self, implies_true]

/-- A move of the worker, of the pool or of another thread does some of the work, or none. -/
theorem rank_lt_or_idles (hs : Settled s) (ho : Owned s) (hb : Boxed setup s)
    (hmove : Moves setup s m s') (hm : m.isCaller = false) :
    s'.rank < s.rank ∨ Idles setup s m s' := by
  obtain ⟨part, hmove⟩ := hmove
  cases part with
  | callers =>
    cases hmove with
    | submit | send | sendFails | dropService => cases hm
    | message message hserving hmessage hcaller | refused hcaller => simp [hm] at hcaller
  | others => cases hmove <;> exact .inr (.of_others rfl rfl rfl rfl rfl)
  | turning =>
    cases hmove with
    | turn hturn => exact Idles.of_turn hs (inFlightCap_pos _ _) hturn
  | pinning => exact .inr (idles_of_pinning hmove)
  | intake => exact .inl (rank_lt_of_intake ho hmove)
  | posting => exact rank_lt_or_idles_of_posting hmove
  | reaping => exact rank_lt_or_idles_of_reaping hmove
  | quiescing => exact rank_lt_or_idles_of_quiescing ho hb hmove
  | ending => exact rank_lt_or_idles_of_ending hs hmove
  | dangling => exact (hmove.not_dangling hs ho.backed).elim

end

/-! ### Executions -/

/-- A move of the pool. -/
def Move.isPool : Move T → Bool
  | .hash _ => true
  | .finish _ => true
  | _ => false

/-- The worker and the pool go on as long as they can, a post is reported in time if the worker
goes on reading, and the clock passes every reading. -/
structure Live [Operands T] {setup : Setup} (x : (service T setup).Execution) : Prop where
  worker : x.FairTo fun m => m.isWorker = true
  pool : x.FairTo fun m => m.isPool = true
  provider : ∀ k, ∀ op ∈ (x.state k).wire.posts,
    (∀ l, ∃ m answers, l ≤ m ∧ x.label m = some (.worker (.cq answers))) →
      ∃ m, k ≤ m ∧ op ∉ (x.state m).wire.posts
  clock : ∀ time, ∃ k, ∀ m code first now, k ≤ m →
    x.label m = some (.worker (.rma code first now)) → time ≤ now

/-- The callers are done. -/
def Calm [Operands T] {setup : Setup} (x : (service T setup).Execution) (n : Nat) : Prop :=
  ∀ m move, n ≤ m → x.label m = some move → move.isCaller = false

/-- Nothing is left of what was asked for. -/
def State.AtRest (s : State T) : Prop := s.phase = .exited ∨ s.Blocked

/-- A worker at rest has nothing queued, staged or in its channel. -/
theorem State.AtRest.drained {s : State T} (h : s.AtRest) (hs : Settled s) :
    Drained s ∧ s.callers.channel = [] ∧ s.queues.completions = [] := by
  rcases h with hexited | hblocked
  · have hquiet := hs.quiet (by rw [hexited]; rfl)
    exact ⟨hquiet.toDrained, hquiet.channel, hquiet.completions⟩
  · exact ⟨hs.idle (by rw [hblocked.phase]; rfl) hblocked.idle, hblocked.channel,
      hs.parked hblocked.phase⟩

/-- The worker is at rest, or has only its clone of the pool to drop before that. -/
def State.Winding (s : State T) : Prop := s.phase = .leaving ∨ s.AtRest

/-- A pass begins with nothing reaped and nothing left out. -/
theorem State.Restarts.fresh {s s' : State T} (h : s.Restarts s') :
    s.afterReap = 1 ∧ s'.afterReap = 0 ∧ s'.behind = 0 := by
  obtain ⟨hend, hhead⟩ := h
  refine ⟨?_, ?_, ?_⟩
  · cases hphase : s.phase with
    | completing | parking => simp only [State.afterReap, hphase]
    | _ =>
      rw [hphase] at hend
      cases hend
  all_goals
    cases hphase : s'.phase with
    | intake => simp only [State.afterReap, State.behind, hphase]
    | _ =>
      rw [hphase] at hhead
      cases hhead

section
variable [Operands T] {setup : Setup} {s s' : State T} {answer : Answer}
  {x : (service T setup).Execution} {n : Nat}

/-- A worker that cannot move is at rest, or waits for the pool. -/
theorem winding_of_stuck (h : (service T setup).Reachable s) (hstuck : ¬s.WorkerCanMove setup) :
    s.Winding := by
  by_contra hwinding
  obtain ⟨hleaving, hrest⟩ := not_or.mp hwinding
  obtain ⟨hexited, hblocked⟩ := not_or.mp hrest
  exact hstuck (never_stuck h hexited hblocked fun hjoining => hleaving hjoining.phase)

/-- With nothing in the pool it is at rest. -/
theorem atRest_of_stuck (h : (service T setup).Reachable s) (hstuck : ¬s.WorkerCanMove setup)
    (hpool : s.pool = []) : s.AtRest := by
  by_contra hrest
  obtain ⟨hexited, hblocked⟩ := not_or.mp hrest
  exact hstuck (never_stuck h hexited hblocked fun hjoining => hjoining.pool hpool)

/-- The worker reads the completion queue where it leaves `reaping`. -/
theorem cq_of_reaping (hphase : s.phase = .reaping) (h : s.stepWorker setup answer = some s') :
    ∃ answers, answer = .cq answers := by
  simp only [State.stepWorker, hphase, State.stepReaping] at h
  split at h
  · exact ⟨_, rfl⟩
  · cases h

/-- From some time on no move does any of the work. -/
theorem Calm.idles (hcalm : Calm x n) :
    ∃ N, n ≤ N ∧ ∀ m move, N ≤ m → x.label m = some move →
      Idles setup (x.state m) move (x.state (m + 1)) := by
  have hdown : ∀ m move, n ≤ m → x.label m = some move →
      (x.state (m + 1)).rank < (x.state m).rank ∨
        Idles setup (x.state m) move (x.state (m + 1)) := by
    intro m move hm hlabel
    obtain ⟨hs, ho⟩ := owned_reach (x.reachable m)
    exact rank_lt_or_idles hs ho (boxed_reach (x.reachable m))
      (moves_of_step (x.steps m move hlabel)) (hcalm m move hm hlabel)
  obtain ⟨N, hN, hconstant⟩ :=
    Machine.constant_from (f := fun m => (x.state m).rank) (n := n) fun m hm =>
      x.next (P := fun s => s.rank ≤ (x.state m).rank) (le_refl _) fun move hlabel =>
        (hdown m move hm hlabel).elim le_of_lt fun hidles => hidles.rank.le
  refine ⟨N, hN, fun m move hm hlabel => (hdown m move (by omega) hlabel).resolve_left ?_⟩
  have hsame : (x.state (m + 1)).rank = (x.state m).rank :=
    (hconstant (m + 1) (by omega)).trans (hconstant m hm).symm
  rw [hsame]
  exact lt_irrefl _

/-- An idle move of the worker begins another pass, or goes down the effort. -/
theorem Idles.effort_lt (hidles : Idles setup s (.worker answer) s') (hs : Settled s)
    (ho : Owned s) (hmove : Moves setup s (.worker answer) s') :
    s.Restarts s' ∨ s'.effort < s.effort := by
  refine (Vdma.Fabric.effort_lt hs ho hmove).resolve_left fun hintakes => ?_
  rw [State.Intakes, hidles.channel] at hintakes
  exact lt_irrefl _ hintakes

/-- Nobody else changes whether this pass has reaped. -/
theorem afterReap_others {m : Move T} (hmove : Moves setup s m s') (hs : Settled s) (ho : Owned s)
    (hm : m.isWorker = false) : s'.afterReap = s.afterReap := by
  simp only [State.afterReap, (Moves.others hs ho hmove (Move.ne_worker hm)).1]

/-- Nobody else changes whether this pass has left something out. -/
theorem behind_others {m : Move T} (hmove : Moves setup s m s') (hs : Settled s) (ho : Owned s)
    (hm : m.isWorker = false) : s'.behind = s.behind := by
  obtain ⟨hphase, hpass, hqueues, -⟩ := Moves.others hs ho hmove (Move.ne_worker hm)
  simp only [State.behind, hphase, hqueues, hpass]

/-- A worker whose moves go down a rank, beside the effort, winds down. -/
theorem winding_of_lex {N : Nat} (hfair : x.FairTo fun m => m.isWorker = true)
    (hidles : ∀ m move, N ≤ m → x.label m = some move →
      Idles setup (x.state m) move (x.state (m + 1)))
    (stage : State T → Nat)
    (hothers : ∀ s m s', Moves setup s m s' → Settled s → Owned s → m.isWorker = false →
      stage s' = stage s)
    (hstays : ∀ m answer, N ≤ m → x.label m = some (.worker answer) →
      stage (x.state (m + 1)) ≤ stage (x.state m))
    (hrestarts : ∀ m answer, N ≤ m → x.label m = some (.worker answer) →
      (x.state m).Restarts (x.state (m + 1)) → stage (x.state (m + 1)) < stage (x.state m)) :
    ∃ m, N ≤ m ∧ (x.state m).Winding := by
  have hdown : ∀ m move, N ≤ m → move.isWorker = true → x.label m = some move →
      toLex (stage (x.state (m + 1)), (x.state (m + 1)).effort)
        < toLex (stage (x.state m), (x.state m).effort) := by
    intro m move hm hworker hlabel
    obtain ⟨hs, ho⟩ := owned_reach (x.reachable m)
    cases move with
    | worker answer =>
      rw [Prod.Lex.toLex_lt_toLex]
      have hmove := moves_of_step (x.steps m _ hlabel)
      rcases (hidles m _ hm hlabel).effort_lt hs ho hmove with hrestart | heffort
      · exact .inl (hrestarts m answer hm hlabel hrestart)
      · rcases (hstays m answer hm hlabel).lt_or_eq with hlt | heq
        · exact .inl hlt
        · exact .inr ⟨heq, heffort⟩
    | _ => cases hworker
  have hsame : ∀ m move, N ≤ m → ¬move.isWorker = true → x.label m = some move →
      toLex (stage (x.state (m + 1)), (x.state (m + 1)).effort)
        ≤ toLex (stage (x.state m), (x.state m).effort) := by
    -- The others change neither what is left nor the stage.
    intro m move hm hworker hlabel
    obtain ⟨hs, ho⟩ := owned_reach (x.reachable m)
    have hmove := moves_of_step (x.steps m _ hlabel)
    have hnot := Bool.eq_false_iff.mpr hworker
    rw [hothers _ _ _ hmove hs ho hnot, effort_others hmove hs ho hnot]
  obtain ⟨m, hm, hstuck⟩ :=
    x.runs_out hfair (fun s => toLex (stage s, s.effort)) hsame hdown
  exact ⟨m, hm, winding_of_stuck (x.reachable m) hstuck⟩

/-- Once no move does any work, a worker that reads the completion queue no more winds
down. -/
theorem winding_of_no_reads {N l : Nat} (hfair : x.FairTo fun m => m.isWorker = true)
    (hidles : ∀ m move, N ≤ m → x.label m = some move →
      Idles setup (x.state m) move (x.state (m + 1)))
    (hreads : ∀ m answers, l ≤ m → x.label m ≠ some (.worker (.cq answers))) :
    ∃ m, N ≤ m ∧ (x.state m).Winding := by
  -- Only a read takes a pass to what comes after it.
  have hstays : ∀ m answer, max N l ≤ m → x.label m = some (.worker answer) →
      (x.state (m + 1)).afterReap ≤ (x.state m).afterReap := by
    intro m answer hm hlabel
    refine (hidles m _ (by omega) hlabel).reaps fun hphase => ?_
    obtain ⟨answers, rfl⟩ := cq_of_reaping hphase (x.steps m _ hlabel)
    exact hreads m answers (by omega) hlabel
  have hrestarts : ∀ m answer, max N l ≤ m → x.label m = some (.worker answer) →
      (x.state m).Restarts (x.state (m + 1)) →
        (x.state (m + 1)).afterReap < (x.state m).afterReap := by
    intro m answer hm hlabel hrestart
    rw [hrestart.fresh.1, hrestart.fresh.2.1]
    exact Nat.one_pos
  obtain ⟨m, hm, hwinding⟩ := winding_of_lex hfair
    (fun m move hm hlabel => hidles m move (by omega) hlabel) State.afterReap
    (fun _ _ _ => afterReap_others) hstays hrestarts
  exact ⟨m, by omega, hwinding⟩

/-- Once no move does any work and nothing is on the wire, a worker whose attempts are refused no
more winds down. -/
theorem winding_of_no_refusals {N l : Nat} (hfair : x.FairTo fun m => m.isWorker = true)
    (hidles : ∀ m move, N ≤ m → x.label m = some move →
      Idles setup (x.state m) move (x.state (m + 1)))
    (hposts : ∀ m, N ≤ m → (x.state m).wire.posts = [])
    (hrefusals : ∀ m move, l ≤ m → x.label m = some move → ¬(x.state m).RefusedAgain setup move) :
    ∃ m, N ≤ m ∧ (x.state m).Winding := by
  have hstays : ∀ m answer, max N l ≤ m → x.label m = some (.worker answer) →
      (x.state (m + 1)).behind ≤ (x.state m).behind := by
    intro m answer hm hlabel
    exact (hidles m _ (by omega) hlabel).attempts.resolve_left (hrefusals m _ (by omega) hlabel)
      (hposts m (by omega))
  have hrestarts : ∀ m answer, max N l ≤ m → x.label m = some (.worker answer) →
      (x.state m).Restarts (x.state (m + 1)) →
        (x.state (m + 1)).behind < (x.state m).behind := by
    intro m answer hm hlabel hrestart
    rw [(hidles m _ (by omega) hlabel).restarts hrestart, hrestart.fresh.2.2]
    exact Nat.one_pos
  obtain ⟨m, hm, hwinding⟩ := winding_of_lex hfair
    (fun m move hm hlabel => hidles m move (by omega) hlabel) State.behind
    (fun _ _ _ => behind_others) hstays hrestarts
  exact ⟨m, by omega, hwinding⟩

/-- The worker winds down. -/
theorem Live.winds_down (hlive : Live x) (hcalm : Calm x n) :
    ∃ m, n ≤ m ∧ (x.state m).Winding := by
  obtain ⟨N, hN, hidles⟩ := hcalm.idles
  have hposts : ∀ m, N ≤ m → (x.state m).wire.posts = (x.state N).wire.posts := fun m hm =>
    x.stays (P := fun s => s.wire.posts = (x.state N).wire.posts) rfl
      (fun m move hm hlabel hsame => (hidles m move hm hlabel).posts.trans hsame) hm
  -- What is on the wire would be reported, and that is work.
  by_cases hwire : (x.state N).wire.posts = []
  · -- The refusals that are kept are all earlier than some reading.
    obtain ⟨time, htime⟩ : ∃ time, ∀ since, some since ∈ (x.state N).stalls → since ≤ time :=
      ⟨((x.state N).stalls.map fun since : Option Nat => since.getD 0).sum, fun since hsince =>
        le_sum_map hsince fun since : Option Nat => since.getD 0⟩
    obtain ⟨K, hK⟩ := hlive.clock (time + setup.configuration.progressDeadline)
    have hstalls : ∀ m, N ≤ m → ∀ since, some since ∈ (x.state m).stalls → since ≤ time :=
      fun m hm => x.stays (P := fun s => ∀ since, some since ∈ s.stalls → since ≤ time) htime
        (fun m move hm hlabel hbound since hsince =>
          hbound since ((hidles m move hm hlabel).stalls since hsince)) hm
    have hrefusals : ∀ m move, max N K ≤ m → x.label m = some move →
        ¬(x.state m).RefusedAgain setup move := by
      rintro m _ hm hlabel ⟨code, first, now, since, rfl, hsince, hdeadline⟩
      have hearly := hstalls m (by omega) since hsince
      have hlate := hK m code first now (by omega) hlabel
      omega
    obtain ⟨m, hm, hwinding⟩ := winding_of_no_refusals hlive.worker hidles
      (fun m hm => (hposts m hm).trans hwire) hrefusals
    exact ⟨m, by omega, hwinding⟩
  · by_contra hnever
    obtain ⟨op, hop⟩ := List.exists_mem_of_ne_nil _ hwire
    have hreads : ∀ l, ∃ m answers, l ≤ m ∧ x.label m = some (.worker (.cq answers)) := by
      intro l
      by_contra hnone
      obtain ⟨m, hm, hwinding⟩ := winding_of_no_reads (l := l) hlive.worker hidles
        fun m answers hm hlabel => hnone ⟨m, answers, hm, hlabel⟩
      exact hnever ⟨m, by omega, hwinding⟩
    obtain ⟨m, hm, hgone⟩ := hlive.provider N op hop hreads
    rw [hposts m hm] at hgone
    exact hgone hop

/-- The worker at rest has no move. -/
theorem State.AtRest.stuck (h : s.AtRest) (hs : Settled s) : s.stepWorker setup answer = none := by
  rcases h with hexited | hblocked
  · simp only [State.stepWorker, hexited]
  · have hdisconnected : s.pass.disconnected = false := by
      by_contra hne
      exact hblocked.service (hs.disconnected (Bool.not_eq_false _ ▸ hne)).1
    simp only [State.stepWorker, hblocked.phase, State.stepParking, hdisconnected, hblocked.idle,
      hblocked.channel, hblocked.service, Bool.false_eq_true, false_and, if_false, if_true]
    split <;> rfl

/-- A worker that leaves drops its clone of the pool, and has exited. -/
theorem exited_of_leaving (hphase : s.phase = .leaving)
    (h : s.stepWorker setup answer = some s') : s' = { s with phase := .exited } := by
  simp only [State.stepWorker, hphase] at h
  split at h
  · unfold State.stepLeaving at h
    split at h
    · exact (Option.some.inj h).symm
    · cases h
  · cases h

/-- Only the callers and the worker touch what they share. -/
theorem callers_step {m : Move T} (hs : Settled s) (ho : Owned s) (hmove : Moves setup s m s')
    (hcaller : m.isCaller = false) (hworker : m.isWorker = false) : s'.callers = s.callers := by
  obtain ⟨part, hmove⟩ := hmove
  cases hmove with
  | submit | send | sendFails | dropService => cases hcaller
  | message message hserving hmessage hm | refused hm => simp [hcaller] at hm
  | dangling context hraw howned => exact (ho.backed.not_dangling hraw howned).elim
  | danglingPending hphase hreclaim => exact (hs.not_danglingPending hphase hreclaim).elim
  | thread | write | hash | finish | releasePool => rfl
  | _ => cases hworker

/-- Nobody but a caller ends the rest. -/
theorem State.AtRest.step {m : Move T} (h : s.AtRest) (hreach : (service T setup).Reachable s)
    (hcaller : m.isCaller = false) (hstep : (service T setup).step s m = some s') : s'.AtRest := by
  obtain ⟨hs, ho⟩ := owned_reach hreach
  have hmove := moves_of_step hstep
  have hworker : m.isWorker = false := by
    cases m with
    | worker answer =>
      have hnone : s.stepWorker setup answer = some s' := hstep
      rw [h.stuck hs] at hnone
      cases hnone
    | _ => rfl
  have hcallers := callers_step hs ho hmove hcaller hworker
  obtain ⟨hphase, hpass, -, -⟩ := Moves.others hs ho hmove (Move.ne_worker hworker)
  rcases h with hexited | ⟨hparking, hidle, hchannel, hservice⟩
  · exact .inl (hphase.trans hexited)
  · exact .inr ⟨hphase.trans hparking, by rwa [hpass], by rwa [hcallers], by rwa [hcallers]⟩

/-- A worker that winds down does so till it rests, and all that it has left to do is its exit. -/
theorem State.Winding.step {m : Move T} (h : s.Winding) (hreach : (service T setup).Reachable s)
    (hcaller : m.isCaller = false) (hstep : (service T setup).step s m = some s') :
    s'.Winding ∧
      (m.isWorker = true → s.phase = .leaving ∧ s' = { s with phase := .exited }) := by
  obtain ⟨hs, ho⟩ := owned_reach hreach
  rcases h with hleaving | hrest
  · cases hworker : m.isWorker with
    | true =>
      cases m with
      | worker answer =>
        have hexited : s' = { s with phase := .exited } := exited_of_leaving hleaving hstep
        exact ⟨.inr (.inl (by rw [hexited])), fun _ => ⟨hleaving, hexited⟩⟩
      | _ => cases hworker
    | false =>
      obtain ⟨hphase, -⟩ := Moves.others hs ho (moves_of_step hstep) (Move.ne_worker hworker)
      exact ⟨.inl (hphase.trans hleaving), fun h => by cases h⟩
  · refine ⟨.inr (hrest.step hreach hcaller hstep), fun hworker => ?_⟩
    cases m with
    | worker answer =>
      have hnone : s.stepWorker setup answer = some s' := hstep
      rw [hrest.stuck hs] at hnone
      cases hnone
    | _ => cases hworker

/-- The moves the pool has left. -/
def State.poolEffort (s : State T) : Nat := (s.pool.map fun job => job.batch.length + 1).sum

/-- A pool with a job has a move. -/
theorem pool_of_stuck (h : ¬(service T setup).CanMove (fun m => m.isPool = true) s) :
    s.pool = [] := by
  by_contra hpool
  obtain ⟨⟨batch, done⟩, jobs, hcons⟩ := List.exists_cons_of_ne_nil hpool
  refine h ?_
  have hzero : s.pool[0]? = some ⟨batch, done⟩ := by rw [hcons]; rfl
  cases batch with
  | nil =>
    refine ⟨.finish 0, rfl, ?_⟩
    show (s.stepFinish 0).isSome = true
    simp only [State.stepFinish, hzero]
    rfl
  | cons op batch =>
    refine ⟨.hash 0, rfl, ?_⟩
    show (s.stepHash setup 0).isSome = true
    simp only [State.stepHash, hzero]
    rfl

/-- A move of the pool goes down what it has left, and while the worker rests nobody adds to
that. -/
theorem poolEffort_step {m : Move T} (hs : Settled s) (ho : Owned s) (hmove : Moves setup s m s')
    (hworker : m.isWorker = false) :
    (m.isPool = true → s'.poolEffort < s.poolEffort) ∧
      (m.isPool = false → s'.pool = s.pool) := by
  obtain ⟨part, hmove⟩ := hmove
  cases hmove with
  | hash before after op result batch done hpool =>
    refine ⟨fun _ => ?_, fun h => by cases h⟩
    simp only [State.poolEffort, hpool, List.map_append, List.map_cons, List.sum_append,
      List.sum_cons, List.length_cons]
    omega
  | finish before after done hpool =>
    refine ⟨fun _ => ?_, fun h => by cases h⟩
    simp only [State.poolEffort, hpool, List.map_append, List.map_cons, List.sum_append,
      List.sum_cons]
    omega
  | message message hserving hmessage hm | refused hm =>
    cases m with
    | hash | finish => cases hm
    | _ => exact ⟨fun h => (by cases h), fun _ => rfl⟩
  | dangling context hraw howned => exact (ho.backed.not_dangling hraw howned).elim
  | danglingPending hphase hreclaim => exact (hs.not_danglingPending hphase hreclaim).elim
  | submit | send | sendFails | dropService | thread | write | releasePool =>
    exact ⟨fun h => (by cases h), fun _ => rfl⟩
  | _ => cases hworker

/-- While the worker winds down, a move of the pool goes down what it has left, and nobody adds to
that. -/
theorem State.Winding.pool_step {m : Move T} (h : s.Winding)
    (hreach : (service T setup).Reachable s) (hcaller : m.isCaller = false)
    (hstep : (service T setup).step s m = some s') :
    (m.isPool = true → s'.poolEffort < s.poolEffort) ∧
      (m.isPool = false → s'.pool = s.pool) := by
  obtain ⟨hs, ho⟩ := owned_reach hreach
  cases hworker : m.isWorker with
  | false => exact poolEffort_step hs ho (moves_of_step hstep) hworker
  | true =>
    obtain ⟨-, hexited⟩ := (h.step hreach hcaller hstep).2 hworker
    refine ⟨fun hpool => ?_, fun _ => by rw [hexited]⟩
    cases m with
    | hash | finish => cases hworker
    | _ => cases hpool

/-- The worker winds down from some time on. -/
theorem Live.winding (hlive : Live x) (hcalm : Calm x n) :
    ∃ N, n ≤ N ∧ ∀ m, N ≤ m → (x.state m).Winding := by
  obtain ⟨N, hN, hwinding⟩ := hlive.winds_down hcalm
  refine ⟨N, hN, fun m hm => x.stays hwinding (fun k move hk hlabel hwinding => ?_) hm⟩
  exact (hwinding.step (x.reachable k) (hcalm k move (by omega) hlabel) (x.steps k move hlabel)).1

/-- While the worker winds down, the pool runs dry. -/
theorem Live.runs_dry (hlive : Live x) (hcalm : Calm x n)
    (hwinding : ∀ m, n ≤ m → (x.state m).Winding) :
    ∃ M, n ≤ M ∧ ∀ m, M ≤ m → (x.state m).pool = [] := by
  have hpool : ∀ m move, n ≤ m → x.label m = some move →
      (move.isPool = true → (x.state (m + 1)).poolEffort < (x.state m).poolEffort) ∧
        (move.isPool = false → (x.state (m + 1)).pool = (x.state m).pool) :=
    fun m move hm hlabel => (hwinding m hm).pool_step (x.reachable m) (hcalm m move hm hlabel)
      (x.steps m move hlabel)
  obtain ⟨M, hM, hstuck⟩ := x.runs_out hlive.pool State.poolEffort
    (fun m move hm hnot hlabel => by
      simp only [State.poolEffort, (hpool m move hm hlabel).2 (Bool.eq_false_iff.mpr hnot),
        le_refl])
    (fun m move hm hmoves hlabel => (hpool m move hm hlabel).1 hmoves)
  refine ⟨M, hM, fun m hm => ?_⟩
  refine x.stays (P := fun s => s.pool = []) (pool_of_stuck hstuck)
    (fun m move hm hlabel hnil => ?_) hm
  cases hmove : move.isPool with
  | false => exact ((hpool m move (by omega) hlabel).2 hmove).trans hnil
  | true =>
    -- Nothing is less than an empty pool.
    have hless := (hpool m move (by omega) hlabel).1 hmove
    simp only [State.poolEffort, hnil, List.map_nil, List.sum_nil] at hless
    omega

/-- The worker rests from some time on, with the pool dry. One that waits for the pool comes out
once the pool has run its jobs. -/
theorem Live.rests (hlive : Live x) (hcalm : Calm x n) :
    ∃ N, n ≤ N ∧ ∀ m, N ≤ m → (x.state m).AtRest ∧ (x.state m).pool = [] := by
  obtain ⟨N, hN, hwinding⟩ := hlive.winding hcalm
  obtain ⟨M, hM, hdry⟩ := hlive.runs_dry (fun m move hm => hcalm m move (hN.trans hm)) hwinding
  obtain ⟨K, hK, hstuck⟩ := x.runs_out (n := M) hlive.worker State.effort
    (fun m move hm hnot hlabel => by
      obtain ⟨hs, ho⟩ := owned_reach (x.reachable m)
      exact (effort_others (moves_of_step (x.steps m move hlabel)) hs ho
        (Bool.eq_false_iff.mpr hnot)).le)
    (fun m move hm hworker hlabel => by
      obtain ⟨hleaving, hexited⟩ := ((hwinding m (by omega)).step (x.reachable m)
        (hcalm m move (by omega) hlabel) (x.steps m move hlabel)).2 hworker
      simp only [State.effort, hleaving, hexited, Nat.one_pos])
  have hrest := atRest_of_stuck (x.reachable K) hstuck (hdry K hK)
  refine ⟨K, by omega, fun m hm => ⟨?_, hdry m (by omega)⟩⟩
  refine x.stays (P := State.AtRest) hrest (fun k move hk hlabel hrest => ?_) hm
  exact hrest.step (x.reachable k) (hcalm k move (by omega) hlabel) (x.steps k move hlabel)

/-- With the worker at rest and the pool dry, each transfer that was sent is delivered once. -/
theorem State.AtRest.perm (hrest : s.AtRest) (hs : Settled s) (ho : Owned s) (hpool : s.pool = []) :
    (s.delivered.map Completion.callerContext).Perm (s.callers.sent.map returned) := by
  obtain ⟨hdrained, hchannel, hcompletions⟩ := hrest.drained hs
  have hphase : s.phase.Rests ∧ s.phase ≠ .dispatching := by
    rcases hrest with hexited | hblocked
    · rw [hexited]
      exact ⟨⟨rfl, rfl, fun _ => rfl, rfl⟩, by simp⟩
    · rw [hblocked.phase]
      exact ⟨⟨rfl, rfl, fun _ => rfl, rfl⟩, by simp⟩
  have hraw := (raw_of_drained ho hs hdrained hphase.2 hphase.1.prepared).2
  have hperm := perm_of_empty_channel ho hdrained hchannel hcompletions hraw hphase.1.inHand
  rwa [State.inPool, hpool, List.flatMap_nil, List.append_nil] at hperm

/-- In a live execution, once the callers are done, the worker comes to block in `recv` or has
exited, and the pool runs dry. From then on every transfer that was sent is delivered, once. -/
theorem all_delivered (hlive : Live x) (hcalm : Calm x n) :
    ∃ m, n ≤ m ∧ ∀ k, m ≤ k →
      ((x.state k).phase = .exited ∨ (x.state k).Blocked) ∧ (x.state k).pool = [] ∧
      ((x.state k).delivered.map Completion.callerContext).Perm
        ((x.state k).callers.sent.map returned) := by
  obtain ⟨N, hN, hrests⟩ := hlive.rests hcalm
  refine ⟨N, hN, fun k hk => ?_⟩
  obtain ⟨hs, ho⟩ := owned_reach (x.reachable k)
  obtain ⟨hrest, hdry⟩ := hrests k hk
  exact ⟨hrest, hdry, hrest.perm hs ho hdry⟩

/-! ### The drop of a service -/

/-- Nobody is left to ask a dropped service for more. -/
theorem not_caller_of_dropped {m : Move T} (hs : Settled s)
    (hdropped : s.callers.service = .dropped) (hstep : (service T setup).step s m = some s') :
    m.isCaller = false := by
  have hsubmitting := hs.submitting (by rw [hdropped]; simp)
  change s.step setup m = some s' at hstep
  cases m with
  | submit | addPeer | removePeer | register | dropService => simp [State.step, hdropped] at hstep
  | send i => simp [State.step, State.stepSend, hsubmitting] at hstep
  | worker | hash | finish | releasePool | thread | write => rfl

/-- A dropped service stays dropped. -/
theorem dropped_step {m : Move T} (hs : Settled s) (ho : Owned s)
    (hdropped : s.callers.service = .dropped) (hstep : (service T setup).step s m = some s') :
    s'.callers.service = .dropped := by
  have hcaller := not_caller_of_dropped hs hdropped hstep
  obtain ⟨part, hmove⟩ := moves_of_step hstep
  cases hmove with
  | serve hphase =>
    -- Only a worker that starts up sets the service, and it is not there to be dropped yet.
    rw [hs.starting (by rw [hphase]; rfl)] at hdropped
    cases hdropped
  | dropService => rfl
  | message message hserving hmessage hm | refused hm => simp [hcaller] at hm
  | dangling context hraw howned => exact (ho.backed.not_dangling hraw howned).elim
  | danglingPending hphase hreclaim => exact (hs.not_danglingPending hphase hreclaim).elim
  | _ => exact hdropped

/-- A dropped service stays dropped in every later state. -/
theorem dropped_stays (hdropped : (x.state n).callers.service = .dropped) {m : Nat} (hm : n ≤ m) :
    (x.state m).callers.service = .dropped :=
  x.stays (P := fun s => s.callers.service = .dropped) hdropped
    (fun k move _ hlabel hdropped =>
      dropped_step (owned_reach (x.reachable k)).1 (owned_reach (x.reachable k)).2 hdropped
        (x.steps k move hlabel)) hm

/-- The worker closes its domain on its way out. -/
theorem closed_of_exited (h : (service T setup).Reachable s) :
    s.phase = .leaving ∨ s.phase = .exited → s.domainClosed = true := by
  refine service_invariant (J := fun s => Settled s ∧ Owned s)
    (I := fun s => s.phase = .leaving ∨ s.phase = .exited → s.domainClosed = true)
    (fun s hs => owned_reach hs) ?_ ?_ h
  · intro hends
    rcases hends with hleaving | hexited
    · cases hleaving
    · cases hexited
  · intro s m s' hs hs' hok hmove hclosed hends
    obtain ⟨part, hmove⟩ := hmove
    cases hmove with
    | close => rfl
    | leave hphase => exact hclosed (.inl hphase)
    | submit | send | sendFails | message | refused | dropService | thread | write | hash
    | finish | releasePool => exact hclosed hends
    | turn hturn => cases hturn <;> rcases hends with hleaving | hexited <;> contradiction
    | pinnedQuiesce base limit result phase hphase hnext =>
      rcases hnext with rfl | rfl <;> rcases hends with hleaving | hexited <;> contradiction
    | toQuiescing context reaped op read hphase | toCrc context result reaped op hphase
    | toCompletion context result reaped op hphase =>
      -- An op is dispatched in the loop.
      change s.phase = .leaving ∨ s.phase = .exited at hends
      rw [hphase] at hends
      rcases hends with hleaving | hexited <;> contradiction
    | dangling context hraw howned => exact (hs.2.backed.not_dangling hraw howned).elim
    | danglingPending hphase hreclaim => exact (hs.1.not_danglingPending hphase hreclaim).elim
    | _ => rcases hends with hleaving | hexited <;> contradiction

/-- In a live execution a dropped service ends: its worker exits, so that the drop returns, its
domain is closed, and in time every transfer that was sent is delivered. -/
theorem drop_returns (hlive : Live x) (hdropped : (x.state n).callers.service = .dropped) :
    ∃ m, n ≤ m ∧ ∀ k, m ≤ k →
      (x.state k).phase = .exited ∧ (x.state k).domainClosed = true ∧ (x.state k).pool = [] ∧
      ((x.state k).delivered.map Completion.callerContext).Perm
        ((x.state k).callers.sent.map returned) := by
  have hcalm : Calm x n := fun m move hm hlabel =>
    not_caller_of_dropped (owned_reach (x.reachable m)).1 (dropped_stays hdropped hm)
      (x.steps m move hlabel)
  obtain ⟨N, hN, hrests⟩ := hlive.rests hcalm
  refine ⟨N, hN, fun k hk => ?_⟩
  obtain ⟨hs, ho⟩ := owned_reach (x.reachable k)
  obtain ⟨hrest, hdry⟩ := hrests k hk
  -- A dropped service's channel is closed, so the worker does not block on it.
  have hexited : (x.state k).phase = .exited :=
    hrest.resolve_right fun hblocked => hblocked.service (dropped_stays hdropped (by omega))
  exact ⟨hexited, closed_of_exited (x.reachable k) (.inr hexited), hdry,
    hrest.perm hs ho hdry⟩

/-! ### Executions that end -/

/-- A run that ends at rest, with the pool dry, is live. -/
theorem live_ofRun {moves : List (Move T)}
    (hrun : (service T setup).run (State.start setup) moves = some s) (hrest : s.AtRest)
    (hpool : s.pool = []) : Live (Machine.Execution.ofRun rfl hrun) := by
  have hs := (owned_reach (Machine.reach_run rfl moves hrun)).1
  have hlabel : ∀ m, moves.length ≤ m → (Machine.Execution.ofRun rfl hrun).label m = none :=
    fun m hm => List.getElem?_eq_none hm
  refine ⟨?_, ?_, ?_, ?_⟩
  · refine Machine.Execution.fairTo_ofRun rfl hrun ?_
    rintro ⟨move, hworker, henabled⟩
    cases move with
    | worker answer =>
      have hsome : (s.stepWorker setup answer).isSome = true := henabled
      rw [hrest.stuck hs] at hsome
      cases hsome
    | _ => cases hworker
  · refine Machine.Execution.fairTo_ofRun rfl hrun ?_
    rintro ⟨move, hpoolMove, henabled⟩
    cases move with
    | hash i | finish i =>
      simp [Machine.Enabled, service, State.step, State.stepHash, State.stepFinish, hpool]
        at henabled
    | _ => cases hpoolMove
  · intro k op hop hreads
    obtain ⟨m, answers, hm, hread⟩ := hreads moves.length
    rw [hlabel m hm] at hread
    cases hread
  · intro time
    refine ⟨moves.length, fun m code first now hm hread => ?_⟩
    rw [hlabel m hm] at hread
    cases hread

end

/-- A checksummed write, posted, quiesced, hashed and delivered, with the worker back in `recv`. -/
def wholeWrite : List (Move Buffer) :=
  startUp ++ postWrite (writeTo 1 (List.replicate 32 254) true 4096) ++ quiesceAndHash
    ++ [.hash 0, .finish 0, .worker .none]

/-- The write is delivered, and the worker blocks in `recv` again. -/
theorem all_delivered_write :
    ∃ (x : (service Buffer bufferSetup).Execution) (m : Nat),
      (x.state m).callers.sent.length = 1 ∧
      ((x.state m).delivered.map Completion.callerContext).Perm
        ((x.state m).callers.sent.map returned) := by
  obtain ⟨s, hrun, hphase, hidle, hchannel, hservice, hpool, hsent⟩ :
      ∃ s, (service Buffer bufferSetup).run (State.start bufferSetup) wholeWrite = some s ∧
        s.phase = .parking ∧ s.pass.idle = true ∧ s.callers.channel = [] ∧
        s.callers.service = .serving ∧ s.pool = [] ∧ s.callers.sent.length = 1 :=
    ⟨_, rfl, rfl, rfl, rfl, rfl, rfl, rfl⟩
  have hrest : s.AtRest := .inr ⟨hphase, hidle, hchannel, by rw [hservice]; simp⟩
  have hcalm : Calm (Machine.Execution.ofRun rfl hrun) wholeWrite.length := by
    intro m move hm hlabel
    rw [show (Machine.Execution.ofRun rfl hrun).label m = none from List.getElem?_eq_none hm]
      at hlabel
    cases hlabel
  obtain ⟨m, hm, hdelivered⟩ := all_delivered (live_ofRun hrun hrest hpool) hcalm
  refine ⟨Machine.Execution.ofRun rfl hrun, m, ?_, (hdelivered m (Nat.le_refl m)).2.2⟩
  rw [show (Machine.Execution.ofRun rfl hrun).state m = s from
    Machine.Execution.after_end hrun hm]
  exact hsent

/-- The same write, and the drop of the service after it. The worker is the last to hold the pool,
and waits for it. -/
def writeAndDrop : List (Move Buffer) :=
  startUp ++ postWrite (writeTo 1 (List.replicate 32 254) true 4096) ++ quiesceAndHash
    ++ [.dropService, .releasePool, .worker .none, .hash 0, .worker .none, .worker .none,
      .worker .none, .worker .none, .worker .none, .finish 0, .worker .none]

/-- The moves up to the drop. -/
def untilDrop : Nat :=
  (startUp ++ postWrite (writeTo 1 (List.replicate 32 254) true 4096) ++ quiesceAndHash).length + 1

/-- The service is dropped with the write on its way to the pool. The worker waits for the pool,
and exits. -/
theorem drop_returns_write :
    ∃ (x : (service Buffer bufferSetup).Execution) (m : Nat),
      (x.state untilDrop).callers.service = .dropped ∧ (x.state untilDrop).phase = .completing ∧
      untilDrop ≤ m ∧ (x.state m).phase = .exited ∧ (x.state m).pool = [] := by
  obtain ⟨s, hrun, hphase, hpool⟩ :
      ∃ s, (service Buffer bufferSetup).run (State.start bufferSetup) writeAndDrop = some s ∧
        s.phase = .exited ∧ s.pool = [] :=
    ⟨_, rfl, rfl, rfl⟩
  obtain ⟨m, hm, hends⟩ := drop_returns (n := untilDrop) (live_ofRun hrun (.inl hphase) hpool) rfl
  obtain ⟨hexited, -, hdry, -⟩ := hends m (Nat.le_refl m)
  exact ⟨Machine.Execution.ofRun rfl hrun, m, rfl, rfl, hm, hexited, hdry⟩

end Vdma.Fabric
