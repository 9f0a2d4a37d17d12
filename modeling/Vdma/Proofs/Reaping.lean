import Vdma.Fabric.Endpoint

/-!
# `Vdma.Proofs.Reaping`: what a reap takes off the completion queue, it hands on

A provider answers one read of the queue after the other, each one knowing how many entries
it is asked for. `Provider.sound` is the promise of `fi_cq_read`: no more entries than that.
`ReapRun` collects what one call of `reap` reads and returns, and `exists_reapRun` shows that
the loop ends with every provider. It has a rule for an answer that the loop reads on after,
`ReapRun.cons`, and one for an answer that ends it, `ReapRun.stop`.

`handed` is what an answer hands over. `reap` returns at the first null `op_context` of a
batch, and the batch has left the queue by then. So what follows the null is lost, and
`reap_keeps_all` has the exact condition: no batch has an `op_context` after a null one.
-/

set_option autoImplicit false

namespace Vdma.Fabric

/-- What a batch of success entries hands over: its `op_context`s that are not null. -/
def successes (contexts : List (Option Nat)) : List Reaped :=
  contexts.filterMap fun context => context.map fun c => (c, .ok ())

namespace CqAnswer

/-- An answer to a read of `want` entries. -/
def Answers (want : Nat) : CqAnswer → Prop
  | .entries contexts => contexts ≠ [] ∧ contexts.length ≤ want
  | .available .. => True
  | .code read => read ≤ 0 ∧ read ≠ -fiEavail

/-- The completions an answer hands over, in order. -/
def handed (lib : Libfabric) : CqAnswer → List Reaped
  | .entries contexts => successes contexts
  | .available read context err provErrno =>
    if 0 < read then context.toList.map fun c => (c, .error (completionError lib err provErrno))
    else []
  | .code _ => []

/-- No `op_context` of a batch comes after a null one. -/
def NullsLast : CqAnswer → Prop
  | .entries contexts => ∀ context ∈ contexts.dropWhile Option.isSome, context = none
  | _ => True

end CqAnswer

/-- A completion queue: what its `i`-th read answers when it is asked for `want` entries. -/
structure Provider where
  read : Nat → Nat → CqAnswer
  sound : ∀ i want, 0 < want → (read i want).Answers want

/-- The queue after its first read. -/
def Provider.next (provider : Provider) : Provider where
  read i := provider.read (i + 1)
  sound i := provider.sound (i + 1)

/-- How many entries `fi_cq_read` is asked for with `out` reaped. -/
def wanted (max : Nat) (out : List Reaped) : Nat := min cqBatch (max - out.length)

/-! ### One batch -/

/-- A batch without nulls is appended whole. -/
theorem pushEntries_ok {out out' : List Reaped} {contexts : List (Option Nat)}
    (h : pushEntries out contexts = (out', .ok ())) :
    ∃ before : List Nat, contexts = before.map some ∧
      out' = out ++ before.map fun c => (c, .ok ()) := by
  induction contexts generalizing out with
  | nil =>
    cases h
    exact ⟨[], rfl, (List.append_nil _).symm⟩
  | cons context contexts ih =>
    cases context with
    | none => simp [pushEntries, nonNullContext] at h
    | some c =>
      obtain ⟨before, rfl, rfl⟩ := ih h
      exact ⟨c :: before, rfl, List.append_assoc ..⟩

/-- A batch is appended up to its first null. -/
theorem pushEntries_error {out out' : List Reaped} {contexts : List (Option Nat)} {error : DmaError}
    (h : pushEntries out contexts = (out', .error error)) :
    ∃ (before : List Nat) (after : List (Option Nat)), contexts = before.map some ++ none :: after ∧
      out' = out ++ before.map fun c => (c, .ok ()) := by
  induction contexts generalizing out with
  | nil => simp [pushEntries] at h
  | cons context contexts ih =>
    cases context with
    | none =>
      cases h
      exact ⟨[], contexts, rfl, (List.append_nil _).symm⟩
    | some c =>
      obtain ⟨before, after, rfl, rfl⟩ := ih h
      exact ⟨c :: before, after, rfl, List.append_assoc ..⟩

/-- Contexts that are there are all successes. -/
theorem successes_map_some (before : List Nat) :
    successes (before.map some) = before.map fun c => (c, .ok ()) := by
  induction before with
  | nil => rfl
  | cons c before ih => exact congrArg (List.cons _) ih

/-- What is in front of a null context is skipped whole. -/
theorem dropWhile_map_some (before : List Nat) (after : List (Option Nat)) :
    (before.map some ++ after).dropWhile Option.isSome = after.dropWhile Option.isSome :=
  List.dropWhile_append_of_pos (by simp)

/-- What a batch with a null hands over. -/
theorem successes_cut (before : List Nat) (after : List (Option Nat)) :
    successes (before.map some ++ none :: after)
      = (before.map fun c => (c, .ok ())) ++ successes after := by
  rw [successes, List.filterMap_append]
  exact congrArg (· ++ _) (successes_map_some before)

/-- A batch that is cut at a null is handed on whole exactly when only nulls follow. -/
theorem cut_iff {before : List Nat} {after : List (Option Nat)} :
    (before.map fun c => ((c, .ok ()) : Reaped)) = successes (before.map some ++ none :: after) ↔
      (CqAnswer.entries (before.map some ++ none :: after)).NullsLast := by
  have hlost : successes after = [] ↔ ∀ context ∈ after, context = none := by
    rw [successes, List.filterMap_eq_nil_iff]
    exact forall₂_congr fun context _ => Option.map_eq_none_iff
  show _ ↔ ∀ context ∈ (before.map some ++ none :: after).dropWhile Option.isSome, context = none
  have hnull : (none :: after).dropWhile Option.isSome = none :: after := rfl
  rw [successes_cut, dropWhile_map_some, hnull, List.self_eq_append_right, hlost,
    List.forall_mem_cons]
  exact ⟨fun h => ⟨rfl, h⟩, fun h => h.2⟩

/-! ### One answer -/

section
variable {lib : Libfabric} {limit : Nat} {out : List Reaped} {contexts : List (Option Nat)}
  {read err provErrno : Int}

/-- A reap that has room asks for something. -/
theorem wanted_pos (hroom : out.length < limit) : 0 < wanted limit out := by
  unfold wanted cqBatch
  omega

/-- A batch without a null context is taken, and the reap goes on. -/
theorem reap_entries (hroom : out.length < limit)
    (hsound : (CqAnswer.entries contexts).Answers (wanted limit out)) {out' : List Reaped}
    (hpush : pushEntries out contexts = (out', .ok ())) (answers : List CqAnswer) :
    reap lib limit out (.entries contexts :: answers) = reap lib limit out' answers := by
  have hasked : ¬(contexts = [] ∨ min cqBatch (limit - out.length) < contexts.length) :=
    not_or.mpr ⟨hsound.1, Nat.not_lt.mpr hsound.2⟩
  rw [reap, if_neg (by omega)]
  simp only [if_neg hasked, hpush]

/-- A batch with a null context ends the reap, with what was in front of it. -/
theorem reap_entries_null (hroom : out.length < limit)
    (hsound : (CqAnswer.entries contexts).Answers (wanted limit out)) {out' : List Reaped}
    {error : DmaError} (hpush : pushEntries out contexts = (out', .error error)) :
    reap lib limit out [.entries contexts] = some (out', .error error) := by
  have hasked : ¬(contexts = [] ∨ min cqBatch (limit - out.length) < contexts.length) :=
    not_or.mpr ⟨hsound.1, Nat.not_lt.mpr hsound.2⟩
  rw [reap, if_neg (by omega)]
  simp only [if_neg hasked, hpush, if_true]

/-- An error entry that names its op. -/
theorem reap_available (hroom : out.length < limit) (hread : 0 < read) (c : Nat)
    (answers : List CqAnswer) :
    reap lib limit out (.available read (some c) err provErrno :: answers)
      = reap lib limit (out ++ [(c, .error (completionError lib err provErrno))]) answers := by
  rw [reap, if_neg (by omega)]
  simp only [if_neg (Int.not_le.mpr hread), nonNullContext]

/-- No error entry, or one that names no op. -/
theorem reap_available_none (lib : Libfabric) (hroom : out.length < limit) {context : Option Nat}
    (hnone : read ≤ 0 ∨ context = none) :
    ∃ error, reap lib limit out [.available read context err provErrno]
      = some (out, .error error) := by
  by_cases hread : read ≤ 0
  · refine ⟨fabricError lib (asI32 read) "fi_cq_readerr", ?_⟩
    rw [reap, if_neg (by omega)]
    simp only [if_pos hread, if_true]
  · obtain rfl := hnone.resolve_left hread
    refine ⟨.fabric "completion carried a null op_context", ?_⟩
    rw [reap, if_neg (by omega)]
    simp only [if_neg hread, nonNullContext, if_true]

/-- `-FI_EAGAIN`, or a failure of the queue. -/
theorem reap_code (lib : Libfabric) (hroom : out.length < limit)
    (hsound : (CqAnswer.code read).Answers (wanted limit out)) :
    ∃ result, reap lib limit out [.code read] = some (out, result) := by
  have hother : ¬(0 < read ∨ read = -fiEavail) := not_or.mpr ⟨Int.not_lt.mpr hsound.1, hsound.2⟩
  rw [reap, if_neg (by omega)]
  simp only [if_neg hother, if_true]
  split
  · exact ⟨_, rfl⟩
  · exact ⟨_, rfl⟩

end

/-! ### One call -/

/-- One call of `reap` with `out` reaped before: the answers it reads, each one to a read of
what is still wanted, and what it returns. -/
structure ReapRun (lib : Libfabric) (provider : Provider) (limit : Nat) (out : List Reaped)
    (answers : List CqAnswer) (result : List Reaped × Except DmaError Unit) : Prop where
  run : reap lib limit out answers = some result
  asked : ∀ i answer, answers[i]? = some answer →
    answer = provider.read i (wanted limit (out ++ (answers.take i).flatMap (CqAnswer.handed lib)))
  ends : answers.length ≤ limit - out.length
  kept : out <+: result.1
  appended : result.1 <+: out ++ answers.flatMap (CqAnswer.handed lib)
  bounded : out.length ≤ limit → result.1.length ≤ limit
  lossless : result.1 = out ++ answers.flatMap (CqAnswer.handed lib) ↔
    ∀ answer ∈ answers, answer.NullsLast

namespace ReapRun

variable {lib : Libfabric} {provider : Provider} {limit : Nat} {out : List Reaped}
  {answer : CqAnswer} {answers : List CqAnswer} {result : List Reaped × Except DmaError Unit}

/-- The batch is full, and nothing is read. -/
theorem full (hfull : limit ≤ out.length) : ReapRun lib provider limit out [] (out, .ok ()) where
  run := if_neg (by omega)
  asked := by simp
  ends := Nat.zero_le _
  kept := List.prefix_refl _
  appended := List.prefix_append _ _
  bounded := id
  lossless := by simp

/-- The answer ends the loop. -/
theorem stop (hroom : out.length < limit) (hanswer : answer = provider.read 0 (wanted limit out))
    (hrun : reap lib limit out [answer] = some result) (hkept : out <+: result.1)
    (happended : result.1 <+: out ++ answer.handed lib) (hbounded : result.1.length ≤ limit)
    (hlossless : result.1 = out ++ answer.handed lib ↔ answer.NullsLast) :
    ReapRun lib provider limit out [answer] result where
  run := hrun
  asked i answer' hget := by
    cases i with
    | zero =>
      cases hget
      simpa using hanswer
    | succ i => simp at hget
  ends := by
    show 1 ≤ _
    omega
  kept := hkept
  appended := by simpa using happended
  bounded _ := hbounded
  lossless := by simpa using hlossless

/-- The answer is handed on whole, and the loop reads on. -/
theorem cons (hroom : out.length < limit) (hanswer : answer = provider.read 0 (wanted limit out))
    (hgoes : ∀ answers, reap lib limit out (answer :: answers)
      = reap lib limit (out ++ answer.handed lib) answers)
    (hsome : answer.handed lib ≠ []) (hfits : (out ++ answer.handed lib).length ≤ limit)
    (hlast : answer.NullsLast)
    (h : ReapRun lib provider.next limit (out ++ answer.handed lib) answers result) :
    ReapRun lib provider limit out (answer :: answers) result where
  run := (hgoes answers).trans h.run
  asked i answer' hget := by
    cases i with
    | zero =>
      cases hget
      simpa using hanswer
    | succ i =>
      have hlater := h.asked i answer' hget
      rwa [List.append_assoc] at hlater
  ends := by
    have hends := h.ends
    have hpos := List.length_pos_of_ne_nil hsome
    rw [List.length_append] at hends hfits
    rw [List.length_cons]
    omega
  kept := (List.prefix_append _ _).trans h.kept
  appended := by
    have happended := h.appended
    rwa [List.append_assoc] at happended
  bounded _ := h.bounded hfits
  lossless := by
    rw [List.flatMap_cons, ← List.append_assoc, h.lossless, List.forall_mem_cons]
    exact ⟨fun hrest => ⟨hlast, hrest⟩, fun hall => hall.2⟩

/-- A batch of success entries. -/
theorem exists_of_entries {contexts : List (Option Nat)} (hroom : out.length < limit)
    (hanswer : .entries contexts = provider.read 0 (wanted limit out))
    (hnext : ∀ out', out.length < out'.length →
      ∃ answers result, ReapRun lib provider.next limit out' answers result) :
    ∃ answers result, ReapRun lib provider limit out answers result := by
  have hsound := provider.sound 0 _ (wanted_pos hroom)
  rw [← hanswer] at hsound
  have hlength : contexts.length ≤ limit - out.length :=
    Nat.le_trans hsound.2 (Nat.min_le_right _ _)
  cases hpush : pushEntries out contexts with
  | mk out' pushed =>
    cases pushed with
    | ok =>
      obtain ⟨before, rfl, rfl⟩ := pushEntries_ok hpush
      have hhanded : (CqAnswer.entries (before.map some)).handed lib
          = before.map fun c => (c, .ok ()) := successes_map_some before
      have hpos := List.length_pos_of_ne_nil hsound.1
      rw [List.length_map] at hlength hpos
      obtain ⟨answers, result, h⟩ := hnext (out ++ before.map fun c => (c, .ok ())) (by
        rw [List.length_append, List.length_map]
        omega)
      refine ⟨_, _, cons hroom hanswer (fun answers => ?_) ?_ ?_ ?_ (by rwa [hhanded])⟩
      · rw [hhanded]
        exact reap_entries hroom hsound hpush answers
      · rw [hhanded]
        exact List.ne_nil_of_length_pos (by rwa [List.length_map])
      · rw [hhanded, List.length_append, List.length_map]
        omega
      · intro context hcontext
        rw [← List.append_nil (before.map some), dropWhile_map_some] at hcontext
        cases hcontext
    | error error =>
      -- The batch is cut at a null, and the call returns.
      obtain ⟨before, after, rfl, rfl⟩ := pushEntries_error hpush
      rw [List.length_append, List.length_map] at hlength
      refine ⟨_, _, stop hroom hanswer (reap_entries_null hroom hsound hpush)
        (List.prefix_append _ _) ?_ ?_ ?_⟩
      · refine (List.prefix_append_right_inj _).mpr ?_
        rw [CqAnswer.handed, successes_cut]
        exact List.prefix_append _ _
      · rw [List.length_append, List.length_map]
        omega
      · rw [List.append_cancel_left_eq]
        exact cut_iff

/-- `-FI_EAVAIL`: the error queue is read. -/
theorem exists_of_available {context : Option Nat} {read err provErrno : Int}
    (hroom : out.length < limit)
    (hanswer : .available read context err provErrno = provider.read 0 (wanted limit out))
    (hnext : ∀ out', out.length < out'.length →
      ∃ answers result, ReapRun lib provider.next limit out' answers result) :
    ∃ answers result, ReapRun lib provider limit out answers result := by
  by_cases hnone : read ≤ 0 ∨ context = none
  · have hhanded : (CqAnswer.available read context err provErrno).handed lib = [] := by
      rcases hnone with hread | rfl
      · exact if_neg (Int.not_lt.mpr hread)
      · exact ite_self _
    obtain ⟨error, hreap⟩ := reap_available_none lib hroom hnone
    refine ⟨_, _, stop hroom hanswer hreap (List.prefix_refl _) (List.prefix_append _ _)
      (Nat.le_of_lt hroom) ?_⟩
    rw [hhanded, List.append_nil]
    exact ⟨fun _ => trivial, fun _ => rfl⟩
  · rw [not_or, Int.not_le] at hnone
    obtain ⟨hread, hsome⟩ := hnone
    obtain ⟨c, rfl⟩ := Option.ne_none_iff_exists'.mp hsome
    have hhanded : (CqAnswer.available read (some c) err provErrno).handed lib
        = [(c, .error (completionError lib err provErrno))] := if_pos hread
    obtain ⟨answers, result, h⟩ :=
      hnext (out ++ [(c, .error (completionError lib err provErrno))]) (by simp)
    refine ⟨_, _, cons hroom hanswer (fun answers => ?_) ?_ ?_ trivial (by rwa [hhanded])⟩
    · rw [hhanded]
      exact reap_available hroom hread c answers
    · rw [hhanded]
      exact List.cons_ne_nil _ _
    · rw [hhanded, List.length_append, List.length_singleton]
      exact hroom

/-- Any other code ends the loop. -/
theorem exists_of_code {read : Int} (hroom : out.length < limit)
    (hanswer : .code read = provider.read 0 (wanted limit out)) :
    ∃ answers result, ReapRun lib provider limit out answers result := by
  have hsound := provider.sound 0 _ (wanted_pos hroom)
  rw [← hanswer] at hsound
  obtain ⟨result, hreap⟩ := reap_code lib hroom hsound
  have hhanded : (CqAnswer.code read).handed lib = [] := rfl
  refine ⟨_, _, stop hroom hanswer hreap (List.prefix_refl _) (List.prefix_append _ _)
    (Nat.le_of_lt hroom) ?_⟩
  rw [hhanded, List.append_nil]
  exact ⟨fun _ => trivial, fun _ => rfl⟩

end ReapRun

/-- The loop ends with every provider: it reads no more answers than there is room for. -/
theorem exists_reapRun (lib : Libfabric) (provider : Provider) (limit : Nat) (out : List Reaped) :
    ∃ answers result, ReapRun lib provider limit out answers result := by
  -- Each answer that is read on after fills `out` up by one at least.
  induction hfree : limit - out.length using Nat.strong_induction_on generalizing provider out with
  | _ free ih =>
    by_cases hroom : out.length < limit
    · have hnext : ∀ out', out.length < out'.length →
          ∃ answers result, ReapRun lib provider.next limit out' answers result :=
        fun out' hlonger => ih (limit - out'.length) (by omega) provider.next out' rfl
      cases hanswer : provider.read 0 (wanted limit out) with
      | entries contexts => exact ReapRun.exists_of_entries hroom hanswer.symm hnext
      | available read context err provErrno =>
        exact ReapRun.exists_of_available hroom hanswer.symm hnext
      | code read => exact ReapRun.exists_of_code hroom hanswer.symm
    · exact ⟨_, _, .full (by omega)⟩

/-- Reaping against every provider: the loop ends, appends nothing but what was handed over, in
order, and does not pass its limit. It appends all of it exactly when no batch that was read
has an `op_context` after a null one. -/
theorem reap_keeps_all (lib : Libfabric) (provider : Provider) (limit : Nat) (out : List Reaped) :
    ∃ answers result,
      (reap lib limit out answers = some result ∧ answers.length ≤ limit - out.length ∧
        ∀ i answer, answers[i]? = some answer → answer = provider.read i
          (wanted limit (out ++ (answers.take i).flatMap (CqAnswer.handed lib)))) ∧
      (out <+: result.1 ∧ result.1 <+: out ++ answers.flatMap (CqAnswer.handed lib) ∧
        (out.length ≤ limit → result.1.length ≤ limit)) ∧
      (result.1 = out ++ answers.flatMap (CqAnswer.handed lib) ↔
        ∀ answer ∈ answers, answer.NullsLast) := by
  obtain ⟨answers, result, h⟩ := exists_reapRun lib provider limit out
  exact ⟨answers, result, ⟨h.run, h.ends, h.asked⟩, ⟨h.kept, h.appended, h.bounded⟩, h.lossless⟩

/-- A queue whose batches have a null between two ops. -/
def nullBetween : Provider where
  read _ want := if want < 3 then .code (-fiEagain) else .entries [some 1, none, some 2]
  sound _ want _ := by
    split
    · exact ⟨by decide, by decide⟩
    · exact ⟨List.cons_ne_nil _ _, by show 3 ≤ want; omega⟩

/-- The queue has handed over both ops of the batch, and `reap` returns with the first. -/
theorem reap_loses_op :
    wanted 10 [] = 10 ∧
      reap default 10 [] [nullBetween.read 0 10]
        = some ([(1, .ok ())], .error (.fabric "completion carried a null op_context")) ∧
      (2, .ok ()) ∈ [nullBetween.read 0 10].flatMap (CqAnswer.handed default) ∧
      [(1, .ok ())] ≠ [nullBetween.read 0 10].flatMap (CqAnswer.handed default) :=
  ⟨rfl, rfl, by decide, by decide⟩

end Vdma.Fabric
