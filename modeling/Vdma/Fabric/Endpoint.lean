import Vdma.Fabric.LocalRegions
import Vdma.Fabric.PeerAddresses

/-!
# `Vdma.Fabric.Endpoint`: posting and reaping

An endpoint posts one-sided operations and reaps their completions. What libfabric
has been given and has not handed back is `Wire.posts`, and `Wire.history` keeps
every post and every reap in order.

`reap` is `LibfabricEndpoint::reap` against a list of answers of the completion
queue. An op's `op_context` is the address of its `InFlight` box. A null one is
`none`.
-/

set_option autoImplicit false

namespace Vdma.Fabric

/-- What `LibfabricEndpoint::open` found: the domain it opened, and what the provider
asks for and offers. -/
structure Device where
  domain : Domain
  requiresLocalMr : Bool
  maxTx : Nat
  format : AddressFormat

/-- The in-flight cap, clamped to the provider's transmit-queue depth. A depth of 0 is
no fixed depth. -/
def inFlightCap (device : Device) (configured : Option Nat) : Nat :=
  let requested := max (configured.getD 64) 1
  match device.maxTx with
  | 0 => requested
  | hardware => min requested hardware

/-- The three uses of `fi_writemsg` and `fi_read`. -/
inductive PostKind where
  | write
  | read
  /-- The read back of a write's last byte. -/
  | quiesce
  deriving DecidableEq, Repr

/-- An operation as it was posted. `client` is the op's client, and `quiesces` says
whether its quiesce read was still to come. libfabric sees neither. -/
structure PostedOp where
  context : Nat
  kind : PostKind
  client : ClientId
  quiesces : Bool
  entry : Nat
  remoteKey : UInt64
  remoteAddress : UInt64
  pointer : Nat
  length : Nat
  descriptor : Option Nat
  deriving DecidableEq, Repr

/-- A post that returned 0, or a completion handed back. -/
inductive Report where
  | posted (op : PostedOp)
  | reaped (op : PostedOp) (ok : Bool)
  deriving DecidableEq, Repr

/-- What libfabric holds, and what it has been through. -/
structure Wire where
  posts : List PostedOp
  history : List Report

/-- A reaped completion: the `op_context` and the result. -/
abbrev Reaped := Nat × Except DmaError Unit

namespace Wire

/-- Nothing posted yet. -/
def empty : Wire := { posts := [], history := [] }

/-- A post that returned 0. -/
def post (w : Wire) (op : PostedOp) : Wire :=
  { posts := w.posts ++ [op], history := w.history ++ [.posted op] }

/-- Takes the reaped ops out of what libfabric holds. `none` when one of them was not
there. -/
def claim : List PostedOp → List Reaped → Option (List PostedOp × List PostedOp)
  | posts, [] => some ([], posts)
  | posts, (context, _) :: reaped =>
    match posts.find? fun op => op.context = context with
    | none => none
    | some op =>
      (claim (posts.eraseP fun op => op.context = context) reaped).map fun claimed =>
        (op :: claimed.1, claimed.2)

/-- The completions of `reaped` leave libfabric. -/
def take (w : Wire) (reaped : List Reaped) : Option Wire :=
  (claim w.posts reaped).map fun claimed =>
    { posts := claimed.2
      history := w.history ++ List.zipWith (fun op r => .reaped op r.2.isOk) claimed.1 reaped }

/-- What is claimed leaves the posts, in the order it was reaped in. -/
theorem claim_spec {posts : List PostedOp} {reaped : List Reaped}
    {claimed : List PostedOp × List PostedOp} (h : claim posts reaped = some claimed) :
    claimed.1.map PostedOp.context = reaped.map Prod.fst ∧ posts.Perm (claimed.1 ++ claimed.2) := by
  induction reaped generalizing posts claimed with
  | nil =>
    cases h
    exact ⟨rfl, .refl _⟩
  | cons r reaped ih =>
    obtain ⟨context, result⟩ := r
    simp only [claim] at h
    split at h
    · cases h
    · next op hfind =>
      rw [Option.map_eq_some_iff] at h
      obtain ⟨rest, hrest, rfl⟩ := h
      obtain ⟨hcontexts, hperm⟩ := ih hrest
      have hcontext : op.context = context := by simpa using List.find?_some hfind
      -- `find?` and `eraseP` meet the same post.
      obtain ⟨-, before, after, rfl, hbefore⟩ := List.find?_eq_some_iff_append.mp hfind
      have herase : (before ++ op :: after).eraseP (fun op => decide (op.context = context))
          = before ++ after := by
        rw [List.eraseP_append_right _ (by simpa using hbefore),
          List.eraseP_cons_of_pos (by simpa using hcontext)]
      rw [herase] at hperm
      refine ⟨by simp [hcontext, hcontexts], ?_⟩
      exact List.perm_middle.trans (hperm.cons op)

/-- What `take` moves from the posts to the history. -/
theorem take_spec {w w' : Wire} {reaped : List Reaped} (h : w.take reaped = some w') :
    ∃ claimed : List PostedOp, claimed.map PostedOp.context = reaped.map Prod.fst ∧
      w.posts.Perm (claimed ++ w'.posts) ∧
      w'.history = w.history ++ List.zipWith (fun op r => .reaped op r.2.isOk) claimed reaped := by
  unfold take at h
  rw [Option.map_eq_some_iff] at h
  obtain ⟨claimed, hclaim, rfl⟩ := h
  obtain ⟨hcontexts, hperm⟩ := claim_spec hclaim
  exact ⟨claimed.1, hcontexts, hperm, rfl⟩

/-- Each reaped completion is reported for the post of its context. -/
theorem reported_of_take {w w' : Wire} {reaped : List Reaped} (h : w.take reaped = some w')
    {r : Reaped} (hr : r ∈ reaped) :
    ∃ op ∈ w.posts, op.context = r.1 ∧ .reaped op r.2.isOk ∈ w'.history := by
  obtain ⟨claimed, hcontexts, hperm, hhistory⟩ := take_spec h
  have hlength : claimed.length = reaped.length := by simpa using congrArg List.length hcontexts
  obtain ⟨i, hi, rfl⟩ := List.getElem_of_mem hr
  have hclaimed : i < claimed.length := by omega
  refine ⟨claimed[i], ?_, ?_, ?_⟩
  · exact hperm.mem_iff.mpr (List.mem_append_left _ (List.getElem_mem hclaimed))
  · have hcontext := congrArg (fun l => l[i]?) hcontexts
    simpa [List.getElem?_map, List.getElem?_eq_getElem, hi, hclaimed] using hcontext
  · rw [hhistory]
    refine List.mem_append_right _ ?_
    have hzip :
        i < (List.zipWith (fun op r => Report.reaped op r.2.isOk) claimed reaped).length := by
      rw [List.length_zipWith]
      omega
    have hmem := List.getElem_mem hzip
    rwa [List.getElem_zipWith] at hmem

/-- A reaped op was reported before, or was posted and is reported now. -/
theorem reaped_of_take {w w' : Wire} {reaped : List Reaped} (h : w.take reaped = some w')
    {op : PostedOp} {ok : Bool} (hreport : .reaped op ok ∈ w'.history) :
    .reaped op ok ∈ w.history ∨
      op ∈ w.posts ∧ ∃ r ∈ reaped, r.1 = op.context ∧ r.2.isOk = ok := by
  obtain ⟨claimed, hcontexts, hperm, hhistory⟩ := take_spec h
  rw [hhistory] at hreport
  rcases List.mem_append.mp hreport with hold | hnew
  · exact .inl hold
  · obtain ⟨i, hi, hget⟩ := List.getElem_of_mem hnew
    rw [List.length_zipWith] at hi
    rw [List.getElem_zipWith] at hget
    cases hget
    have hclaimed : i < claimed.length := by omega
    have hreaped : i < reaped.length := by omega
    have hcontext : claimed[i].context = reaped[i].1 := by
      have hget := congrArg (fun l => l[i]?) hcontexts
      simpa [hclaimed, hreaped] using hget
    exact .inr ⟨hperm.mem_iff.mpr (List.mem_append_left _ (List.getElem_mem hclaimed)), reaped[i],
      List.getElem_mem hreaped, hcontext.symm, rfl⟩

/-- Taking completions reports no post. -/
theorem posted_of_take {w w' : Wire} {reaped : List Reaped} (h : w.take reaped = some w')
    {post : PostedOp} (hreport : .posted post ∈ w'.history) : .posted post ∈ w.history := by
  obtain ⟨claimed, -, -, hhistory⟩ := take_spec h
  rw [hhistory] at hreport
  rcases List.mem_append.mp hreport with hold | hnew
  · exact hold
  · obtain ⟨i, hi, hget⟩ := List.getElem_of_mem hnew
    rw [List.getElem_zipWith] at hget
    cases hget

end Wire

/-- One answer of the completion queue. -/
inductive CqAnswer where
  /-- `fi_cq_read` returns entries. -/
  | entries (contexts : List (Option Nat))
  /-- `fi_cq_read` returns `-FI_EAVAIL`, and `fi_cq_readerr` returns `read`. -/
  | available (read : Int) (context : Option Nat) (err provErrno : Int)
  /-- `fi_cq_read` returns another code that is not positive. -/
  | code (code : Int)
  deriving DecidableEq, Repr

/-- The `op_context`s an answer hands over. -/
def CqAnswer.contexts : CqAnswer → List (Option Nat)
  | .entries contexts => contexts
  | .available read context _ _ => if 0 < read then [context] else []
  | .code _ => []

/-- Guard a completion's `op_context` before it is reclaimed. -/
def nonNullContext (context : Option Nat) : Except DmaError Nat :=
  match context with
  | none => .error (.fabric "completion carried a null op_context")
  | some context => .ok context

/-- The most entries one `fi_cq_read` asks for. -/
def cqBatch : Nat := 16

/-- Appends success entries, up to the first null context. -/
def pushEntries (out : List Reaped) : List (Option Nat) → List Reaped × Except DmaError Unit
  | [] => (out, .ok ())
  | entry :: entries =>
    match nonNullContext entry with
    | .error error => (out, .error error)
    | .ok context => pushEntries (out ++ [(context, .ok ())]) entries

/-- Reap ready completions onto `out`, up to `max` or until the queue is empty. The
answers are those of the reads the loop makes, one each. `none` when there are too few
or too many, or when a read returns more entries than it was asked for. -/
def reap (lib : Libfabric) (max : Nat) :
    List Reaped → List CqAnswer → Option (List Reaped × Except DmaError Unit)
  | out, [] => if out.length < max then none else some (out, .ok ())
  | out, answer :: answers =>
    if max ≤ out.length then none
    else
      -- The loop is left here, so no read may follow.
      let stop (out : List Reaped) (result : Except DmaError Unit) :=
        if answers = [] then some (out, result) else none
      match answer with
      | .entries contexts =>
        if contexts = [] ∨ min cqBatch (max - out.length) < contexts.length then none
        else
          match pushEntries out contexts with
          | (out, .ok ()) => reap lib max out answers
          | (out, .error error) => stop out (.error error)
      | .available read context err provErrno =>
        -- The error entry itself could not be read, and names no op.
        if read ≤ 0 then stop out (.error (fabricError lib (asI32 read) "fi_cq_readerr"))
        else
          match nonNullContext context with
          | .error error => stop out (.error error)
          | .ok context =>
            -- One op failed. The queue is read on.
            reap lib max (out ++ [(context, .error (completionError lib err provErrno))]) answers
      | .code code =>
        if 0 < code ∨ code = -fiEavail then none
        else if code = -fiEagain then stop out (.ok ())
        else stop out (.error (fabricError lib (asI32 code) "fi_cq_read"))

/-- A batch adds at most what it has. -/
theorem pushEntries_length {out out' : List Reaped} {contexts : List (Option Nat)}
    {result : Except DmaError Unit} (h : pushEntries out contexts = (out', result)) :
    out'.length ≤ out.length + contexts.length := by
  induction contexts generalizing out with
  | nil =>
    cases h
    exact Nat.le_refl _
  | cons entry entries ih =>
    simp only [pushEntries] at h
    split at h
    · cases h
      omega
    · have hle := ih h
      simp only [List.length_append, List.length_cons, List.length_nil] at hle ⊢
      omega

/-- `reap` hands over no more than it was asked for. -/
theorem reap_length {lib : Libfabric} {max : Nat} {out reaped : List Reaped}
    {answers : List CqAnswer} {result : Except DmaError Unit} (hout : out.length ≤ max)
    (h : reap lib max out answers = some (reaped, result)) : reaped.length ≤ max := by
  induction answers generalizing out with
  | nil =>
    simp only [reap] at h
    split at h <;> cases h
    exact hout
  | cons answer answers ih =>
    simp only [reap] at h
    split at h
    · cases h
    · split at h
      · split at h
        · cases h
        · next hasked =>
          split at h
          · next out' hpush =>
            have hle := pushEntries_length hpush
            exact ih (by omega) h
          · next out' error hpush =>
            have hle := pushEntries_length hpush
            split at h <;> cases h
            omega
      · split at h
        · split at h <;> cases h
          exact hout
        · split at h
          · split at h <;> cases h
            exact hout
          · refine ih ?_ h
            rw [List.length_append, List.length_singleton]
            omega
      · split at h
        · cases h
        · split at h <;> split at h <;> cases h <;> exact hout

end Vdma.Fabric
