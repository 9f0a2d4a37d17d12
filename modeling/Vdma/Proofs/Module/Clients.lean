import Vdma.Proofs.Module.AllOrNothing

/-!
# `Vdma.Proofs.Module.Clients`: each blocked client is answered once

A command that blocks its client leaves the answer to the completion of its transfer. The client is
named in the transfer's token, and nowhere else. `State.waiting` counts the tokens of a client at a
device: in a transfer that was counted and is yet to be sent, or in one that was sent and whose
completion is yet to be finished.

`Tokens` is the law. A client has one token, at the device its command chose, until it is answered,
and none from then on. Nothing hands a token out twice: `finish` takes a completion by its number,
and each number was sent once.
-/

set_option autoImplicit false

namespace Vdma.Module

open Vdma.Lib Vdma.Fabric

/-- The client that a token is for. -/
def OpToken.blocked : OpToken → Nat
  | .get blocked _ => blocked
  | .set blocked _ _ _ _ => blocked

/-- The client that a transfer is for. -/
abbrev clientOf (request : TransferRequest (Tagged OpToken)) : Nat :=
  request.callerContext.user.blocked

namespace State

/-- Whether the completion of a transfer is yet to be finished. -/
def isUnfinished (s : State) (device : Nat) (request : TransferRequest (Tagged OpToken)) : Bool :=
  s.finished.all fun done => done ≠ (device, request.number)

/-- The transfers that were sent to a device and are yet to be finished. -/
def unfinished (s : State) (device : Nat) : List (TransferRequest (Tagged OpToken)) :=
  (s.fabrics device).callers.sent.filter (s.isUnfinished device)

/-- The tokens of a client at a device. -/
def waiting (s : State) (device blocked : Nat) : Nat :=
  ((s.fabrics device).callers.submitting.map fun request =>
      request.callerContext.blocked).count blocked
    + ((s.unfinished device).map clientOf).count blocked

/-- A transfer is unfinished until its number is among the finished ones. -/
@[simp] theorem isUnfinished_iff {s : State} {device : Nat}
    {request : TransferRequest (Tagged OpToken)} :
    s.isUnfinished device request = true ↔ (device, request.number) ∉ s.finished := by
  simp only [isUnfinished, List.all_eq_true, decide_eq_true_eq]
  exact ⟨fun h hmem => h _ hmem rfl, fun h done hdone heq => h (heq ▸ hdone)⟩

/-- The replies to a client. -/
def answers (s : State) (blocked : Nat) : Nat := (s.replies.map PendingReply.blocked).count blocked

end State

/-- The token of a client is at its command's device till the client is answered. -/
structure Tokens (s : State) : Prop where
  blocked : ∀ blocked command, s.commands[blocked]? = some command →
    s.answers blocked + s.waiting command.device blocked = 1
  elsewhere : ∀ device blocked,
    (∀ command, s.commands[blocked]? = some command → command.device ≠ device) →
      s.waiting device blocked = 0
  unknown : ∀ blocked, s.commands.length ≤ blocked → s.answers blocked = 0

/-! ### One finished transfer less -/

/-- Taking one element with a key of its own out of a filtered list. -/
theorem count_filter_ne {α β γ : Type} [DecidableEq β] [DecidableEq γ] {key : α → β} {f : α → γ}
    {p : α → Bool} {l : List α} {a : α} (hnodup : (l.map key).Nodup) (ha : a ∈ l)
    (hp : p a = true) (c : γ) :
    ((l.filter p).map f).count c
      = ((l.filter fun b => key a != key b && p b).map f).count c + if f a = c then 1 else 0 := by
  obtain ⟨before, after, rfl⟩ := List.append_of_mem ha
  have hother : ∀ b ∈ before ++ after, key b ≠ key a := by
    intro b hb heq
    have hmoved := (List.perm_middle.map key).nodup_iff.mp hnodup
    rw [List.map_cons, List.nodup_cons] at hmoved
    exact hmoved.1 (heq ▸ List.mem_map_of_mem hb)
  -- The rest of the list keeps what it had.
  have hsame : ∀ l' : List α, (∀ b ∈ l', b ∈ before ++ after) →
      (l'.filter fun b => key a != key b && p b) = l'.filter p := by
    intro l' hl'
    refine List.filter_congr fun b hb => ?_
    have hne : (key a != key b) = true := bne_iff_ne.mpr (hother b (hl' b hb)).symm
    rw [hne, Bool.true_and]
  rw [List.filter_append, List.filter_append, List.filter_cons_of_pos hp,
    List.filter_cons_of_neg (by simp), hsame before fun b hb => List.mem_append_left _ hb,
    hsame after fun b hb => List.mem_append_right _ hb]
  simp only [List.map_append, List.map_cons, List.count_append, List.count_cons, beq_iff_eq]
  omega

/-! ### The clients of a service -/

section
variable {devices : Devices} {s s' : State}

/-- Resolving an operand keeps the client of the token. -/
theorem blocked_resolveOperand (direction : Direction) (token : OpToken) :
    (resolveOperand direction token).2.blocked = token.blocked := by
  cases direction with
  | toPeer =>
    simp only [resolveOperand]
    split <;> rfl
  | fromPeer length =>
    have hallocate : (OpToken.allocate token length).2.blocked = token.blocked := by
      cases token with
      | get blocked held => rfl
      | set blocked destination key expected landing =>
        simp only [OpToken.allocate]
        split <;> rfl
    have hsame :
        (resolveOperand (.fromPeer length) token).2 = (OpToken.allocate token length).2 := by
      simp only [resolveOperand]
      split
      · next landing user hallocated =>
        split <;> exact (congrArg Prod.snd hallocated).symm
      · next user hallocated => exact (congrArg Prod.snd hallocated).symm
    rw [hsame, hallocate]

/-- A command asks with the token of the client it blocks. -/
theorem Command.Asks.blocked {command : Command} {blocked : Nat}
    {request : TransferRequest OpToken} (h : command.Asks blocked request) :
    request.callerContext.blocked = blocked := by
  obtain ⟨-, -, -, hkind⟩ := h
  cases command with
  | get device advertisement capacity length =>
    obtain ⟨-, -, held, hcontext, -⟩ := hkind
    rw [hcontext]
    rfl
  | set device advertisement key length expected =>
    obtain ⟨-, -, landing, hcontext⟩ := hkind
    rw [hcontext]
    rfl

/-- A finished number was sent. -/
theorem lt_arrivals_of_finished (h : (system devices).Reachable s) {device number : Nat}
    (hfinished : (device, number) ∈ s.finished) :
    number < (s.fabrics device).callers.arrivals := by
  obtain ⟨c, hc, rfl⟩ := (landed_reach h).finished device number hfinished
  obtain ⟨request, hrequest, hnumber, -, -⟩ :=
    completion_of_sent h (List.mem_append_right _ hc)
  rw [← hnumber]
  exact (owned_reach (fabric_reach h device)).2.numbered request hrequest

/-- The reply of a finished transfer goes to the client of its token. -/
theorem blocked_finishUnderGil (memory : Nat → UInt8) (stores : Bool) (keyspace : Keyspace)
    (token : OpToken) (outcome : Outcome) :
    (finishUnderGil memory stores keyspace token outcome).1.blocked = token.blocked := by
  cases token <;> rfl

/-- One more reply is one more answer to its client. -/
theorem State.answers_append {reply : PendingReply} (h : s'.replies = s.replies ++ [reply])
    (blocked : Nat) :
    s'.answers blocked = s.answers blocked + if reply.blocked = blocked then 1 else 0 := by
  simp only [State.answers, h, List.map_append, List.map_cons, List.map_nil, List.count_append,
    List.count_singleton, beq_iff_eq]

/-- The tokens of a device are those of its transfers. -/
theorem State.waiting_congr {device : Nat}
    (hsubmitting : (s'.fabrics device).callers.submitting = (s.fabrics device).callers.submitting)
    (hsent : (s'.fabrics device).callers.sent = (s.fabrics device).callers.sent)
    (hfinished : ∀ number, (device, number) ∈ s'.finished ↔ (device, number) ∈ s.finished)
    (blocked : Nat) : s'.waiting device blocked = s.waiting device blocked := by
  have hunfinished : s'.unfinished device = s.unfinished device := by
    simp only [State.unfinished, hsent]
    refine List.filter_congr fun request _ => ?_
    rw [Bool.eq_iff_iff, State.isUnfinished_iff, State.isUnfinished_iff, hfinished]
  simp only [State.waiting, hsubmitting, hunfinished]

/-- A service that moves leaves the tokens of the others. -/
theorem State.waiting_of_other {device : Nat} (hother : s'.fabrics device = s.fabrics device)
    (hfinished : s'.finished = s.finished) (blocked : Nat) :
    s'.waiting device blocked = s.waiting device blocked :=
  State.waiting_congr (by rw [hother]) (by rw [hother]) (fun _ => by rw [hfinished]) blocked

end

namespace Tokens

variable {devices : Devices} {s s' : State} {e : Event}

/-- A step that adds no command, no reply and no transfer. -/
theorem of_kept (h : Tokens s) (hcommands : s'.commands = s.commands)
    (hanswers : ∀ blocked, s'.answers blocked = s.answers blocked)
    (hwaiting : ∀ device blocked, s'.waiting device blocked = s.waiting device blocked) :
    Tokens s' := by
  refine ⟨?_, ?_, ?_⟩
  · intro blocked command hcommand
    rw [hanswers, hwaiting]
    exact h.blocked blocked command (hcommands ▸ hcommand)
  · intro device blocked hnot
    rw [hwaiting]
    exact h.elsewhere device blocked fun command hcommand => hnot command (hcommands ▸ hcommand)
  · intro blocked hblocked
    rw [hanswers]
    exact h.unknown blocked (hcommands ▸ hblocked)

/-- A client is blocked, and has the token of its command or the reply to it. -/
theorem of_blocked (h : Tokens s) {command : Command}
    (hcommands : s'.commands = s.commands ++ [command])
    (hnew : s'.answers s.commands.length + s'.waiting command.device s.commands.length
      = s.answers s.commands.length + s.waiting command.device s.commands.length + 1)
    (hanswers : ∀ blocked, blocked ≠ s.commands.length → s'.answers blocked = s.answers blocked)
    (hwaiting : ∀ device blocked, device ≠ command.device ∨ blocked ≠ s.commands.length →
      s'.waiting device blocked = s.waiting device blocked) : Tokens s' := by
  have hlast : s.commands[s.commands.length]? = none := List.getElem?_eq_none (Nat.le_refl _)
  -- The clients there were have the commands they had.
  have hold : ∀ blocked, blocked ≠ s.commands.length →
      s'.commands[blocked]? = s.commands[blocked]? := by
    intro blocked hblocked
    rw [hcommands]
    by_cases hlt : blocked < s.commands.length
    · exact List.getElem?_append_left hlt
    · rw [List.getElem?_eq_none (by rw [List.length_append, List.length_singleton]; omega),
        List.getElem?_eq_none (by omega)]
  refine ⟨?_, ?_, ?_⟩
  · intro blocked command' hcommand'
    by_cases hblocked : blocked = s.commands.length
    · subst hblocked
      rw [hcommands, List.getElem?_concat_length] at hcommand'
      cases hcommand'
      rw [hnew, h.unknown _ (Nat.le_refl _),
        h.elsewhere command.device _ fun command' hcommand' => by
          rw [hlast] at hcommand'
          cases hcommand']
    · rw [hanswers blocked hblocked, hwaiting command'.device blocked (.inr hblocked)]
      exact h.blocked blocked command' ((hold blocked hblocked).symm.trans hcommand')
  · intro device blocked hnot
    by_cases hblocked : blocked = s.commands.length
    · subst hblocked
      have hdevice := hnot command (by rw [hcommands, List.getElem?_concat_length])
      rw [hwaiting device _ (.inl hdevice.symm)]
      refine h.elsewhere device _ fun command' hcommand' => ?_
      rw [hlast] at hcommand'
      cases hcommand'
    · rw [hwaiting device blocked (.inr hblocked)]
      exact h.elsewhere device blocked fun command' hcommand' =>
        hnot command' ((hold blocked hblocked).trans hcommand')
  · intro blocked hlength
    rw [hcommands, List.length_append, List.length_singleton] at hlength
    rw [hanswers blocked (by omega)]
    exact h.unknown blocked (by omega)

/-- A client is answered, and gives its token up. -/
theorem of_answered (h : Tokens s) {client : Nat} {command : Command}
    (hcommand : s.commands[client]? = some command) (hcommands : s'.commands = s.commands)
    (hanswers : ∀ blocked,
      s'.answers blocked = s.answers blocked + if client = blocked then 1 else 0)
    (htoken : ∀ blocked, s.waiting command.device blocked
      = s'.waiting command.device blocked + if client = blocked then 1 else 0)
    (hwaiting : ∀ device blocked, device ≠ command.device →
      s'.waiting device blocked = s.waiting device blocked) : Tokens s' := by
  -- Nobody waits for more than before: only this client's token is gone.
  have hless : ∀ device blocked, s'.waiting device blocked ≤ s.waiting device blocked := by
    intro device blocked
    by_cases hdevice : device = command.device
    · rw [hdevice, htoken]
      omega
    · exact (hwaiting device blocked hdevice).le
  refine ⟨?_, ?_, ?_⟩
  · -- A client that is in the list has one reply or one standing token, and the answered one
    -- changes from the second to the first.
    intro blocked command' hcommand'
    rw [hcommands] at hcommand'
    have hone := h.blocked blocked command' hcommand'
    have hnow := hanswers blocked
    by_cases hdevice : command'.device = command.device
    · have hgone := htoken blocked
      rw [hdevice] at hone ⊢
      omega
    · -- The client at another device is another client.
      have hother : client ≠ blocked := by
        rintro rfl
        rw [hcommand] at hcommand'
        cases hcommand'
        exact hdevice rfl
      rw [if_neg hother] at hnow
      rw [hwaiting _ _ hdevice, hnow]
      exact hone
  · -- Away from its own device a client still waits for nothing.
    intro device blocked hnot
    rw [hcommands] at hnot
    exact Nat.le_zero.mp ((hless device blocked).trans_eq (h.elsewhere device blocked hnot))
  · -- A token no command goes with is not the answered client's.
    intro blocked hlength
    rw [hcommands] at hlength
    have hother : client ≠ blocked := by
      have hclient := (List.getElem?_eq_some_iff.mp hcommand).1
      omega
    rw [hanswers, if_neg hother, h.unknown blocked hlength]

end Tokens

/-! ### Steps -/

section
variable {setup : Setup} {f f' : Fabric.State OpToken}

/-- A transfer that is counted is yet to be sent. -/
theorem callers_of_submit {request : TransferRequest OpToken}
    (h : f.step setup (.submit request) = some f') :
    f'.callers.submitting = f.callers.submitting ++ [request] ∧
      f'.callers.sent = f.callers.sent := by
  simp only [Fabric.State.step] at h
  split at h
  · cases h
    exact ⟨rfl, rfl⟩
  · cases h

/-- A transfer that is sent gets the next number. -/
theorem callers_of_send {i : Nat} (hs : Settled f) (h : f.step setup (.send i) = some f') :
    ∃ request, f.callers.submitting[i]? = some request ∧
      f'.callers.submitting = f.callers.submitting.eraseIdx i ∧
      f'.callers.sent
        = f.callers.sent ++ [Fabric.State.tagRequest f.callers.arrivals request] := by
  simp only [Fabric.State.step, Fabric.State.stepSend] at h
  split at h
  · cases h
  · next request hi =>
    split at h
    · next hexited =>
      -- Nothing is left to be sent to a worker that is gone.
      have hnone := hs.submitting (hs.quiet (by rw [hexited]; rfl)).service
      rw [hnone] at hi
      cases hi
    · cases h
      exact ⟨request, hi, rfl, rfl⟩

end

section
variable {devices : Devices} {s s' : State} {e : Event}

/-- Sending a transfer keeps its token. -/
theorem waiting_of_send (hreach : (system devices).Reachable s) {device i : Nat}
    {fabric : Fabric.State OpToken}
    (hstep : (s.fabrics device).step (devices.setup device) (.send i) = some fabric)
    (blocked : Nat) :
    (s.withFabric device fabric).waiting device blocked = s.waiting device blocked := by
  obtain ⟨hs, -⟩ := owned_reach (fabric_reach hreach device)
  obtain ⟨request, hi, hsubmitting, hsent⟩ := callers_of_send hs hstep
  have hself : (s.withFabric device fabric).fabrics device = fabric := Function.update_self ..
  -- The number is new, so it is not finished.
  have hunfinished : (s.withFabric device fabric).unfinished device
      = s.unfinished device
        ++ [Fabric.State.tagRequest (s.fabrics device).callers.arrivals request] := by
    have hopen : s.isUnfinished device
        (Fabric.State.tagRequest (s.fabrics device).callers.arrivals request) = true := by
      rw [State.isUnfinished_iff]
      intro hfinished
      exact lt_irrefl _ (lt_arrivals_of_finished hreach hfinished)
    show (((s.withFabric device fabric).fabrics device).callers.sent.filter
      (s.isUnfinished device)) = _
    rw [hself, hsent, List.filter_append, List.filter_cons_of_pos hopen, List.filter_nil]
    rfl
  obtain ⟨hlt, hget⟩ := List.getElem?_eq_some_iff.mp hi
  have hperm := ((List.getElem_cons_eraseIdx_perm hlt).map
    fun request => request.callerContext.blocked).count_eq blocked
  rw [hget, List.map_cons, List.count_cons] at hperm
  have hclient : clientOf (Fabric.State.tagRequest (s.fabrics device).callers.arrivals request)
      = request.callerContext.blocked := rfl
  simp only [State.waiting, hunfinished, hself, hsubmitting, List.map_append, List.map_cons,
    List.map_nil, List.count_append, List.count_singleton, hclient]
  omega

/-- Finishing a completion leaves the other transfers unfinished. -/
theorem unfinished_of_finish {device number : Nat} (hfabrics : s'.fabrics = s.fabrics)
    (hfinished : s'.finished = s.finished ++ [(device, number)]) :
    s'.unfinished device = (s.unfinished device).filter fun other => number != other.number := by
  simp only [State.unfinished, hfabrics, List.filter_filter]
  refine List.filter_congr fun other _ => ?_
  rw [Bool.eq_iff_iff]
  simp only [State.isUnfinished_iff, hfinished, Bool.and_eq_true, bne_iff_ne, List.mem_append,
    List.mem_singleton, Prod.mk.injEq, true_and, not_or, ne_eq, and_comm, eq_comm (a := number)]

/-- Finishing a completion takes the token of its transfer. -/
theorem waiting_of_finish (hreach : (system devices).Reachable s) {device : Nat}
    {request : TransferRequest (Tagged OpToken)}
    (hrequest : request ∈ (s.fabrics device).callers.sent)
    (hopen : (device, request.number) ∉ s.finished)
    (hfabrics : s'.fabrics = s.fabrics)
    (hfinished : s'.finished = s.finished ++ [(device, request.number)]) (blocked : Nat) :
    s.waiting device blocked
      = s'.waiting device blocked + if clientOf request = blocked then 1 else 0 := by
  have hcount : ((s.unfinished device).map clientOf).count blocked
      = ((s'.unfinished device).map clientOf).count blocked
        + if clientOf request = blocked then 1 else 0 := by
    rw [unfinished_of_finish hfabrics hfinished, State.unfinished, List.filter_filter]
    exact count_filter_ne (owned_reach (fabric_reach hreach device)).2.unique hrequest
      (State.isUnfinished_iff.mpr hopen) blocked
  simp only [State.waiting, hcount, hfabrics]
  omega

/-- Every step keeps the tokens. -/
theorem Tokens.step (h : Tokens s) (hreach : (system devices).Reachable s)
    (hstep : Steps devices s e s') : Tokens s' := by
  cases hstep with
  | answered next harrives | write memory hkeeps | keyspace keyspace =>
    -- None of these moves replies to anybody or takes a transfer.
    exact h.of_kept rfl (fun _ => rfl) fun _ _ => rfl
  | gone next command request harrives hasks =>
    refine h.of_blocked rfl ?_ ?_ fun _ _ _ => rfl
    · -- The client has its reply already.
      show State.answers _ _ + s.waiting _ _ = _
      rw [State.answers_append (s := s) rfl, blocked_finishUnderGil, hasks.blocked, if_pos rfl]
      omega
    · intro blocked hblocked
      rw [State.answers_append (s := s) rfl, blocked_finishUnderGil, hasks.blocked,
        if_neg hblocked.symm, Nat.add_zero]
  -- The transfer is counted: one more token at the chosen device, and one more client.
  | submitted next command request fabric harrives hasks hstep =>
    obtain ⟨hsubmitting, hsent⟩ := callers_of_submit hstep
    have hself : (({ s with next := next, commands := s.commands ++ [command] } :
        State).withFabric command.device fabric).fabrics command.device = fabric :=
      Function.update_self ..
    have htoken : ∀ blocked, (({ s with next := next, commands := s.commands ++ [command] } :
        State).withFabric command.device fabric).waiting command.device blocked
        = s.waiting command.device blocked
          + if s.commands.length = blocked then 1 else 0 := by
      intro blocked
      have hunfinished : (({ s with next := next, commands := s.commands ++ [command] } :
          State).withFabric command.device fabric).unfinished command.device
          = s.unfinished command.device := by
        simp only [State.unfinished, hself, hsent]
        rfl
      simp only [State.waiting, hunfinished, hself, hsubmitting, List.map_append, List.map_cons,
        List.map_nil, List.count_append, List.count_singleton, hasks.blocked, beq_iff_eq]
      omega
    refine h.of_blocked rfl ?_ (fun _ _ => rfl) ?_
    · rw [htoken, if_pos rfl]
      show s.answers _ + (s.waiting _ _ + 1) = _
      omega
    · intro device blocked hother
      by_cases hdevice : device = command.device
      · rw [hdevice, htoken, if_neg (hother.resolve_left (not_not.mpr hdevice)).symm]
        rfl
      · refine State.waiting_of_other ?_ ?_ blocked
        · exact Function.update_of_ne hdevice ..
        · rfl
  | send device i fabric hstep =>
    -- Sending takes the transfer from one list to the other, and both are counted.
    refine h.of_kept rfl (fun _ => rfl) fun d blocked => ?_
    by_cases hd : d = device
    · rw [hd]
      exact waiting_of_send hreach hstep blocked
    · refine State.waiting_of_other ?_ ?_ blocked
      · exact Function.update_of_ne hd ..
      · rfl
  | fabric device move fabric hown hstep =>
    obtain ⟨hs, ho⟩ := owned_reach (fabric_reach hreach device)
    -- A worker, a hook's job or a hello changes neither list, and no reply.
    obtain ⟨hsubmitting, hsent, -⟩ := callers_of_own hs ho hown hstep
    refine h.of_kept rfl (fun _ => rfl) fun d blocked => ?_
    by_cases hd : d = device
    · have hself : (s.withFabric device fabric).fabrics d = fabric := by
        rw [hd]
        exact Function.update_self ..
      refine State.waiting_congr ?_ ?_ ?_ blocked
      · exact (congrArg (fun f => f.callers.submitting) hself).trans (hd ▸ hsubmitting)
      · exact (congrArg (fun f => f.callers.sent) hself).trans (hd ▸ hsent)
      · exact fun _ => Iff.rfl
    · refine State.waiting_of_other ?_ ?_ blocked
      · exact Function.update_of_ne hd ..
      · rfl
  | finish device index stores completion hdelivered hopen =>
    obtain ⟨request, hrequest, hnumber, -, hreturned, client, command, hcommand, rfl, hasks⟩ :=
      request_of_finished hreach hdelivered
    -- The completion comes back with the token the client's transfer was sent with.
    have hclient : clientOf request = client := hasks.blocked
    have huser : completion.callerContext.user.blocked = client := by
      rw [hreturned, ← hclient]
      exact blocked_resolveOperand _ _
    refine h.of_answered hcommand rfl ?_ ?_ ?_
    · intro blocked
      rw [State.answers_append (s := s) rfl, blocked_finishUnderGil, huser]
    · intro blocked
      rw [← hclient]
      refine waiting_of_finish hreach hrequest (hnumber ▸ hopen) ?_ ?_ blocked
      · rfl
      · rw [hnumber]
    · intro d blocked hd
      refine State.waiting_congr ?_ ?_ ?_ blocked
      · rfl
      · rfl
      · intro number
        simp [hd]

/-- In every run each client has its token or its reply. -/
theorem tokens_reach (h : (system devices).Reachable s) : Tokens s := by
  refine h.invariant_given (J := fun s => (system devices).Reachable s) (I := Tokens)
    (fun s hs => hs) ?_ ?_
  · intro s hinit
    obtain ⟨hfabrics, -, hcommands, -, hfinished, hreplies⟩ := hinit
    refine ⟨?_, ?_, ?_⟩
    · intro blocked command hcommand
      rw [hcommands] at hcommand
      cases hcommand
    · intro device blocked _
      simp [State.waiting, State.unfinished, hfabrics, Fabric.State.start]
    · intro blocked _
      simp [State.answers, hreplies]
  · intro s e s' hs _ _ hstep htokens
    exact htokens.step hs (steps_of_step hstep)

/-- Whether a client was answered, and its token otherwise. -/
inductive Standing (s : State) (blocked : Nat) (command : Command) : Prop where
  /-- There is one reply, and the token is gone. -/
  | answered (hreply : (s.replies.filter fun reply => reply.blocked = blocked).length = 1)
      (htoken : ∀ device, s.waiting device blocked = 0)
  /-- There is no reply, and one token, which is at the command's device. -/
  | waiting (hreply : ∀ reply ∈ s.replies, reply.blocked ≠ blocked)
      (htoken : s.waiting command.device blocked = 1)
      (hothers : ∀ device, device ≠ command.device → s.waiting device blocked = 0)

/-- The answers to a client are its replies. -/
theorem State.answers_eq (s : State) (blocked : Nat) :
    s.answers blocked = (s.replies.filter fun reply => reply.blocked = blocked).length := by
  rw [State.answers, List.count, List.countP_map, List.countP_eq_length_filter]
  rfl

/-- Each command has one token, and so stands in one place. -/
theorem Tokens.standing (h : Tokens s) {blocked : Nat} {command : Command}
    (hcommand : s.commands[blocked]? = some command) : Standing s blocked command := by
  have hone := h.blocked blocked command hcommand
  have hothers : ∀ device, device ≠ command.device → s.waiting device blocked = 0 := by
    intro device hdevice
    refine h.elsewhere device blocked fun command' hcommand' => ?_
    rw [hcommand] at hcommand'
    cases hcommand'
    exact hdevice.symm
  by_cases hwaiting : s.waiting command.device blocked = 0
  · refine .answered ?_ fun device => ?_
    · rw [← State.answers_eq]
      omega
    · by_cases hdevice : device = command.device
      · rw [hdevice, hwaiting]
      · exact hothers device hdevice
  · refine .waiting (fun reply hreply heq => ?_) (by omega) hothers
    have hpos : 0 < s.answers blocked := by
      rw [State.answers, List.count_pos_iff]
      exact List.mem_map.mpr ⟨reply, hreply, heq⟩
    omega

/-- In every run a blocked client is answered at most once. While it is not, exactly one transfer
is there to answer it, at the device of its command: one that is counted and yet to be sent, or was
sent and is yet to be finished. Nobody else is answered. -/
theorem answered_once (h : (system devices).Reachable s) :
    (∀ blocked command, s.commands[blocked]? = some command → Standing s blocked command) ∧
      ∀ reply ∈ s.replies, reply.blocked < s.commands.length := by
  have htokens := tokens_reach h
  refine ⟨fun blocked command => htokens.standing, fun reply hreply => ?_⟩
  by_contra hunknown
  have hnone := htokens.unknown reply.blocked (Nat.le_of_not_lt hunknown)
  rw [State.answers, List.count_eq_zero] at hnone
  exact hnone (List.mem_map_of_mem hreply)

end

/-- After a `DMA.SET` its client waits for the one transfer. -/
theorem answered_once_set :
    ∃ s : State, s.replies = [] ∧ s.waiting 0 0 = 1 ∧
      Standing s 0 (.set 0 checkAdvertisement [107] 9 (some 0xe3069283)) := by
  obtain ⟨s₁, s₂, s, hready, hset, hlands, hreplies, hwaiting, hcommand⟩ :
      ∃ s₁ s₂ s : State, (system checkDevices).run loaded getsReady = some s₁ ∧
        (s₁.dmaSet checkDevices checkCall checkAdvertisement [107] 9 (some 0xe3069283)).map
          Prod.fst = some s₂ ∧
        (system checkDevices).run s₂ lands = some s ∧ s.replies = [] ∧ s.waiting 0 0 = 1 ∧
        s.commands[0]? = some (.set 0 checkAdvertisement [107] 9 (some 0xe3069283)) :=
    ⟨_, _, _, rfl, rfl, rfl, rfl, rfl, rfl⟩
  exact ⟨s, hreplies, hwaiting, (answered_once (reachable_lands hready hset hlands)).1 0 _ hcommand⟩

end Vdma.Module
