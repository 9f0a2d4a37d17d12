import Mathlib.Order.Filter.AtTopBot.Basic
import Mathlib.Order.Filter.Finite
import Vdma.Proofs.Module.Clients
import Vdma.Proofs.Module.LeastLoaded
import Vdma.Proofs.Worker.Liveness

/-!
# `Vdma.Proofs.Module.Answered`: every blocked client is answered

`Fair` is what the host has to do for that: each thread that runs a command goes on, so does each
worker and its pool, a delivered completion is finished in time, a posted operation is reported in
time if the worker reads the completion queue, and the clock passes every reading.

An execution of the module, seen at one device, is an execution of the device's service
(`exists_service`). Once no commands arrive, the counted transfers are sent. From then on the
service's callers are done, so the service comes to rest and delivers what was sent. Then the
completions are finished, and no token is left.
-/

set_option autoImplicit false

namespace Vdma.Module

open Vdma.Lib Vdma.Fabric

/-- What a step of the module is to the service of a device. -/
def Seen (device : Nat) : Event → Option (Move OpToken) → Prop
  | .set _ _, move => move = none ∨ ∃ request, move = some (.submit request)
  | .get _ _, move => move = none ∨ ∃ request, move = some (.submit request)
  | .send d i, move => move = if d = device then some (.send i) else none
  | .fabric d own, move => move = if d = device then some own else none
  | .finish _ _ _, move => move = none
  | .write memory, move => move = some (.write memory)
  | .keyspace _, move => move = none

/-- Whoever has something to do for a device in use gets round to it. -/
structure Fair {devices : Devices} (x : (system devices).Execution) : Prop where
  send : ∀ device, device < devices.count → x.FairTo fun e => ∃ i, e = .send device i
  worker : ∀ device, device < devices.count →
    x.FairTo fun e => ∃ answer, e = .fabric device (.worker answer)
  pool : ∀ device, device < devices.count →
    x.FairTo fun e => ∃ move, e = .fabric device move ∧ move.isPool = true
  finish : ∀ device, device < devices.count →
    x.FairTo fun e => ∃ index stores, e = .finish device index stores
  provider : ∀ device, device < devices.count →
    ∀ k, ∀ op ∈ ((x.state k).fabrics device).wire.posts,
      (∀ l, ∃ m answers, l ≤ m ∧ x.label m = some (.fabric device (.worker (.cq answers)))) →
        ∃ m, k ≤ m ∧ op ∉ ((x.state m).fabrics device).wire.posts
  clock : ∀ device, device < devices.count → ∀ time, ∃ k, ∀ m code first now, k ≤ m →
    x.label m = some (.fabric device (.worker (.rma code first now))) → time ≤ now

/-- No more commands arrive, and nobody else asks the services for anything. -/
def Subsides {devices : Devices} (x : (system devices).Execution) (n : Nat) : Prop :=
  ∀ m e, n ≤ m → x.label m = some e →
    e.arrives = false ∧ ∀ device move, e = .fabric device move → move.isCaller = false

section
variable {devices : Devices} {s s' : State} {e : Event} {x : (system devices).Execution} {n : Nat}
  {device : Nat}

/-! ### One service -/

/-- Each step is one of a service, or leaves it. -/
theorem seen_of_steps (h : Steps devices s e s') (device : Nat) :
    ∃ move, Seen device e move ∧ Machine.Stutters (service OpToken (devices.setup device))
      (s.fabrics device) move (s'.fabrics device) := by
  -- A service moves, and the others stay.
  have hupdate : ∀ (d : Nat) (fabric : Fabric.State OpToken) (move : Move OpToken),
      (s.fabrics d).step (devices.setup d) move = some fabric →
      Machine.Stutters (service OpToken (devices.setup device)) (s.fabrics device)
        (if d = device then some move else none)
        (Function.update s.fabrics d fabric device) := by
    intro d fabric move hstep
    by_cases hd : d = device
    · subst hd
      rw [if_pos rfl, Function.update_self]
      exact hstep
    · rw [if_neg hd, Function.update_of_ne (Ne.symm hd)]
      exact rfl
  cases h with
  | answered next harrives | gone next command request harrives hasks =>
    refine ⟨none, ?_, rfl⟩
    cases e with
    | set | get => exact .inl rfl
    | _ => cases harrives
  | submitted next command request fabric harrives hasks hstep =>
    refine ⟨_, ?_, hupdate command.device fabric (.submit request) hstep⟩
    have hseen : (if command.device = device then some (Move.submit request) else none) = none ∨
        ∃ request', (if command.device = device then some (Move.submit request) else none)
          = some (.submit request') := by
      split
      · exact .inr ⟨request, rfl⟩
      · exact .inl rfl
    cases e with
    | set | get => exact hseen
    | _ => cases harrives
  | send d i fabric hstep => exact ⟨_, rfl, hupdate d fabric (.send i) hstep⟩
  | fabric d move fabric hown hstep => exact ⟨_, rfl, hupdate d fabric move hstep⟩
  | finish d index stores completion hdelivered hopen | keyspace keyspace =>
    exact ⟨none, rfl, rfl⟩
  | write memory hkeeps => exact ⟨some (.write memory), rfl, rfl⟩

/-- What the service of a device does in an execution of the module. -/
structure IsPart (x : (system devices).Execution) (device : Nat)
    (y : (service OpToken (devices.setup device)).Execution) : Prop where
  state : ∀ n, y.state n = (x.state n).fabrics device
  idle : ∀ n, x.label n = none → y.label n = none
  seen : ∀ n e, x.label n = some e → Seen device e (y.label n)

/-- An execution of the module is one of each of its services. -/
theorem exists_service (x : (system devices).Execution) (device : Nat) :
    ∃ y : (service OpToken (devices.setup device)).Execution, IsPart x device y := by
  obtain ⟨y, hstate, hidle, hseen⟩ :=
    x.exists_projection (fun s => s.fabrics device) (fun _ => Seen device) (x.starts.1 device)
      fun n e hlabel => seen_of_steps (steps_of_step (x.steps n e hlabel)) device
  exact ⟨y, hstate, hidle, hseen⟩

/-- A service that can move by itself can do so in the module. -/
theorem enabled_fabric {move : Move OpToken} (hown : isOwn move = true)
    (h : (service OpToken (devices.setup device)).Enabled (s.fabrics device) move) :
    (system devices).Enabled s (.fabric device move) := by
  show (s.step devices (.fabric device move)).isSome = true
  simp only [State.step, hown, if_true, Option.isSome_map]
  exact h

namespace IsPart

variable {y : (service OpToken (devices.setup device)).Execution}

/-- What the module has a service do is what the service does. -/
theorem label_of_fabric (h : IsPart x device y) {move : Move OpToken}
    (hlabel : x.label n = some (.fabric device move)) : y.label n = some move :=
  (h.seen n _ hlabel).trans (if_pos rfl)

/-- A service's own moves are labels of the module. -/
theorem fabric_of_label (h : IsPart x device y) {move : Move OpToken} (hown : isOwn move = true)
    (hlabel : y.label n = some move) : x.label n = some (.fabric device move) := by
  cases hx : x.label n with
  | none =>
    rw [h.idle n hx] at hlabel
    cases hlabel
  | some e =>
    have hseen := h.seen n e hx
    rw [hlabel] at hseen
    cases e with
    | set | get =>
      rcases hseen with hnone | ⟨request, hsubmit⟩
      · cases hnone
      · cases hsubmit
        cases hown
    | send d i =>
      simp only [Seen] at hseen
      split at hseen
      · cases hseen
        cases hown
      · cases hseen
    | fabric d own =>
      simp only [Seen] at hseen
      split at hseen
      · next hd =>
        cases hseen
        rw [hd]
      · cases hseen
    | finish | keyspace => cases hseen
    | write memory =>
      cases hseen
      cases hown

/-- A service of a fair execution is live. -/
theorem live (h : IsPart x device y) (hfair : Fair x) (hdevice : device < devices.count) :
    Live y := by
  refine ⟨?_, ?_, ?_, ?_⟩
  · intro n hmoves
    have hmoves' : ∀ m, n ≤ m → (system devices).CanMove
        (fun e => ∃ answer, e = .fabric device (.worker answer)) (x.state m) := by
      intro m hm
      obtain ⟨move, hworker, henabled⟩ := hmoves m hm
      rw [h.state] at henabled
      cases move with
      | worker answer => exact ⟨_, ⟨answer, rfl⟩, enabled_fabric rfl henabled⟩
      | _ => cases hworker
    obtain ⟨m, e, hm, ⟨answer, rfl⟩, hlabel⟩ := hfair.worker device hdevice n hmoves'
    exact ⟨m, .worker answer, hm, rfl, h.label_of_fabric hlabel⟩
  · intro n hmoves
    have hmoves' : ∀ m, n ≤ m → (system devices).CanMove
        (fun e => ∃ move, e = .fabric device move ∧ move.isPool = true) (x.state m) := by
      intro m hm
      obtain ⟨move, hpool, henabled⟩ := hmoves m hm
      rw [h.state] at henabled
      cases move with
      | hash i | finish i => exact ⟨_, ⟨_, rfl, hpool⟩, enabled_fabric rfl henabled⟩
      | _ => cases hpool
    obtain ⟨m, e, hm, ⟨move, rfl, hpool⟩, hlabel⟩ := hfair.pool device hdevice n hmoves'
    exact ⟨m, move, hm, hpool, h.label_of_fabric hlabel⟩
  · intro k op hop hreads
    rw [h.state] at hop
    have hreads' : ∀ l, ∃ m answers, l ≤ m ∧
        x.label m = some (.fabric device (.worker (.cq answers))) := by
      intro l
      obtain ⟨m, answers, hm, hlabel⟩ := hreads l
      exact ⟨m, answers, hm, h.fabric_of_label rfl hlabel⟩
    obtain ⟨m, hm, hgone⟩ := hfair.provider device hdevice k op hop hreads'
    exact ⟨m, hm, by rwa [h.state]⟩
  · intro time
    obtain ⟨k, hk⟩ := hfair.clock device hdevice time
    exact ⟨k, fun m code first now hm hlabel =>
      hk m code first now hm (h.fabric_of_label rfl hlabel)⟩

end IsPart

/-! ### What is left to be done for a device -/

/-- Without a command, only a send changes what was counted and what was sent. -/
theorem callers_of_steps (hreach : (system devices).Reachable s) (h : Steps devices s e s')
    (harrives : e.arrives = false) (device : Nat) :
    ((∃ i, e = .send device i) → (s'.fabrics device).callers.submitting.length
        < (s.fabrics device).callers.submitting.length) ∧
      ((¬∃ i, e = .send device i) →
        (s'.fabrics device).callers.submitting = (s.fabrics device).callers.submitting ∧
          (s'.fabrics device).callers.sent = (s.fabrics device).callers.sent) := by
  cases h with
  | answered next harrives' | gone next command request harrives' hasks
  | submitted next command request fabric harrives' hasks hstep =>
    rw [harrives] at harrives'
    cases harrives'
  | finish | write | keyspace => exact ⟨by simp, fun _ => ⟨rfl, rfl⟩⟩
  | send d i fabric hstep =>
    by_cases hd : device = d
    · subst hd
      obtain ⟨request, hi, hsubmitting, -⟩ :=
        callers_of_send (owned_reach (fabric_reach hreach device)).1 hstep
      refine ⟨fun _ => ?_, fun hnot => absurd ⟨i, rfl⟩ hnot⟩
      have hlt := (List.getElem?_eq_some_iff.mp hi).1
      show (Function.update s.fabrics device fabric device).callers.submitting.length < _
      rw [Function.update_self, hsubmitting, List.length_eraseIdx_of_lt hlt]
      omega
    · refine ⟨fun ⟨j, hj⟩ => ?_, fun _ => ?_⟩
      · cases hj
        exact absurd rfl hd
      · show (Function.update s.fabrics d fabric device).callers.submitting = _ ∧
          (Function.update s.fabrics d fabric device).callers.sent = _
        rw [Function.update_of_ne hd]
        exact ⟨rfl, rfl⟩
  | fabric d move fabric hown hstep =>
    refine ⟨by simp, fun _ => ?_⟩
    show (Function.update s.fabrics d fabric device).callers.submitting = _ ∧
      (Function.update s.fabrics d fabric device).callers.sent = _
    by_cases hd : device = d
    · subst hd
      obtain ⟨hs, ho⟩ := owned_reach (fabric_reach hreach device)
      obtain ⟨hsubmitting, hsent, -⟩ := callers_of_own hs ho hown hstep
      rw [Function.update_self]
      exact ⟨hsubmitting, hsent⟩
    · rw [Function.update_of_ne hd]
      exact ⟨rfl, rfl⟩

/-- Once nothing is left to be sent, only finishing a completion changes what is unfinished. -/
theorem unfinished_of_steps (hreach : (system devices).Reachable s) (h : Steps devices s e s')
    (harrives : e.arrives = false) (hsubmitting : (s.fabrics device).callers.submitting = []) :
    ((∃ index stores, e = .finish device index stores) →
        (s'.unfinished device).length < (s.unfinished device).length) ∧
      ((¬∃ index stores, e = .finish device index stores) →
        s'.unfinished device = s.unfinished device) := by
  obtain ⟨hsends, hsame⟩ := callers_of_steps hreach h harrives device
  have hsent : (s'.fabrics device).callers.sent = (s.fabrics device).callers.sent := by
    refine (hsame fun hsend => ?_).2
    have hlt := hsends hsend
    rw [hsubmitting] at hlt
    cases hlt
  have hkept : s'.finished = s.finished → s'.unfinished device = s.unfinished device := by
    intro hfinished
    simp only [State.unfinished, hsent]
    exact List.filter_congr fun request _ => by
      rw [Bool.eq_iff_iff, State.isUnfinished_iff, State.isUnfinished_iff, hfinished]
  cases h with
  | answered next harrives' | gone next command request harrives' hasks
  | submitted next command request fabric harrives' hasks hstep =>
    rw [harrives] at harrives'
    cases harrives'
  | send | fabric | write | keyspace => exact ⟨by simp, fun _ => hkept rfl⟩
  | finish d index stores completion hdelivered hopen =>
    by_cases hd : d = device
    · subst hd
      obtain ⟨request, hrequest, hnumber, -⟩ := request_of_finished hreach hdelivered
      have hfewer : ∀ t : State, t.fabrics = s.fabrics →
          t.finished = s.finished ++ [(d, completion.number)] →
            (t.unfinished d).length < (s.unfinished d).length := by
        intro t hfabrics hfinished
        rw [unfinished_of_finish hfabrics hfinished]
        -- The transfer of the completion is the one that goes.
        refine List.length_filter_lt_length_iff_exists.mpr ⟨request, ?_, by simp [hnumber]⟩
        rw [State.unfinished, List.mem_filter]
        exact ⟨hrequest, by simpa [hnumber] using hopen⟩
      exact ⟨fun _ => hfewer _ rfl rfl, fun hnot => absurd ⟨index, stores, rfl⟩ hnot⟩
    · refine ⟨?_, fun _ => ?_⟩
      · rintro ⟨index', stores', heq⟩
        cases heq
        exact absurd rfl hd
      · simp only [State.unfinished]
        refine List.filter_congr fun request _ => ?_
        rw [Bool.eq_iff_iff]
        simp [Ne.symm hd]

/-- A transfer that is counted can be sent. -/
theorem submitting_of_stuck (hreach : (system devices).Reachable s)
    (h : ¬(system devices).CanMove (fun e => ∃ i, e = .send device i) s) :
    (s.fabrics device).callers.submitting = [] := by
  by_contra hsubmitting
  obtain ⟨request, rest, hcons⟩ := List.exists_cons_of_ne_nil hsubmitting
  have hs := (owned_reach (fabric_reach hreach device)).1
  refine h ⟨.send device 0, ⟨0, rfl⟩, ?_⟩
  show (s.step devices (.send device 0)).isSome = true
  simp only [State.step]
  split
  · next hexited =>
    exact absurd (hs.submitting (hs.quiet (by rw [hexited]; rfl)).service) hsubmitting
  · simp only [Fabric.State.step, Fabric.State.stepSend, hcons, List.getElem?_cons_zero,
      Option.isSome_map]
    rfl

/-- A delivered completion can be finished until one with its number was. -/
theorem finish_enabled_iff {device index : Nat} {stores : Bool} :
    (system devices).Enabled s (.finish device index stores) ↔
      ∃ c, (s.fabrics device).delivered[index]? = some c ∧ (device, c.number) ∉ s.finished := by
  change (s.step devices (.finish device index stores)).isSome = true ↔ _
  simp only [State.step]
  cases hdelivered : (s.fabrics device).delivered[index]? with
  | none => simp
  | some c =>
    simp only [Option.some.injEq, exists_eq_left']
    by_cases hfinished : (device, c.number) ∈ s.finished
    · simp [hfinished]
    · simp [hfinished]

/-- Finishing uses a delivered completion up, and that one only: no two completions of a device
have one number. -/
theorem finish_once (h : (system devices).Reachable s) {device index : Nat} {stores : Bool}
    (hstep : (system devices).step s (.finish device index stores) = some s')
    (device' index' : Nat) (stores' : Bool) :
    (system devices).Enabled s' (.finish device' index' stores') ↔
      (device', index') ≠ (device, index) ∧
        (system devices).Enabled s (.finish device' index' stores') := by
  cases steps_of_step hstep with
  | answered next harrives | gone next command request harrives
  | submitted next command request fabric harrives => cases harrives
  | finish _ _ _ c hdelivered hopen =>
    rw [finish_enabled_iff, finish_enabled_iff]
    have hnodup := (owned_reach (fabric_reach h device)).2.delivered_nodup
    constructor
    · rintro ⟨c', hdelivered', hopen'⟩
      obtain ⟨hold, hnew⟩ := not_or.mp (mt List.mem_append.mpr hopen')
      refine ⟨fun hsame => hnew ?_, c', hdelivered', hold⟩
      obtain ⟨rfl, rfl⟩ := Prod.mk.inj hsame
      cases hdelivered.symm.trans hdelivered'
      exact List.mem_singleton_self _
    · rintro ⟨hother, c', hdelivered', hopen'⟩
      refine ⟨c', hdelivered', ?_⟩
      rw [List.mem_append, not_or, List.mem_singleton]
      refine ⟨hopen', fun hsame => hother ?_⟩
      -- A completion with the same number of the same device is at the same place.
      obtain ⟨rfl, hnumber⟩ := Prod.mk.inj hsame
      have hplaces : ((s.fabrics device').delivered.map Completion.number)[index']?
          = ((s.fabrics device').delivered.map Completion.number)[index]? := by
        rw [List.getElem?_map, List.getElem?_map, hdelivered, hdelivered', Option.map_some,
          Option.map_some, hnumber]
      have hlt : index' < ((s.fabrics device').delivered.map Completion.number).length := by
        rw [List.length_map]
        exact (List.getElem?_eq_some_iff.mp hdelivered').1
      rw [(List.getElem?_inj hlt hnodup).mp hplaces]

/-- With the service at rest and its pool dry, every transfer that was sent can be finished. -/
theorem unfinished_of_stuck (hreach : (system devices).Reachable s)
    (hrest : (s.fabrics device).AtRest) (hpool : (s.fabrics device).pool = [])
    (h : ¬(system devices).CanMove (fun e => ∃ index stores, e = .finish device index stores) s) :
    s.unfinished device = [] := by
  by_contra hunfinished
  obtain ⟨request, hrequest⟩ := List.exists_mem_of_ne_nil _ hunfinished
  rw [State.unfinished, List.mem_filter] at hrequest
  obtain ⟨hsent, hopen⟩ := hrequest
  obtain ⟨hs, ho⟩ := owned_reach (fabric_reach hreach device)
  have hperm := hrest.perm hs ho hpool
  obtain ⟨c, hc, hcontext⟩ :=
    List.mem_map.mp (hperm.mem_iff.mpr (List.mem_map_of_mem (f := returned) hsent))
  obtain ⟨index, hindex⟩ := List.getElem?_of_mem hc
  refine h ⟨.finish device index true, ⟨index, true, rfl⟩,
    finish_enabled_iff.mpr ⟨c, hindex, ?_⟩⟩
  have hnumber : c.number = request.number := by
    rw [Completion.number, hcontext]
    rfl
  rw [hnumber]
  simpa using hopen

/-! ### The end of it -/

/-- The counted transfers of a device are sent in time. -/
theorem Fair.sends (hfair : Fair x) (hsubsides : Subsides x n) (hdevice : device < devices.count) :
    ∃ N, n ≤ N ∧ ∀ k, N ≤ k → ((x.state k).fabrics device).callers.submitting = [] := by
  have hsteps : ∀ m e, n ≤ m → x.label m = some e → _ ∧ _ := fun m e hm hlabel =>
    callers_of_steps (x.reachable m) (steps_of_step (x.steps m e hlabel))
      (hsubsides m e hm hlabel).1 device
  obtain ⟨N, hN, hstuck⟩ := x.runs_out (hfair.send device hdevice)
    (fun s => (s.fabrics device).callers.submitting.length)
    (fun m e hm hnot hlabel => (congrArg List.length ((hsteps m e hm hlabel).2 hnot).1).le)
    (fun m e hm he hlabel => (hsteps m e hm hlabel).1 he)
  refine ⟨N, hN, fun k hk => ?_⟩
  refine x.stays (P := fun s => (s.fabrics device).callers.submitting = [])
    (submitting_of_stuck (x.reachable N) hstuck) (fun m e hm hlabel hnil => ?_) hk
  obtain ⟨hsend, hkept⟩ := hsteps m e (by omega) hlabel
  refine (hkept fun he => ?_).1.trans hnil
  -- There is nothing to send.
  have hlt := hsend he
  rw [hnil] at hlt
  cases hlt

/-- With nothing counted, and no more commands, the callers of a service are done. -/
theorem IsPart.calm {y : (service OpToken (devices.setup device)).Execution} (h : IsPart x device y)
    (hsubsides : Subsides x n)
    (hsubmitting : ∀ k, n ≤ k → ((x.state k).fabrics device).callers.submitting = []) :
    Calm y n := by
  intro m move hm hlabel
  cases hcaller : move.isCaller with
  | false => rfl
  | true =>
    exfalso
    cases hx : x.label m with
    | none =>
      rw [h.idle m hx] at hlabel
      cases hlabel
    | some e =>
      obtain ⟨harrives, hothers⟩ := hsubsides m e hm hx
      have hseen := h.seen m e hx
      rw [hlabel] at hseen
      cases e with
      | set | get => cases harrives
      | send d i =>
        simp only [Seen] at hseen
        split at hseen
        · cases hseen
          have hstep : (y.state m).step (devices.setup device) (.send i) = some (y.state (m + 1)) :=
            y.steps m _ hlabel
          obtain ⟨request, hi, -⟩ := callers_of_send (owned_reach (y.reachable m)).1 hstep
          rw [h.state, hsubmitting m hm] at hi
          cases hi
        · cases hseen
      | fabric d own =>
        simp only [Seen] at hseen
        split at hseen
        · cases hseen
          rw [hothers d _ rfl] at hcaller
          cases hcaller
        · cases hseen
      | finish | keyspace => cases hseen
      | write memory =>
        cases hseen
        cases hcaller

/-- In time the service of a device is at rest, with nothing in its pool and nothing to send. -/
theorem Fair.rests (hfair : Fair x) (hsubsides : Subsides x n) (hdevice : device < devices.count) :
    ∃ N, n ≤ N ∧ ∀ k, N ≤ k → ((x.state k).fabrics device).AtRest ∧
      ((x.state k).fabrics device).pool = [] ∧
      ((x.state k).fabrics device).callers.submitting = [] := by
  obtain ⟨N₁, hN₁, hsubmitting⟩ := hfair.sends hsubsides hdevice
  obtain ⟨y, hy⟩ := exists_service x device
  have hlive := hy.live hfair hdevice
  have hsubsides₁ : Subsides x N₁ := fun m e hm => hsubsides m e (by omega)
  have hcalm := hy.calm hsubsides₁ hsubmitting
  obtain ⟨N, hN, hrests⟩ := hlive.rests hcalm
  refine ⟨N, by omega, fun k hk => ?_⟩
  rw [← hy.state]
  obtain ⟨hrest, hdry⟩ := hrests k hk
  exact ⟨hrest, hdry, by rw [hy.state]; exact hsubmitting k (by omega)⟩

/-- In time nothing is left to be done for a device. -/
theorem Fair.finishes (hfair : Fair x) (hsubsides : Subsides x n)
    (hdevice : device < devices.count) :
    ∃ N, ∀ k, N ≤ k → ∀ blocked, (x.state k).waiting device blocked = 0 := by
  obtain ⟨M, hM, hrests⟩ := hfair.rests hsubsides hdevice
  have hsteps : ∀ m e, M ≤ m → x.label m = some e → _ ∧ _ := fun m e hm hlabel =>
    unfinished_of_steps (x.reachable m) (steps_of_step (x.steps m e hlabel))
      (hsubsides m e (by omega) hlabel).1 (hrests m hm).2.2
  obtain ⟨N, hN, hstuck⟩ := x.runs_out (hfair.finish device hdevice)
    (fun s => (s.unfinished device).length)
    (fun m e hm hnot hlabel => (congrArg List.length ((hsteps m e hm hlabel).2 hnot)).le)
    (fun m e hm he hlabel => (hsteps m e hm hlabel).1 he)
  obtain ⟨hrest, hpool, -⟩ := hrests N hN
  have hunfinished : ∀ k, N ≤ k → (x.state k).unfinished device = [] := fun k hk => by
    refine x.stays (P := fun s => s.unfinished device = [])
      (unfinished_of_stuck (x.reachable N) hrest hpool hstuck) (fun m e hm hlabel hnil => ?_) hk
    obtain ⟨hfinish, hkept⟩ := hsteps m e (by omega) hlabel
    refine (hkept fun he => ?_).trans hnil
    -- There is nothing to finish.
    have hlt := hfinish he
    rw [hnil] at hlt
    cases hlt
  refine ⟨N, fun k hk blocked => ?_⟩
  simp only [State.waiting, hunfinished k hk, (hrests k (by omega)).2.2, List.map_nil,
    List.count_nil]

/-- What comes true for each device in time comes true for all of them. -/
theorem exists_forall_device {P : Nat → Nat → Prop}
    (h : ∀ device, device < devices.count → ∃ N, ∀ k, N ≤ k → P device k) (n : Nat) :
    ∃ N, n ≤ N ∧ ∀ k, N ≤ k → ∀ device, device < devices.count → P device k := by
  -- The devices are finitely many.
  have hall : ∀ᶠ k in Filter.atTop, ∀ device ∈ Finset.range devices.count, P device k := by
    rw [Filter.eventually_all_finset]
    intro device hdevice
    exact Filter.eventually_atTop.mpr (h device (Finset.mem_range.mp hdevice))
  obtain ⟨N, hN⟩ := Filter.eventually_atTop.mp hall
  refine ⟨max n N, by omega, fun k hk device hdevice => ?_⟩
  exact hN k (by omega) device (Finset.mem_range.mpr hdevice)

/-! ### The devices of the commands -/

/-- The commands are for devices that were discovered. -/
def Discovered (devices : Devices) (s : State) : Prop :=
  ∀ command ∈ s.commands, command.device < devices.count

/-- Only a device that was discovered is chosen. -/
theorem leastLoadedServer_lt {services : Except DmaError Unit} {device : Nat}
    (h : (s.leastLoadedServer devices services).2 = .ok device) : device < devices.count := by
  unfold State.leastLoadedServer at h
  split at h
  · cases h
  · dsimp only at h
    split at h
    · next chosen hleast =>
      cases h
      exact List.mem_range.mp (List.argmin_mem hleast)
    · cases h

/-- The device of a new command was discovered. -/
theorem Discovered.of_submit (hs : Discovered devices s) {call : Call} {next : Nat}
    (command : Command) {request : TransferRequest OpToken}
    (hdevice : command.device < devices.count)
    (h : ({ s with next := next, commands := s.commands ++ [command] } : State).submit devices call
      command.device request = some s') : Discovered devices s' := by
  intro other hother
  rw [(submit_state h).1] at hother
  rcases List.mem_append.mp hother with hold | hnew
  · exact hs other hold
  · rw [List.mem_singleton.mp hnew]
    exact hdevice

/-- `dma_set` chooses a device that was discovered. -/
theorem Discovered.of_dmaSet (hs : Discovered devices s) {call : Call}
    {advertisement : Protocol.Advertisement} {key : Bytes} {length : UInt64}
    {expectedCrc : Option UInt32} {reply : ValkeyResult}
    (h : s.dmaSet devices call advertisement key length expectedCrc = some (s', reply)) :
    Discovered devices s' := by
  unfold State.dmaSet at h
  obtain ⟨next, hnext⟩ := leastLoadedServer_state devices s call.services
  split at h
  · next t error hchosen =>
    cases h
    rw [hchosen] at hnext
    rw [show s' = { s with next := next } from hnext]
    exact hs
  · next t device hchosen =>
    have hdevice : device < devices.count := leastLoadedServer_lt (by rw [hchosen])
    rw [hchosen] at hnext
    have ht : t = { s with next := next } := hnext
    subst ht
    simp only [State.blockClient, Option.map_eq_some_iff, Prod.mk.injEq] at h
    obtain ⟨u, hsubmit, rfl, -⟩ := h
    exact hs.of_submit (.set device advertisement key length expectedCrc) hdevice hsubmit

/-- `dma_get` chooses a device that was discovered. -/
theorem Discovered.of_dmaGet (hs : Discovered devices s) {call : Call}
    {advertisement : Protocol.Advertisement} {key : Bytes} {capacity : UInt64}
    {wantChecksum : Bool} {reply : ValkeyResult}
    (h : s.dmaGet devices call advertisement key capacity wantChecksum = some (s', reply)) :
    Discovered devices s' := by
  unfold State.dmaGet at h
  split at h
  · cases h
    exact hs
  split at h
  · cases h
    exact hs
  · next bytes hread =>
    split at h
    · cases h
      exact hs
    · dsimp only at h
      split at h
      · cases h
      · obtain ⟨next, hnext⟩ := leastLoadedServer_state devices s call.services
        split at h
        · next t error hchosen =>
          cases h
          rw [hchosen] at hnext
          rw [show s' = { s with next := next } from hnext]
          exact hs
        · next t device hchosen =>
          have hdevice : device < devices.count := leastLoadedServer_lt (by rw [hchosen])
          rw [hchosen] at hnext
          have ht : t = { s with next := next } := hnext
          subst ht
          simp only [State.blockClient, Option.map_eq_some_iff, Prod.mk.injEq] at h
          obtain ⟨u, hsubmit, rfl, -⟩ := h
          exact hs.of_submit (.get device advertisement capacity bytes.length) hdevice hsubmit

/-- Every step keeps to the devices that were discovered. -/
theorem Discovered.step (hs : Discovered devices s) (h : (system devices).step s e = some s') :
    Discovered devices s' := by
  cases e with
  | set call args =>
    obtain ⟨⟨t, reply⟩, hcommand, rfl⟩ := Option.map_eq_some_iff.mp h
    simp only [State.dmaSetCommand] at hcommand
    split at hcommand
    · cases hcommand
      exact hs
    · split at hcommand
      · cases hcommand
        exact hs
      · exact hs.of_dmaSet hcommand
  | get call args =>
    obtain ⟨⟨t, reply⟩, hcommand, rfl⟩ := Option.map_eq_some_iff.mp h
    simp only [State.dmaGetCommand] at hcommand
    split at hcommand
    · cases hcommand
      exact hs
    · exact hs.of_dmaGet hcommand
  | send device i | fabric device move | finish device index stores | write memory
  | keyspace keyspace =>
    cases steps_of_step h with
    | answered next harrives | gone next command request harrives hasks
    | submitted next command request fabric harrives hasks hstep => cases harrives
    | _ => exact hs

/-- In every run the commands are for devices that were discovered. -/
theorem discovered_reach (h : (system devices).Reachable s) : Discovered devices s := by
  refine h.invariant (I := Discovered devices) ?_ fun s e s' _ hstep hs => hs.step hstep
  intro s hinit command hcommand
  rw [hinit.2.2.1] at hcommand
  cases hcommand

/-- In time nothing is left to be done for any device. -/
theorem Fair.finishes_all (hfair : Fair x) (hsubsides : Subsides x n) :
    ∃ N, n ≤ N ∧ ∀ k, N ≤ k → ∀ device, device < devices.count →
      ∀ blocked, (x.state k).waiting device blocked = 0 :=
  exists_forall_device (fun _ hdevice => hfair.finishes hsubsides hdevice) n

/-- With nothing left to be done, the clients of the replies are those of the commands. -/
theorem answered_of_finished (hreach : (system devices).Reachable s)
    (hdone : ∀ device, device < devices.count → ∀ blocked, s.waiting device blocked = 0) :
    (s.replies.map PendingReply.blocked).Perm (List.range s.commands.length) := by
  have htokens := tokens_reach hreach
  rw [List.perm_iff_count]
  intro blocked
  show s.answers blocked = _
  by_cases hblocked : blocked < s.commands.length
  · have hcommand := List.getElem?_eq_getElem hblocked
    have hone := htokens.blocked blocked _ hcommand
    have hdevice := discovered_reach hreach _ (List.mem_of_getElem? hcommand)
    rw [hdone _ hdevice, Nat.add_zero] at hone
    rw [hone, List.count_eq_one_of_mem List.nodup_range (List.mem_range.mpr hblocked)]
  · rw [htokens.unknown blocked (Nat.le_of_not_lt hblocked),
      List.count_eq_zero_of_not_mem fun h => hblocked (List.mem_range.mp h)]

/-- In a fair execution, once no more commands arrive, every client that was blocked is answered in
time, and once: the clients of the replies are the clients of the commands, each with one reply. -/
theorem every_client_answered (hfair : Fair x) (hsubsides : Subsides x n) :
    ∃ N, n ≤ N ∧ ∀ k, N ≤ k → ((x.state k).replies.map PendingReply.blocked).Perm
      (List.range (x.state k).commands.length) := by
  obtain ⟨N, hN, hdone⟩ := hfair.finishes_all hsubsides
  exact ⟨N, hN, fun k hk => answered_of_finished (x.reachable k) (hdone k hk)⟩

/-- Nothing is left to be done for a device. -/
structure State.Done (t : State) (device : Nat) : Prop where
  rest : (t.fabrics device).AtRest
  pool : (t.fabrics device).pool = []
  submitting : (t.fabrics device).callers.submitting = []
  finished : ∀ c ∈ (t.fabrics device).delivered, (device, c.callerContext.number) ∈ t.finished

namespace State.Done

/-- A device that is done has nothing left to send. -/
theorem stuck_send (h : s.Done device) :
    ¬(system devices).CanMove (fun e => ∃ i, e = .send device i) s := by
  rintro ⟨_, ⟨i, rfl⟩, henabled⟩
  change (s.step devices (.send device i)).isSome = true at henabled
  simp only [State.step] at henabled
  split at henabled
  · cases henabled
  · simp [Fabric.State.step, Fabric.State.stepSend, h.submitting] at henabled

/-- The worker of a device that is done has no move. -/
theorem stuck_worker (h : s.Done device) (hreach : (system devices).Reachable s) :
    ¬(system devices).CanMove (fun e => ∃ answer, e = .fabric device (.worker answer)) s := by
  rintro ⟨_, ⟨answer, rfl⟩, henabled⟩
  change (s.step devices (.fabric device (.worker answer))).isSome = true at henabled
  have hs := (owned_reach (fabric_reach hreach device)).1
  simp [State.step, isOwn, Fabric.State.step, h.rest.stuck hs] at henabled

/-- The pool of a device that is done has no move. -/
theorem stuck_pool (h : s.Done device) :
    ¬(system devices).CanMove
      (fun e => ∃ move, e = .fabric device move ∧ move.isPool = true) s := by
  rintro ⟨_, ⟨move, rfl, hpool⟩, henabled⟩
  change (s.step devices (.fabric device move)).isSome = true at henabled
  cases move with
  | hash i | finish i =>
    simp [State.step, isOwn, Fabric.State.step, Fabric.State.stepHash, Fabric.State.stepFinish,
      h.pool] at henabled
  | _ => cases hpool

/-- No completion of a device that is done is left to finish. -/
theorem stuck_finish (h : s.Done device) :
    ¬(system devices).CanMove (fun e => ∃ index stores, e = .finish device index stores) s := by
  rintro ⟨_, ⟨index, stores, rfl⟩, henabled⟩
  obtain ⟨c, hc, hopen⟩ := finish_enabled_iff.mp henabled
  exact hopen (h.finished c (List.mem_of_getElem? hc))

end State.Done

/-- A run that ends with everything done is fair. -/
theorem fair_ofRun {t : State} {es : List Event} (hinit : (system devices).init s)
    (hrun : (system devices).run s es = some t)
    (hdone : ∀ device, device < devices.count → t.Done device) :
    Fair (Machine.Execution.ofRun hinit hrun) := by
  have hreach := Machine.reach_run hinit es hrun
  have hlabel : ∀ m, es.length ≤ m → (Machine.Execution.ofRun hinit hrun).label m = none :=
    fun m hm => List.getElem?_eq_none hm
  refine ⟨fun device hdevice => ?_, fun device hdevice => ?_, fun device hdevice => ?_,
    fun device hdevice => ?_, fun device _ k op _ hreads => ?_, fun device _ time => ?_⟩
  · exact Machine.Execution.fairTo_ofRun hinit hrun (hdone device hdevice).stuck_send
  · exact Machine.Execution.fairTo_ofRun hinit hrun ((hdone device hdevice).stuck_worker hreach)
  · exact Machine.Execution.fairTo_ofRun hinit hrun (hdone device hdevice).stuck_pool
  · exact Machine.Execution.fairTo_ofRun hinit hrun (hdone device hdevice).stuck_finish
  · obtain ⟨m, answers, hm, hread⟩ := hreads es.length
    rw [hlabel m hm] at hread
    cases hread
  · refine ⟨es.length, fun m code first now hm hread => ?_⟩
    rw [hlabel m hm] at hread
    cases hread

end

/-- A `DMA.SET` of `checkBytes`, up to the delivery of its completion, and what comes after. -/
def setThen (es : List Event) : List Event :=
  getsReady
    ++ .set checkCall (commandArgs [] checkAdvertisement 9 [107] (some 0xe3069283)) :: lands ++ es

/-- A `DMA.SET` in parts: the start, the command, its transfer, and what comes after. -/
theorem run_setThen {es : List Event} {s₁ s₂ s₃ s : State}
    (hready : (system checkDevices).run loaded getsReady = some s₁)
    (hset : (s₁.dmaSet checkDevices checkCall checkAdvertisement [107] 9 (some 0xe3069283)).map
      Prod.fst = some s₂)
    (hlands : (system checkDevices).run s₂ lands = some s₃)
    (hends : (system checkDevices).run s₃ es = some s) :
    (system checkDevices).run loaded (setThen es) = some s := by
  have hstep : (system checkDevices).step s₁
      (.set checkCall (commandArgs [] checkAdvertisement 9 [107] (some 0xe3069283)))
        = some s₂ := by
    show (s₁.dmaSetCommand checkDevices checkCall _).map Prod.fst = some s₂
    rw [dmaSetCommand_commandArgs]
    exact hset
  rw [setThen, List.append_assoc, Machine.run_append hready, List.cons_append]
  simp only [Machine.run, hstep]
  rw [Machine.run_append hlands]
  exact hends

/-- It is replied to, and the worker blocks in `recv` again. -/
def wholeSet : List Event := setThen [.finish 0 0 true, .fabric 0 (.worker .none)]

/-- With nothing more to come, a run ends quietly. -/
theorem subsides_ofRun {devices : Devices} {s t : State} {es : List Event}
    (hinit : (system devices).init s) (hrun : (system devices).run s es = some t) :
    Subsides (Machine.Execution.ofRun hinit hrun) es.length := by
  intro m e hm hlabel
  rw [show (Machine.Execution.ofRun hinit hrun).label m = none from List.getElem?_eq_none hm]
    at hlabel
  cases hlabel

/-- The process starts with nothing asked for. -/
theorem loaded_init : (system checkDevices).init loaded :=
  ⟨fun _ => rfl, rfl, rfl, rfl, rfl, rfl⟩

/-- In this run the client of the only command gets its reply. -/
theorem every_client_answered_set :
    ∃ (x : (system checkDevices).Execution) (n : Nat), (x.state n).commands.length = 1 ∧
      ((x.state n).replies.map PendingReply.blocked).Perm
        (List.range (x.state n).commands.length) := by
  obtain ⟨s₁, s₂, s₃, s, hready, hset, hlands, hends, hphase, hidle, hchannel, hservice, hpool,
      hsubmitting, hfinished, hcommands⟩ :
      ∃ s₁ s₂ s₃ s : State, (system checkDevices).run loaded getsReady = some s₁ ∧
        (s₁.dmaSet checkDevices checkCall checkAdvertisement [107] 9 (some 0xe3069283)).map
          Prod.fst = some s₂ ∧
        (system checkDevices).run s₂ lands = some s₃ ∧
        (system checkDevices).run s₃ [.finish 0 0 true, .fabric 0 (.worker .none)] = some s ∧
        (s.fabrics 0).phase = .parking ∧ (s.fabrics 0).pass.idle = true ∧
        (s.fabrics 0).callers.channel = [] ∧ (s.fabrics 0).callers.service = .serving ∧
        (s.fabrics 0).pool = [] ∧ (s.fabrics 0).callers.submitting = [] ∧
        ((s.fabrics 0).delivered.all fun c => (0, c.callerContext.number) ∈ s.finished) = true ∧
        s.commands.length = 1 :=
    ⟨_, _, _, _, rfl, rfl, rfl, rfl, rfl, rfl, rfl, rfl, rfl, rfl, rfl, rfl⟩
  have hrun : (system checkDevices).run loaded wholeSet = some s :=
    run_setThen hready hset hlands hends
  have hfair : Fair (Machine.Execution.ofRun loaded_init hrun) := by
    refine fair_ofRun loaded_init hrun fun device hdevice => ?_
    have hzero : device = 0 := Nat.lt_one_iff.mp hdevice
    subst hzero
    refine ⟨.inr ⟨hphase, hidle, hchannel, by rw [hservice]; simp⟩, hpool, hsubmitting, ?_⟩
    simpa using hfinished
  obtain ⟨N, hN, hanswered⟩ := every_client_answered hfair (subsides_ofRun loaded_init hrun)
  refine ⟨Machine.Execution.ofRun loaded_init hrun, N, ?_, hanswered N (Nat.le_refl N)⟩
  rw [show (Machine.Execution.ofRun loaded_init hrun).state N = s from
    Machine.Execution.after_end hrun hN]
  exact hcommands

end Vdma.Module
