import Vdma.Proofs.Module.Answered
import Vdma.Proofs.Worker.Departed

/-!
# `Vdma.Proofs.Module.Disconnected`: a disconnected client is forgotten by every device

Any device may have served a client, so its disconnection is told to all of them. Each of them
removes the client's entry once the client's ops have drained, and in a fair execution they drain.
-/

set_option autoImplicit false

namespace Vdma.Module

open Vdma.Lib Vdma.Fabric

/-- An event that sends the service of a device a message for a client. -/
def Event.isFor (s : State) (device : Nat) (c : ClientId) : Event → Prop
  | .send d i => d = device ∧ (Move.send i : Move OpToken).isFor (s.fabrics device) c
  | .fabric d move => d = device ∧ move.isFor (s.fabrics device) c
  | _ => False

/-- The disconnection of a client has been told to every device, and nothing is sent for it
afterwards. -/
def Disconnected {devices : Devices} (x : (system devices).Execution) (c : ClientId) : Prop :=
  ∀ device, .fabric device (.removePeer c) ∈ onClientChange devices c .disconnected →
    ∃ m, x.label m = some (.fabric device (.removePeer c)) ∧
      ∀ k e, m < k → x.label k = some e → ¬e.isFor (x.state k) device c

section
variable {devices : Devices} {x : (system devices).Execution} {n device : Nat} {c : ClientId}

/-- A message for a client comes from an event that sends one. -/
theorem IsPart.isFor {y : (service OpToken (devices.setup device)).Execution}
    (h : IsPart x device y) {k : Nat} {move : Move OpToken} (hlabel : y.label k = some move)
    (hfor : move.isFor (y.state k) c) :
    ∃ e, x.label k = some e ∧ e.isFor (x.state k) device c := by
  rw [h.state] at hfor
  cases hx : x.label k with
  | none =>
    rw [h.idle k hx] at hlabel
    cases hlabel
  | some e =>
    refine ⟨e, rfl, ?_⟩
    have hseen := h.seen k e hx
    rw [hlabel] at hseen
    cases e with
    | set | get =>
      rcases hseen with hnone | ⟨request, hsubmit⟩
      · cases hnone
      · cases hsubmit
        exact hfor
    | send d i =>
      simp only [Seen] at hseen
      split at hseen
      · next hd =>
        cases hseen
        exact ⟨hd, hfor⟩
      · cases hseen
    | fabric d own =>
      simp only [Seen] at hseen
      split at hseen
      · next hd =>
        cases hseen
        exact ⟨hd, hfor⟩
      · cases hseen
    | finish | keyspace => cases hseen
    | write memory =>
      cases hseen
      exact hfor

/-- Once its disconnection was told, a client is gone from a device. -/
theorem Disconnected.gone (h : Disconnected x c) (hsubsides : Subsides x n)
    (hdevice : device < devices.count) {k : Nat} (hk : n ≤ k) :
    ((x.state k).fabrics device).Gone c := by
  obtain ⟨m, hlabel, hsilent⟩ :=
    h device (List.mem_map_of_mem (List.mem_range.mpr hdevice))
  have hm : m < n := by
    by_contra hlate
    have hcaller := (hsubsides m _ (by omega) hlabel).2 device _ rfl
    cases hcaller
  obtain ⟨y, hy⟩ := exists_service x device
  have hstart : (y.state (m + 1)).Gone c := by
    have hstep : (y.state m).step (devices.setup device) (.removePeer c)
        = some (y.state (m + 1)) := y.steps m _ (hy.label_of_fabric hlabel)
    exact .inl (going_of_removePeer hstep)
  have hgone : (y.state k).Gone c := by
    refine y.stays (P := fun f => f.Gone c) hstart (fun l move hl hmove hgone => ?_)
      (show m + 1 ≤ k by omega)
    refine hgone.step (y.reachable l) (y.steps l move hmove) fun hfor => ?_
    obtain ⟨e, he, hisFor⟩ := hy.isFor hmove hfor
    exact hsilent l e (by omega) he hisFor
  rwa [hy.state] at hgone

/-- In a fair execution, once no more commands arrive, the clients whose disconnection was told to
the devices are forgotten in time: no device holds an entry for them, and each entry of an address
vector is one that a client which has not disconnected holds. -/
theorem disconnected_forgotten (hfair : Fair x) (hsubsides : Subsides x n) :
    ∃ N, n ≤ N ∧ ∀ k, N ≤ k → ∀ device, device < devices.count →
      (∀ c, Disconnected x c → ((x.state k).fabrics device).books.peers.byClient.lookup c = none) ∧
      ∀ entry, ((x.state k).fabrics device).books.peers.handles.Open entry →
        ∃ c, ((x.state k).fabrics device).books.peers.byClient.lookup c = some entry ∧
          ¬Disconnected x c := by
  refine exists_forall_device (fun device hdevice => ?_) n
  obtain ⟨N, hN, hrests⟩ := hfair.rests hsubsides hdevice
  refine ⟨N, fun k hk => ?_⟩
  have hreach := fabric_reach (x.reachable k) device
  obtain ⟨hs, ho⟩ := owned_reach hreach
  have hrest := (hrests k hk).1
  have hnone : ∀ c, Disconnected x c →
      ((x.state k).fabrics device).books.peers.byClient.lookup c = none := fun c hc =>
    (hc.gone hsubsides hdevice (hN.trans hk)).forgotten hrest hs ho
  refine ⟨hnone, fun entry hopen => ?_⟩
  obtain ⟨c, hc⟩ := hrest.holder hreach hopen
  refine ⟨c, hc, fun hgone => ?_⟩
  rw [hnone c hgone] at hc
  cases hc

end

/-- After a `DMA.SET` the client disconnects, and the worker goes round once more. -/
def leaves : List Event :=
  [.finish 0 0 true, .fabric 0 (.worker .none), .fabric 0 (.removePeer 1),
    .fabric 0 (.worker .none), .fabric 0 (.worker .none), .fabric 0 (.worker .none),
    .fabric 0 (.worker (.cq [.code (-11)])), .fabric 0 (.worker .none), .fabric 0 (.worker .none),
    .fabric 0 (.worker .none), .fabric 0 (.worker .none)]

/-- In this run the device had an entry for the client, and has none in the end. -/
theorem disconnected_forgotten_set :
    ∃ (x : (system checkDevices).Execution) (m k : Nat),
      ((x.state m).fabrics 0).books.peers.byClient.lookup 1 = some 0 ∧ Disconnected x 1 ∧
      ((x.state k).fabrics 0).books.peers.byClient.lookup 1 = none := by
  obtain ⟨s₁, s₂, s₃, s, hready, hset, hlands, hends, hphase, hidle, hchannel, hservice, hpool,
      hsubmitting, hfinished, hheld⟩ :
      ∃ s₁ s₂ s₃ s : State, (system checkDevices).run loaded getsReady = some s₁ ∧
        (s₁.dmaSet checkDevices checkCall checkAdvertisement [107] 9 (some 0xe3069283)).map
          Prod.fst = some s₂ ∧
        (system checkDevices).run s₂ lands = some s₃ ∧
        (system checkDevices).run s₃ leaves = some s ∧ (s.fabrics 0).phase = .parking ∧
        (s.fabrics 0).pass.idle = true ∧ (s.fabrics 0).callers.channel = [] ∧
        (s.fabrics 0).callers.service = .serving ∧ (s.fabrics 0).pool = [] ∧
        (s.fabrics 0).callers.submitting = [] ∧
        ((s.fabrics 0).delivered.all fun c => (0, c.callerContext.number) ∈ s.finished) = true ∧
        (s₃.fabrics 0).books.peers.byClient.lookup 1 = some 0 :=
    ⟨_, _, _, _, rfl, rfl, rfl, rfl, rfl, rfl, rfl, rfl, rfl, rfl, rfl, rfl⟩
  have hrun : (system checkDevices).run loaded (setThen leaves) = some s :=
    run_setThen hready hset hlands hends
  have hmiddle : (system checkDevices).run loaded (setThen []) = some s₃ :=
    run_setThen hready hset hlands rfl
  have hset' : setThen leaves = setThen [] ++ leaves := by simp only [setThen, List.append_nil]
  let x := Machine.Execution.ofRun loaded_init hrun
  have hfair : Fair x := by
    refine fair_ofRun loaded_init hrun fun device hdevice => ?_
    have hzero : device = 0 := Nat.lt_one_iff.mp hdevice
    subst hzero
    refine ⟨.inr ⟨hphase, hidle, hchannel, by rw [hservice]; simp⟩, hpool, hsubmitting, ?_⟩
    simpa using hfinished
  have hdisconnected : Disconnected x 1 := by
    intro device hdevice
    have hzero : device = 0 := by
      simpa [onClientChange, releaseClient, checkDevices] using hdevice
    subst hzero
    refine ⟨(setThen []).length + 2, rfl, fun k e hk hlabel => ?_⟩
    -- What comes later are steps of the worker.
    have hlater : ∀ e ∈ leaves.drop 3, ¬e.isFor (x.state k) 0 1 := by
      simp [leaves, Event.isFor, Move.isFor]
    refine hlater e (List.mem_iff_getElem?.mpr ⟨k - ((setThen []).length + 3), ?_⟩)
    rw [← hlabel, List.getElem?_drop]
    show _ = (setThen leaves)[k]?
    rw [hset', List.getElem?_append_right (by omega)]
    congr 1
    omega
  obtain ⟨N, hN, hforgotten⟩ :=
    disconnected_forgotten hfair (subsides_ofRun loaded_init hrun)
  refine ⟨x, (setThen []).length, N, ?_, hdisconnected, ?_⟩
  · rw [show x.state (setThen []).length = s₃ from ?_]
    · exact hheld
    · show Machine.Execution.after (system checkDevices) loaded (setThen leaves) _ = s₃
      rw [hset']
      exact Machine.Execution.after_append hmiddle leaves
  · exact (hforgotten N (Nat.le_refl N) 0 Nat.one_pos).1 1 hdisconnected

end Vdma.Module
