import Vdma.Module.Startup
import Vdma.Proofs.Opening

/-!
# `Vdma.Proofs.Module.Startup`: what the process has open

`DMA.HELLO`, `DMA.INFO` and the transfers may come in any order, and libfabric may refuse any
call, any number of times. What is open is always what the endpoints in use are made of.
-/

set_option autoImplicit false

namespace Vdma.Module

open Vdma.Lib Vdma.Lib.Objects Vdma.Fabric Vdma.Fabric.Opening Std.Do

variable {groups : List (List Nat)} {lib : Libfabric} {fabric : Opening.Configuration}

/-- What each service owns. -/
abbrev ownedBy (servers : List FabricService) : List (List Nat) :=
  servers.map fun s => s.endpoint.owned

/-! ### Starting the services -/

/-- Dropping the services closes what they own. -/
theorem dropServices_spec {servers : List FabricService} {failed : DmaError → OpeningAssertion} :
    ⦃owning (ownedBy servers ++ groups)⦄ dropServices servers
      ⦃post⟨fun _ => owning groups, failed⟩⦄ := by
  unfold dropServices
  induction servers with
  | nil => exact Triple.pure _ .rfl
  | cons server servers ih =>
    rw [List.forM_eq_forM, List.forM_cons]
    exact Triple.bind _ _ FabricService.drop_spec fun _ => ih

/-- Services that were started one after the other, the latest last. -/
structure Started (fabric : Opening.Configuration) (servers : List FabricService)
    (domains : List String) : Prop where
  names : servers.map (fun s => s.endpoint.domainName) = domains.map some
  serves : ∀ s ∈ servers, ∃ interfaces, s.endpoint.Serves { fabric with interfaces }

/-- The services start one after the other. When one fails, those before it are dropped. -/
theorem startEach_spec {answers : Nat → StartAnswers} {servers : List FabricService}
    {before domains : List String} (hstarted : Started fabric servers before) :
    ⦃owning (ownedBy servers ++ groups)⦄ startEach lib fabric answers servers domains
      ⦃post⟨fun servers o => ⌜Holding o (ownedBy servers ++ groups) ∧
        Started fabric servers (before ++ domains)⌝, fun _ => owning groups⟩⦄ := by
  induction domains generalizing servers before with
  | nil =>
    refine Triple.pure _ fun _ ho => ⟨ho, ?_⟩
    rw [List.append_nil]
    exact hstarted
  | cons domain domains ih =>
    unfold startEach
    refine Triple.bind _ _ (tryCatch_spec FabricService.start_spec fun error =>
      Triple.bind _ _ dropServices_spec fun _ => throw_spec error) fun server => ?_
    refine given_spec fun hserves => ?_
    have hnext : Started fabric (servers ++ [server]) (before ++ [domain]) := by
      constructor
      · rw [List.map_append, List.map_append, hstarted.names, List.map_singleton,
          hserves.ready.onFirst domain rfl, List.map_singleton]
      · intro s hs
        rcases List.mem_append.mp hs with hold | hnew
        · exact hstarted.serves s hold
        · rw [List.mem_singleton.mp hnew]
          exact ⟨[domain], hserves⟩
    -- The service that was just started is the last in the list, and the first owner.
    have hperm : (server.endpoint.owned :: (ownedBy servers ++ groups)).Perm
        (ownedBy (servers ++ [server]) ++ groups) := by
      simp only [ownedBy, List.map_append, List.map_singleton, List.append_assoc]
      exact List.perm_middle.symm
    have hrest := perm_spec hperm (ih hnext)
    rwa [List.append_assoc] at hrest

/-- The domains to start on are distinct, and asking for them opens nothing. -/
theorem startDomains_spec {answers : QueryAnswers} :
    ⦃owning groups⦄ startDomains lib fabric answers
      ⦃post⟨fun names o => ⌜Holding o groups ∧ names.Nodup⌝, fun _ => owning groups⟩⦄ := by
  unfold startDomains
  split
  · exact tryCatch_spec discoverDomains_spec fun _ => Triple.pure _ fun _ ho => ⟨ho, .nil⟩
  · exact Triple.pure _ fun _ ho => ⟨ho, .nil⟩

/-- The services that are up: at least one, no two on one device, each with all that it needs. -/
structure Up (fabric : Opening.Configuration) (servers : List FabricService) : Prop where
  nonempty : servers ≠ []
  distinct : (servers.map fun s => s.endpoint.domainName).Nodup
  serves : ∀ s ∈ servers, ∃ interfaces, s.endpoint.Serves { fabric with interfaces }

/-- All the services are up, or nothing is open. -/
theorem startServices_spec {answers : ServicesAnswers} :
    ⦃owning groups⦄ startServices lib fabric answers
      ⦃post⟨fun servers o => ⌜Holding o (ownedBy servers ++ groups) ∧ Up fabric servers⌝,
        fun _ => owning groups⟩⦄ := by
  unfold startServices
  refine Triple.bind _ _ startDomains_spec fun domains => given_spec fun hdomains => ?_
  dsimp only
  split
  · exact throw_spec _
  · refine Triple.bind _ _ FabricService.start_spec fun server => given_spec fun hserves => ?_
    refine Triple.pure _ fun _ ho => ⟨ho, List.cons_ne_nil _ _, List.nodup_singleton _, ?_⟩
    intro s hs
    rw [List.mem_singleton.mp hs]
    exact ⟨fabric.interfaces, hserves⟩
  · next hne _ =>
    have hnone : Started fabric [] [] := ⟨rfl, fun s hs => by cases hs⟩
    refine Triple.iff_conseq.mp (startEach_spec hnone) .rfl
      ⟨fun servers o ⟨ho, hstarted⟩ => ⟨ho, ?_, ?_, hstarted.serves⟩, fun _ => .rfl, trivial⟩
    · rintro rfl
      exact hne (List.map_eq_nil_iff.mp hstarted.names.symm)
    · rw [hstarted.names]
      exact hdomains.map (Option.some_injective _)

/-! ### Runs -/

/-- What is known of a process in every state. -/
structure Process.Sound (fabric : Opening.Configuration) (p : Process) : Prop where
  holding : Holding p.objects (p.endpoints.map LibfabricEndpoint.owned)
  session : ∀ e, p.session = some e → e.Ready fabric
  services : ∀ servers, p.services = some servers → Up fabric servers

/-- What a triple says of the run of an opening. -/
theorem run_of_spec {α : Type} {m : Opening α} {failed : DmaError → Objects → Prop}
    {succeeded : α → Objects → Prop} {o : Objects} (ho : Holding o groups)
    (h : ⦃owning groups⦄ m ⦃post⟨fun a o => ⌜succeeded a o⌝, fun error o => ⌜failed error o⌝⟩⦄) :
    match m.run.run o with
    | (.ok a, o') => succeeded a o'
    | (.error error, o') => failed error o' := by
  have hrun := h o ho
  generalize hresult : m.run.run o = result
  simp only [WP.wp, PredTrans.apply_pushExcept, PredTrans.apply_pushArg, hresult] at hrun
  obtain ⟨ok | error, o'⟩ := result
  · exact hrun
  · exact hrun

namespace Process

variable {p : Process}

/-- `DMA.INFO` reads what its endpoint has. -/
theorem Sound.info (h : p.Sound fabric) (answers : LibfabricEndpoint.OpenAnswers) :
    (p.endpointInfo lib fabric answers).2.Sound fabric := by
  have hopen : ∀ r q, p.withEndpoint lib fabric answers = (r, q) → q.Sound fabric ∧
      ∀ e, r = .ok e → q.session = some e := by
    intro r q hq
    unfold withEndpoint at hq
    split at hq
    · next e he =>
      cases hq
      exact ⟨h, fun e' h' => by cases h'; exact he⟩
    · next hnone =>
      have hrun := run_of_spec h.holding (LibfabricEndpoint.openEndpoint_spec :
        ⦃owning _⦄ LibfabricEndpoint.openEndpoint lib fabric fabric.bind answers ⦃_⦄)
      split at hq
      · next error objects heq =>
        cases hq
        rw [heq] at hrun
        exact ⟨⟨hrun, h.session, h.services⟩, fun e h' => by cases h'⟩
      · next e objects heq =>
        cases hq
        rw [heq] at hrun
        -- The new endpoint is the first owner, and the first of the endpoints.
        have hendpoints : p.endpoints = (p.services.getD []).map FabricService.endpoint := by
          rw [endpoints, hnone, Option.toList_none, List.nil_append]
        rw [hendpoints] at hrun
        refine ⟨⟨hrun.1, fun e' h' => ?_, h.services⟩, fun e' h' => ?_⟩
        · cases h'
          exact hrun.2.1
        · cases h'
          rfl
  unfold endpointInfo
  split
  · next error q hq => exact (hopen _ q hq).1
  · next e q hq =>
    obtain ⟨hsound, hsession⟩ := hopen _ q hq
    have he := hsession e rfl
    have hinfo : (e.info.map Prod.fst).toList ⊆ e.owned :=
      LibfabricEndpoint.subset_owned (by simp)
    have hholding : Holding q.objects
        (e.owned :: ((q.services.getD []).map FabricService.endpoint).map
          LibfabricEndpoint.owned) := by
      have hall := hsound.holding
      rwa [endpoints, he] at hall
    refine ⟨?_, hsound.session, hsound.services⟩
    show Holding (q.objects.visit _) _
    rw [hholding.visit hinfo]
    exact hsound.holding

/-- The commands that need the services find them up, or start them. -/
theorem Sound.commands (h : p.Sound fabric) (answers : ServicesAnswers) :
    (p.fabricServices lib fabric answers).2.Sound fabric := by
  unfold fabricServices
  split
  · exact h
  · next hnone =>
    have hrun := run_of_spec h.holding (startServices_spec :
      ⦃owning _⦄ startServices lib fabric answers ⦃_⦄)
    split
    · next error objects heq =>
      rw [heq] at hrun
      exact ⟨hrun, h.session, h.services⟩
    · next servers objects heq =>
      rw [heq] at hrun
      have hendpoints : p.endpoints = p.session.toList := by
        rw [endpoints, hnone, Option.getD_none, List.map_nil, List.append_nil]
      rw [hendpoints] at hrun
      refine ⟨hrun.1.perm ?_, h.session, fun servers' h' => ?_⟩
      · simp only [endpoints, List.map_append, Option.getD_some, List.map_map]
        exact List.perm_append_comm
      · cases h'
        exact hrun.2

/-- In every run the process is sound. -/
theorem sound_reach (h : (process lib fabric).Reachable p) : p.Sound fabric := by
  refine h.invariant ?_ ?_
  · rintro p rfl
    exact ⟨.empty, fun _ h => (by cases h), fun _ h => (by cases h)⟩
  · intro p call p' _ hstep hsound
    cases hstep
    cases call with
    | info answers => exact hsound.info answers
    | services answers => exact hsound.commands answers

/-- Every endpoint in use is ready. -/
theorem Sound.ready (h : p.Sound fabric) {e : LibfabricEndpoint} (he : e ∈ p.endpoints) :
    ∃ interfaces, e.Ready { fabric with interfaces } := by
  rcases List.mem_append.mp he with hsession | hservice
  · exact ⟨fabric.interfaces, h.session e (Option.mem_toList.mp hsession)⟩
  · obtain ⟨s, hs, rfl⟩ := List.mem_map.mp hservice
    cases hservices : p.services with
    | none =>
      rw [hservices] at hs
      cases hs
    | some servers =>
      rw [hservices] at hs
      obtain ⟨interfaces, hserves⟩ := (h.services servers hservices).serves s hs
      exact ⟨interfaces, hserves.ready⟩

/-- In every run of commands, whatever libfabric answers to any of its calls: no object is used
that is not open, closed twice, or closed while an open one still uses it. What is open is what
the endpoints in use own, so that nothing is left of an opening that failed. And an endpoint in
use has all of its parts. -/
theorem endpoints_own_all (h : (process lib fabric).Reachable p) :
    p.objects.misused = false ∧ p.objects.live.Nodup ∧
      p.objects.live.Perm (p.endpoints.flatMap LibfabricEndpoint.owned) ∧
      ∀ e ∈ p.endpoints, ∃ interfaces, e.Ready { fabric with interfaces } := by
  have hsound := sound_reach h
  refine ⟨hsound.holding.proper, hsound.holding.nodup, ?_, fun e he => hsound.ready he⟩
  rw [List.flatMap_def]
  exact hsound.holding.live

/-- A configuration that quiesces its writes. -/
def checkFabric (provider : Opening.Provider) : Opening.Configuration where
  quiesceWrites := true
  maxInFlight := none
  progressDeadline := 1000000000
  providers := [provider]
  interfaces := []
  bind := none
  crcPoolThreads := none

/-- There are two devices, and one is listed twice. `fi_enable` answers with a code. -/
def checkAnswers (code : Int) : LibfabricEndpoint.OpenAnswers where
  query :=
    { allocinfo := true
      getinfo := fun _ _ => (0, [⟨some "rdmap0", [.localBuffers], 64, .efa⟩,
        ⟨some "rdmap0", [.localBuffers], 64, .efa⟩, ⟨some "rdmap1", [.localBuffers], 64, .efa⟩]) }
  dupinfo := true
  fabric := 0
  domain := 0
  avOpen := 0
  cqOpen := 0
  endpoint := 0
  bindAv := 0
  bindCq := 0
  enable := code

/-- The answers to the start of the services. -/
def checkServices (code : Int) : ServicesAnswers where
  discover := (checkAnswers 0).query
  pool _ := none
  start _ :=
    { spawn := none
      «open» := checkAnswers code
      pin := 0
      name := ⟨2, 0, [7, 7]⟩ }

/-- Every list of calls is a run: no call is ever refused. -/
theorem run_calls (p : Process) (calls : List Call) :
    (process lib fabric).run p calls = some (calls.foldl (step lib fabric) p) := by
  induction calls generalizing p with
  | nil => rfl
  | cons call calls ih => exact ih _

/-- The service cannot be enabled at first. -/
def checkCalls : List Call :=
  [.services (checkServices (-12)), .services (checkServices 0), .info (checkAnswers 0)]

/-- What was opened for the first attempt is gone, and the thirteen objects of the two endpoints
are open. -/
theorem endpoints_own_all_tcp :
    ∃ p : Process, p.objects.next = 25 ∧ p.endpoints.length = 2 ∧ p.objects.misused = false ∧
      p.objects.live.Perm (p.endpoints.flatMap LibfabricEndpoint.owned) := by
  have hnext : (checkCalls.foldl (step default (checkFabric .tcp)) start).objects.next = 25 := by
    decide +kernel
  have hlength : (checkCalls.foldl (step default (checkFabric .tcp)) start).endpoints.length
      = 2 := by
    decide +kernel
  obtain ⟨hproper, -, hlive, -⟩ := endpoints_own_all
    (Machine.reach_run (M := process default (checkFabric .tcp)) rfl _ (run_calls _ checkCalls))
  exact ⟨_, hnext, hlength, hproper, hlive⟩

/-- No two endpoints in use have a domain in common. -/
theorem Sound.domains_nodup (h : p.Sound fabric) :
    (p.endpoints.map LibfabricEndpoint.domain).Nodup := by
  have hnodup := h.holding.live.nodup_iff.mp h.holding.nodup
  refine List.pairwise_map.mpr (List.Pairwise.imp_of_mem (fun {e e'} he he' hdisjoint heq => ?_)
    (List.pairwise_map.mp (List.nodup_flatten.mp hnodup).2))
  obtain ⟨_, hready⟩ := h.ready he
  obtain ⟨d, hd⟩ := Option.isSome_iff_exists.mp hready.domain
  have howned : ∀ e : LibfabricEndpoint, e.domain = some d → d ∈ e.owned := fun e h =>
    LibfabricEndpoint.subset_owned (by simp) (Option.mem_toList.mpr h)
  -- One domain would be an object of both.
  exact hdisjoint (howned e hd) (howned e' (heq ▸ hd))

/-- The device of a service is on the domain of its endpoint. -/
theorem Sound.devices_nodup (h : p.Sound fabric) {servers : List FabricService}
    (hs : p.services = some servers) :
    (p.session.toList.map LibfabricEndpoint.domain ++
      servers.map fun s => some s.device.domain).Nodup := by
  have hdomains : servers.map (fun s => s.endpoint.domain)
      = servers.map fun s => some s.device.domain := by
    refine List.map_congr_left fun s hin => ?_
    obtain ⟨_, hserves⟩ := (h.services servers hs).serves s hin
    obtain ⟨d, hd⟩ := Option.isSome_iff_exists.mp hserves.ready.domain
    rw [FabricService.device, hd, Option.getD_some]
  have hnodup := h.domains_nodup
  rwa [endpoints, hs, Option.getD_some, List.map_append, List.map_map,
    show LibfabricEndpoint.domain ∘ FabricService.endpoint
      = fun s : FabricService => s.endpoint.domain from rfl, hdomains] at hnodup

/-- `DMA.INFO` has nothing to do with the services. -/
theorem endpointInfo_services (answers : LibfabricEndpoint.OpenAnswers) :
    (p.endpointInfo lib fabric answers).2.services = p.services := by
  have hopen : (p.withEndpoint lib fabric answers).2.services = p.services := by
    unfold withEndpoint
    split
    · rfl
    · split <;> rfl
  unfold endpointInfo
  split
  · next heq =>
    rw [heq] at hopen
    exact hopen
  · next heq =>
    rw [heq] at hopen
    exact hopen

/-- Services that are up stay up. -/
theorem services_stay {servers : List FabricService} (hs : p.services = some servers)
    {p' : Process} (h : ((process lib fabric).startingAt p).Reachable p') :
    p'.services = some servers := by
  refine h.invariant (I := fun q => q.services = some servers) ?_ ?_
  · rintro q rfl
    exact hs
  · intro q call q' _ hstep hq
    cases hstep
    cases call with
    | info answers => exact (endpointInfo_services answers).trans hq
    | services answers =>
      show (q.fabricServices lib fabric answers).2.services = some servers
      rw [fabricServices, hq]
      exact hq

/-- Once the domains are known, a service is started on each. -/
theorem run_startServices {answers : ServicesAnswers} {o o' : Objects} {domain : String}
    {domains : List String} (ho : Holding o groups)
    (hdomains : (startDomains lib fabric answers.discover).run.run o
      = (.ok (domain :: domains), o'))
    (hpool : ∀ threads, answers.pool threads = none)
    (hok : ((startEach lib fabric answers.start [] (domain :: domains)).run.run o').1.isOk) :
    ∃ servers o'', (startServices lib fabric answers).run.run o = (.ok servers, o'') ∧
      servers.map (fun s => s.endpoint.domainName) = (domain :: domains).map some := by
  have hfound := run_of_spec ho (startDomains_spec :
    ⦃owning groups⦄ startDomains lib fabric answers.discover ⦃_⦄)
  rw [hdomains] at hfound
  have hnone : Started fabric [] [] := ⟨rfl, fun s hs => by cases hs⟩
  have hstarted := run_of_spec hfound.1 (startEach_spec hnone :
    ⦃owning (ownedBy [] ++ groups)⦄ startEach lib fabric answers.start [] (domain :: domains) ⦃_⦄)
  have hrun : (startServices lib fabric answers).run.run o
      = (startEach lib fabric answers.start [] (domain :: domains)).run.run o' := by
    simp only [startServices, ExceptT.run_bind, StateT.run_bind, hdomains, hpool]
    rfl
  rw [hrun]
  generalize (startEach lib fabric answers.start [] (domain :: domains)).run.run o' = result
    at hok hstarted
  obtain ⟨error | servers, o''⟩ := result
  · cases hok
  · exact ⟨servers, o'', rfl, hstarted.2.names⟩

/-- A start that succeeds is kept. -/
theorem services_of_run {answers : ServicesAnswers} {servers : List FabricService} {o : Objects}
    (hnone : p.services = none)
    (hrun : (startServices lib fabric answers).run.run p.objects = (.ok servers, o)) :
    (p.step lib fabric (.services answers)).services = some servers := by
  simp only [step, fabricServices, hnone, hrun]

/-- Once the services are up, there is at least one, no two are on one device or share a domain
with each other or with `DMA.INFO`, and they are what every later `DMA.HELLO` answers with, which
opens nothing. -/
theorem services_fixed (h : (process lib fabric).Reachable p) {servers : List FabricService}
    (hs : p.services = some servers) :
    Up fabric servers ∧
      (p.session.toList.map LibfabricEndpoint.domain ++
        servers.map fun s => some s.device.domain).Nodup ∧
      ∀ p', ((process lib fabric).startingAt p).Reachable p' → ∀ answers,
        p'.dmaHello lib fabric answers
          = (.ok (servers.map fun s => Protocol.encodeHex s.address), p') := by
  have hsound := sound_reach h
  refine ⟨hsound.services servers hs, hsound.devices_nodup hs, fun p' h' answers => ?_⟩
  have hstay := services_stay hs h'
  rw [dmaHello, fabricServices, hstay]
  rfl

/-- Each device has its service, although one of them is listed twice. -/
theorem services_fixed_efa :
    ∃ (p : Process) (servers : List FabricService),
      servers.map (fun s => s.endpoint.domainName) = [some "rdmap0", some "rdmap1"] ∧
      (servers.map fun s => some s.device.domain).Nodup ∧
      ∀ answers, p.dmaHello default (checkFabric .efaDirect) answers
        = (.ok (servers.map fun s => Protocol.encodeHex s.address), p) := by
  have hdomains : (startDomains default (checkFabric .efaDirect) (checkServices 0).discover).run.run
      .empty = (.ok ["rdmap0", "rdmap1"], ⟨2, [], [], false⟩) := rfl
  have hok : ((startEach default (checkFabric .efaDirect) (checkServices 0).start []
      ["rdmap0", "rdmap1"]).run.run ⟨2, [], [], false⟩).1.isOk = true := by decide +kernel
  obtain ⟨servers, o, hrun, hnames⟩ :=
    run_startServices .empty hdomains (fun _ => rfl) hok
  have hservices := services_of_run (p := start) rfl hrun
  have hreach : (process default (checkFabric .efaDirect)).Reachable
      (start.step default (checkFabric .efaDirect) (.services (checkServices 0))) :=
    (Machine.Reach.init rfl).step trivial rfl
  obtain ⟨-, hnodup, hhello⟩ := services_fixed hreach hservices
  exact ⟨_, servers, hnames, (List.nodup_append.mp hnodup).2.1, hhello _ (.init rfl)⟩

end Process

end Vdma.Module
