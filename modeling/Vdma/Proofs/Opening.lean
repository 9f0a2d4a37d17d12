import Vdma.Fabric.Opening

/-!
# `Vdma.Proofs.Opening`: what an opening leaves open

Whichever call fails, and however far an endpoint was opened, what was opened for it is closed.
When none does, what is open besides is what the endpoint owns. Each step of an opening is one
triple, about who has what before and after, and an opening is put together from them in the
order of its calls.
-/

set_option autoImplicit false

namespace Vdma.Fabric

open Vdma.Lib Vdma.Lib.Objects Std.Do

/-- What an `Opening` finds and leaves. -/
abbrev OpeningAssertion := Assertion (.except DmaError (.arg Objects .pure))

/-- Who has what. -/
def owning (groups : List (List Nat)) : OpeningAssertion := fun o => ⌜Holding o groups⌝

namespace Opening

variable {groups groups' : List (List Nat)} {l : List Nat} {failed : DmaError → OpeningAssertion}

/-- A change of the objects that turns one holding into another. -/
theorem modify_spec {f : Objects → Objects} (h : ∀ o, Holding o groups → Holding (f o) groups') :
    ⦃owning groups⦄ (modify f : Opening Unit) ⦃post⟨fun _ => owning groups', failed⟩⦄ :=
  fun o ho => h o ho

/-- What is opened joins the group of what it is opened on. -/
theorem acquire_spec {on : List Nat} (hon : on ⊆ l) :
    ⦃owning (l :: groups)⦄ acquire on ⦃post⟨fun i => owning ((i :: l) :: groups), failed⟩⦄ :=
  fun o (ho : Holding o (l :: groups)) => ho.acquire hon

/-- An object for an owner that has nothing else. -/
theorem acquire_own_spec :
    ⦃owning groups⦄ acquire [] ⦃post⟨fun i => owning ([i] :: groups), failed⟩⦄ :=
  fun o (ho : Holding o groups) =>
    (Holding.cons_nil_iff.mpr ho).acquire (List.nil_subset [])

/-- A call on objects that are held leaves them. -/
theorem visit_spec {used : List Nat} (hused : used ⊆ l) :
    ⦃owning (l :: groups)⦄ visit used ⦃post⟨fun _ => owning (l :: groups), failed⟩⦄ :=
  modify_spec fun _ ho => (ho.visit hused).symm ▸ ho

/-- So does what attaches one object to another. -/
theorem attach_spec {i used : Nat} (hused : used ∈ l) :
    ⦃owning ((i :: l) :: groups)⦄ attach i used
      ⦃post⟨fun _ => owning ((i :: l) :: groups), failed⟩⦄ :=
  modify_spec fun _ ho => ho.bind hused

/-- The only object of an owner is closed. -/
theorem release_spec {i : Nat} :
    ⦃owning ([i] :: groups)⦄ release i ⦃post⟨fun _ => owning groups, failed⟩⦄ :=
  modify_spec fun _ ho => Holding.cons_nil_iff.mp ho.release

/-- A failure leaves what is held. -/
theorem throw_spec {α : Type} (error : DmaError) {succeeded : α → OpeningAssertion} :
    ⦃owning groups⦄ (throw error : Opening α) ⦃post⟨succeeded, fun _ => owning groups⟩⦄ :=
  fun _ ho => ho

/-- What is known besides is no matter of the objects. -/
theorem given_spec {α : Type} {m : Opening α} {P : Prop}
    {Q : PostCond α (.except DmaError (.arg Objects .pure))} (h : P → ⦃owning groups⦄ m ⦃Q⦄) :
    ⦃fun o => ⌜Holding o groups ∧ P⌝⦄ m ⦃Q⦄ :=
  fun o ho => h ho.2 o ho.1

/-- The order of the owners does not matter. -/
theorem perm_spec {α : Type} {m : Opening α}
    {Q : PostCond α (.except DmaError (.arg Objects .pure))} (hperm : groups.Perm groups')
    (h : ⦃owning groups'⦄ m ⦃Q⦄) : ⦃owning groups⦄ m ⦃Q⦄ :=
  fun o (ho : Holding o groups) => h o (ho.perm hperm)

/-- What a failure is caught with starts where the failure left off. -/
theorem tryCatch_spec {α : Type} {m : Opening α} {caught : DmaError → Opening α}
    {P : OpeningAssertion} {failed : DmaError → OpeningAssertion}
    {Q : PostCond α (.except DmaError (.arg Objects .pure))}
    (h : ⦃P⦄ m ⦃post⟨Q.1, failed⟩⦄) (hcaught : ∀ error, ⦃failed error⦄ caught error ⦃Q⦄) :
    ⦃P⦄ tryCatch m caught ⦃Q⦄ :=
  Triple.iff_conseq.mp (Spec.tryCatch_ExceptT Q)
    (Triple.iff_conseq.mp h .rfl ⟨fun _ => .rfl, fun error => hcaught error, trivial⟩) .rfl

/-! ### Asking for devices -/

variable {lib : Libfabric} {configuration : Configuration}

/-- The list that `query_info` returns is the caller's. -/
theorem queryInfo_spec {sourceNode : Option String} {answers : QueryAnswers} :
    ⦃owning groups⦄ queryInfo lib configuration sourceNode answers
      ⦃post⟨fun found => owning ([found.1] :: groups), fun _ => owning groups⟩⦄ := by
  unfold queryInfo
  split
  · exact throw_spec _
  split
  · exact throw_spec _
  refine Triple.bind _ _ acquire_own_spec fun hints => ?_
  refine Triple.bind _ _ (visit_spec (List.Subset.refl _)) fun _ => ?_
  dsimp only
  split
  · exact Triple.bind _ _ release_spec fun _ => throw_spec _
  · exact Triple.bind _ _ release_spec fun _ => throw_spec _
  · refine Triple.bind _ _ acquire_own_spec fun list => ?_
    -- The hints are freed while the list is there already, so they are an owner of their own.
    refine Triple.bind _ _ (perm_spec (.swap _ _ _) release_spec) fun _ => ?_
    exact Triple.pure _ .rfl

/-- A name is listed once. -/
theorem nodup_addName {names : List String} (h : names.Nodup) (info : FiInfo) :
    (addName names info).Nodup := by
  unfold addName
  split
  · exact h
  · split
    · exact h
    · next hnew => exact List.nodup_append_comm.mp (List.nodup_cons.mpr ⟨hnew, h⟩)

/-- The domains of a provider's answer are distinct. -/
theorem nodup_domainNames (infos : List FiInfo) : (domainNames infos).Nodup := by
  suffices h : ∀ names : List String, names.Nodup → (infos.foldl addName names).Nodup from h [] .nil
  induction infos with
  | nil => exact fun _ h => h
  | cons info infos ih => exact fun names h => ih _ (nodup_addName h info)

/-- The names that are discovered are distinct, and the list is freed. -/
theorem discoverDomains_spec {answers : QueryAnswers} :
    ⦃owning groups⦄ discoverDomains lib configuration answers
      ⦃post⟨fun names o => ⌜Holding o groups ∧ names.Nodup⌝, fun _ => owning groups⟩⦄ := by
  unfold discoverDomains
  refine Triple.bind _ _ queryInfo_spec fun found => ?_
  refine Triple.bind _ _ (visit_spec (List.Subset.refl _)) fun _ => ?_
  refine Triple.bind _ _ release_spec fun _ => ?_
  exact Triple.pure _ fun _ ho => ⟨ho, nodup_domainNames found.2⟩

end Opening

/-! ### Endpoints -/

open Opening

namespace LibfabricEndpoint

variable {groups : List (List Nat)} {lib : Libfabric} {configuration : Opening.Configuration}

/-- An endpoint is the last owner, and has a property. Or else nothing is left of it. -/
def opened (groups : List (List Nat)) (P : LibfabricEndpoint → Prop) :
    PostCond LibfabricEndpoint (.except DmaError (.arg Objects .pure)) :=
  post⟨fun e o => ⌜Holding o (e.owned :: groups) ∧ P e⌝, fun _ => owning groups⟩

/-- Everything that an endpoint is made of is open, on the domain that the configuration names
first. -/
structure Ready (configuration : Opening.Configuration) (e : LibfabricEndpoint) : Prop where
  endpoint : e.endpoint.isSome
  completionQueue : e.completionQueue.isSome
  addressVector : e.addressVector.isSome
  domain : e.domain.isSome
  fabric : e.fabric.isSome
  info : e.info.isSome
  onFirst : ∀ name, configuration.interfaces.head? = some name → e.domainName = some name

/-- What a part of an endpoint is, if it was opened, the endpoint owns. -/
theorem subset_owned {e : LibfabricEndpoint} {part : Option Nat}
    (hpart : part ∈ [e.pinned, e.endpoint, e.completionQueue, e.addressVector, e.domain, e.fabric,
      e.info.map Prod.fst]) : part.toList ⊆ e.owned :=
  fun _ hi => List.mem_filterMap.mpr ⟨part, hpart, Option.mem_toList.mp hi⟩

/-- The drop of an endpoint closes what it owns. -/
theorem drop_spec {e : LibfabricEndpoint} {failed : DmaError → OpeningAssertion} :
    ⦃owning (e.owned :: groups)⦄ e.drop ⦃post⟨fun _ => owning groups, failed⟩⦄ :=
  modify_spec fun _ ho => ho.releaseAll

/-- A call either leaves everything as it was, or nothing of the endpoint. -/
theorem call_spec {e : LibfabricEndpoint} {used : List Nat} (hused : used ⊆ e.owned) {code : Int}
    {what : String} :
    ⦃owning (e.owned :: groups)⦄ e.call lib used code what
      ⦃post⟨fun _ => owning (e.owned :: groups), fun _ => owning groups⟩⦄ := by
  unfold call
  refine Triple.bind _ _ (visit_spec hused) fun _ => ?_
  cases check lib code what with
  | ok => exact Triple.pure _ .rfl
  | error error => exact Triple.bind _ _ drop_spec fun _ => throw_spec error

/-- The entry that was chosen is the one the configuration names first. -/
theorem openChosen_spec {info : Nat} {chosen : FiInfo} {answers : OpenAnswers}
    (hfirst : ∀ name, configuration.interfaces.head? = some name → chosen.domainName = some name) :
    ⦃owning ([info] :: groups)⦄ openChosen lib info chosen answers
      ⦃opened groups fun e => e.Ready configuration ∧ e.pinned = none⦄ := by
  unfold openChosen
  -- Each call finds what was opened before it, and drops that when it fails.
  refine Triple.bind _ _ (call_spec (by simp [owned, ofInfo])) fun _ => ?_
  refine Triple.bind _ _ (acquire_spec (List.nil_subset _)) fun fabric => ?_
  refine Triple.bind _ _ (call_spec (by simp [owned, ofInfo])) fun _ => ?_
  refine Triple.bind _ _ (acquire_spec (by simp [owned, ofInfo])) fun domain => ?_
  refine Triple.bind _ _ (call_spec (by simp [owned, ofInfo])) fun _ => ?_
  refine Triple.bind _ _ (acquire_spec (by simp [owned, ofInfo])) fun addressVector => ?_
  refine Triple.bind _ _ (call_spec (by simp [owned, ofInfo])) fun _ => ?_
  refine Triple.bind _ _ (acquire_spec (by simp [owned, ofInfo])) fun completionQueue => ?_
  refine Triple.bind _ _ (call_spec (by simp [owned, ofInfo])) fun _ => ?_
  refine Triple.bind _ _ (acquire_spec (by simp [owned, ofInfo])) fun endpoint => ?_
  refine Triple.bind _ _ (call_spec (by simp [owned, ofInfo])) fun _ => ?_
  refine Triple.bind _ _ (attach_spec (by simp [ofInfo])) fun _ => ?_
  refine Triple.bind _ _ (call_spec (by simp [owned, ofInfo])) fun _ => ?_
  refine Triple.bind _ _ (attach_spec (by simp [ofInfo])) fun _ => ?_
  refine Triple.bind _ _ (call_spec (by simp [owned, ofInfo])) fun _ => ?_
  exact Triple.pure _ fun _ ho => ⟨ho, ⟨rfl, rfl, rfl, rfl, rfl, rfl, hfirst⟩, rfl⟩

/-- The copy is the endpoint's from the moment that it is taken. -/
theorem openEndpoint_spec {sourceNode : Option String} {answers : OpenAnswers} :
    ⦃owning groups⦄ openEndpoint lib configuration sourceNode answers
      ⦃opened groups fun e => e.Ready configuration ∧ e.pinned = none⦄ := by
  unfold openEndpoint
  refine Triple.bind _ _ queryInfo_spec fun (list, infos) => ?_
  refine Triple.bind _ _ (visit_spec (List.Subset.refl _)) fun _ => ?_
  dsimp only
  split
  · exact Triple.bind _ _ release_spec fun _ => throw_spec _
  · exact Triple.bind _ _ release_spec fun _ => throw_spec _
  · next chosen hchosen _ =>
    refine Triple.bind _ _ acquire_own_spec fun info => ?_
    -- The list goes, and the copy stays.
    refine Triple.bind _ _ (perm_spec (.swap _ _ _) release_spec) fun _ => ?_
    refine openChosen_spec fun name hname => ?_
    rw [hname] at hchosen
    have hfound : infos.find? (fun info => info.domainName = some name) = some chosen := hchosen
    simpa using List.find?_some hfound

/-- The quiesce buffer is registered where it has to be. -/
structure Serves (configuration : Opening.Configuration) (e : LibfabricEndpoint) : Prop where
  ready : e.Ready configuration
  pinned : e.pinned.isSome = (configuration.quiesceWrites && e.requiresLocalMr)

/-- An endpoint is as ready once it has pinned its quiesce buffer. -/
theorem Ready.pin {e : LibfabricEndpoint} (h : e.Ready configuration) (i : Nat) :
    { e with pinned := some i }.Ready configuration :=
  ⟨h.endpoint, h.completionQueue, h.addressVector, h.domain, h.fabric, h.info, h.onFirst⟩

/-- Pinning the quiesce buffer leaves the endpoint serving, or closes it. -/
theorem pinQuiesce_spec {e : LibfabricEndpoint} (hready : e.Ready configuration)
    (hpinned : e.pinned = none) {code : Int} :
    ⦃owning (e.owned :: groups)⦄ e.pinQuiesce lib configuration code
      ⦃opened groups (Serves configuration)⦄ := by
  have hdomain : e.domain.toList ⊆ e.owned := subset_owned (by simp)
  have howned : ∀ i, { e with pinned := some i }.owned = i :: e.owned := by
    simp [owned, hpinned]
  unfold pinQuiesce
  split
  · next hquiesce =>
    refine Triple.pure _ fun _ ho => ⟨ho, hready, ?_⟩
    rw [hpinned, hquiesce, Option.isSome_none]
  · next hquiesce =>
    refine Triple.bind _ _ (call_spec hdomain) fun _ => ?_
    refine Triple.bind _ _ (acquire_spec hdomain) fun i => ?_
    -- The registration is the latest object, and the first that `drop` closes.
    rw [← howned]
    exact Triple.pure _ fun _ ho => ⟨ho, hready.pin i, hquiesce.symm⟩

/-- The endpoint's address is read, or the endpoint is closed. -/
theorem localAddress_spec {e : LibfabricEndpoint} {answers : NameAnswers} :
    ⦃owning (e.owned :: groups)⦄ e.localAddress lib answers
      ⦃post⟨fun _ => owning (e.owned :: groups), fun _ => owning groups⟩⦄ := by
  have hendpoint : e.endpoint.toList ⊆ e.owned := subset_owned (by simp)
  unfold localAddress
  refine Triple.bind _ _ (visit_spec hendpoint) fun _ => ?_
  split
  · exact Triple.bind _ _ drop_spec fun _ => throw_spec _
  · refine Triple.bind _ _ (call_spec hendpoint) fun _ => ?_
    exact Triple.pure _ .rfl

end LibfabricEndpoint

/-! ### Services -/

open LibfabricEndpoint

namespace FabricService

variable {groups : List (List Nat)} {lib : Libfabric} {configuration : Opening.Configuration}

/-- A service is the last owner, or nothing is left of it. -/
def started (groups : List (List Nat)) (P : FabricService → Prop) :
    PostCond FabricService (.except DmaError (.arg Objects .pure)) :=
  post⟨fun service o => ⌜Holding o (service.endpoint.owned :: groups) ∧ P service⌝,
    fun _ => owning groups⟩

/-- The worker's thread opens its endpoint, or has closed what it had opened of it. -/
theorem startWorker_spec {answers : StartAnswers} :
    ⦃owning groups⦄ startWorker lib configuration answers
      ⦃started groups fun service => service.endpoint.Serves configuration⦄ := by
  unfold startWorker
  refine Triple.bind _ _ openEndpoint_spec fun e => given_spec fun ⟨hready, hpinned⟩ => ?_
  refine Triple.bind _ _ (pinQuiesce_spec hready hpinned) fun e => given_spec fun hserves => ?_
  refine Triple.bind _ _ localAddress_spec fun address => ?_
  exact Triple.pure _ fun _ ho => ⟨ho, hserves⟩

/-- `FabricService::start` owns the worker's endpoint, or nothing more than before. -/
theorem start_spec {answers : StartAnswers} :
    ⦃owning groups⦄ start lib configuration answers
      ⦃started groups fun service => service.endpoint.Serves configuration⦄ := by
  unfold start
  split
  · exact throw_spec _
  · exact startWorker_spec

/-- The drop of a service closes its endpoint. -/
theorem drop_spec {service : FabricService} {failed : DmaError → OpeningAssertion} :
    ⦃owning (service.endpoint.owned :: groups)⦄ service.drop
      ⦃post⟨fun _ => owning groups, failed⟩⦄ :=
  LibfabricEndpoint.drop_spec

end FabricService

end Vdma.Fabric
