import Vdma.Proofs.Module.Runs

/-!
# `Vdma.Proofs.Module.AllOrNothing`: a `DMA.SET` stores all or nothing

`Landed` follows the bytes. A read that was reaped `Ok` has a landing, whose bytes stay in the
buffer while the token has it. The worker or the pool hashes the op in between, so the
checksum of a completion is that of the bytes that landed.

`set_all_or_nothing` reads off what the client is told, and what becomes of the keyspace.
-/

set_option autoImplicit false

namespace Vdma.Module

open Vdma.Lib Vdma.Fabric Vdma.Protocol

/-! ### Landings -/

/-- The landings are those of the reads that were reaped `Ok`. -/
theorem mem_landed {device : Nat} {memory : Nat → UInt8} {reports : List Report}
    {landing : Landing} :
    landing ∈ landed device memory reports ↔
      ∃ op, .reaped op true ∈ reports ∧ op.kind = .read ∧
        landing = ⟨device, op.context, ⟨op.pointer, op.length⟩,
          bytesAt memory ⟨op.pointer, op.length⟩⟩ := by
  unfold landed
  rw [List.mem_filterMap]
  constructor
  · intro ⟨report, hreport, hlanding⟩
    split at hlanding
    · next op =>
      split at hlanding
      · next hkind =>
        cases hlanding
        exact ⟨op, hreport, hkind, rfl⟩
      · cases hlanding
    · cases hlanding
  · intro ⟨op, hreport, hkind, hlanding⟩
    exact ⟨.reaped op true, hreport, by rw [hlanding]; exact if_pos hkind⟩

/-- What has landed, and what is said of it. -/
structure Landed (devices : Devices) (s : State) : Prop where
  /-- A read that was reaped `Ok` has a landing. -/
  reads : ∀ device op, .reaped op true ∈ (s.fabrics device).wire.history → op.kind = .read →
    ∃ landing ∈ s.landings, landing.device = device ∧ landing.number = op.context ∧
      landing.slice = ⟨op.pointer, op.length⟩
  /-- A landing is of such a read. -/
  reports : ∀ landing ∈ s.landings, ∃ op,
    .reaped op true ∈ (s.fabrics landing.device).wire.history ∧ op.kind = .read ∧
      landing.number = op.context ∧ landing.slice = ⟨op.pointer, op.length⟩
  /-- The bytes stay while the token has its buffer. -/
  held : ∀ landing ∈ s.landings, s.isOpen landing = true →
    bytesAt (s.fabrics landing.device).memory landing.slice = landing.bytes
  sized : ∀ landing ∈ s.landings, landing.bytes.length = landing.slice.length
  finished : ∀ device number, (device, number) ∈ s.finished →
    ∃ c ∈ (s.fabrics device).delivered, c.number = number
  /-- A checksum is of the bytes that landed. -/
  hashed : ∀ device, ∀ c ∈ (s.fabrics device).completed, ∀ done, c.outcome = .ok done →
    ∀ crc, done.checksum = some crc → ∀ landing ∈ s.landings, landing.device = device →
      landing.number = c.number → crc = (devices.setup device).checksum landing.bytes

/-! ### The operand of an op -/

section
variable {T : Type} [Operands T] {setup : Setup} {f : Fabric.State T}

/-- The box of an op has the operand that its read is posted with. -/
theorem operand_of_read (h : (service T setup).Reachable f)
    {request : TransferRequest (Tagged T)} {op₀ op : InFlight T} {prepared : Prepared}
    (horigin : Origin setup f.callers.sent op.number request op₀ prepared)
    (hbuilt : op₀.asBuilt = op.asBuilt) {post : PostedOp} {ok : Bool}
    (hreport : .reaped post ok ∈ f.wire.history) (hread : post.kind = .read)
    (hcontext : post.context = op.number) :
    (⟨op.bufferPointer, op.length⟩ : Slice) = ⟨post.pointer, post.length⟩ := by
  obtain ⟨request', slice, hwithin⟩ := posted_within h ((told_reach h).reaped post ok hreport)
  have hsame : request' = request :=
    List.inj_on_of_nodup_map (owned_reach h).2.unique hwithin.mem horigin.mem
      (hwithin.number_eq.trans (hcontext.trans horigin.number_eq.symm))
  subst hsame
  obtain ⟨-, hlength, -, hpointer⟩ := InFlight.asBuilt_fields hbuilt
  obtain ⟨hpointer₀, hlength₀, -⟩ := prepare_box horigin.built
  obtain ⟨slice', hslice', hfront, hextent, -⟩ := resolveOperand_ok (prepare_built horigin.built).1
  have hslices : slice' = slice := Option.some.inj (hslice'.symm.trans hwithin.supplied_eq)
  obtain ⟨hpost, hposts⟩ := hwithin.transfer (by rw [hread]; nofun)
  rw [← hpointer, ← hlength, hpointer₀, hlength₀, hfront, hextent, hslices, hpost, hposts]

/-- A new `Ok` completion has the checksum of what is now in its buffer. -/
theorem checksum_of_new {f' : Fabric.State T} {move : Move T} (hs : Settled f) (ho : Owned f)
    (hmove : Moves setup f move f') {c : Completion (Tagged T)} (hc : c ∈ f'.completed)
    (hnew : c ∉ f.completed) {done : TransferDone} (hdone : c.outcome = .ok done) {crc : UInt32}
    (hcrc : done.checksum = some crc) :
    ∃ op, f.HasBuilt op ∧ c.number = op.number ∧
      crc = setup.checksum (bytesAt f.memory ⟨op.bufferPointer, op.length⟩) := by
  rcases (hmove.opMove hs ho).completed c hc with hold | ⟨op, hop, result, rfl⟩ |
    ⟨request, -, hprepare⟩
  · -- Finished from a box, with what the transfer itself ended with.
    exact absurd hold hnew
  · refine ⟨op, hop, rfl, ?_⟩
    cases result with
    | error error => cases hdone
    | ok u =>
      cases hdone
      dsimp only at hcrc
      -- A checksum is taken only when it was asked for.
      split at hcrc
      · cases hcrc
        rfl
      · cases hcrc
  · -- A refusal is an error.
    obtain ⟨-, error, herror⟩ := prepare_error hprepare
    rw [herror] at hdone
    cases hdone

end

/-! ### A device reaps -/

/-- One device moves, and leaves memory. Its wire reports `rest` more, and what was read of that
has landed. -/
structure Reaps (s s' : State) (device : Nat) (rest : List Report) : Prop where
  other : ∀ d, d ≠ device → s'.fabrics d = s.fabrics d
  history : (s'.fabrics device).wire.history = (s.fabrics device).wire.history ++ rest
  memory : ∀ d, (s'.fabrics d).memory = (s.fabrics d).memory
  landings : s'.landings = s.landings ++ landed device (s'.fabrics device).memory rest
  finished : s'.finished = s.finished

namespace Reaps

variable {devices : Devices} {s s' : State} {device : Nat} {rest : List Report}

/-- A landing was there before, or is of a read that is reaped now. -/
theorem cases (hreaps : Reaps s s' device rest) {landing : Landing}
    (hlanding : landing ∈ s'.landings) :
    landing ∈ s.landings ∨ ∃ op, .reaped op true ∈ rest ∧ op.kind = .read ∧
      landing = ⟨device, op.context, ⟨op.pointer, op.length⟩,
        bytesAt (s'.fabrics device).memory ⟨op.pointer, op.length⟩⟩ := by
  rw [hreaps.landings] at hlanding
  rcases List.mem_append.mp hlanding with hold | hnew
  · exact .inl hold
  · exact .inr (mem_landed.mp hnew)

/-- What was reported before still is. -/
theorem reported (hreaps : Reaps s s' device rest) {d : Nat} {report : Report}
    (hreport : report ∈ (s.fabrics d).wire.history) : report ∈ (s'.fabrics d).wire.history := by
  by_cases hd : d = device
  · subst hd
    rw [hreaps.history]
    exact List.mem_append_left _ hreport
  · rwa [hreaps.other d hd]

/-- A read that was reaped `Ok` has a landing. -/
theorem reads (hreaps : Reaps s s' device rest) (h : Landed devices s) (d : Nat) (op : PostedOp)
    (hreport : .reaped op true ∈ (s'.fabrics d).wire.history) (hkind : op.kind = .read) :
    ∃ landing ∈ s'.landings, landing.device = d ∧ landing.number = op.context ∧
      landing.slice = ⟨op.pointer, op.length⟩ := by
  have hold : .reaped op true ∈ (s.fabrics d).wire.history →
      ∃ landing ∈ s'.landings, landing.device = d ∧ landing.number = op.context ∧
        landing.slice = ⟨op.pointer, op.length⟩ := by
    intro hreport
    obtain ⟨landing, hlanding, hof⟩ := h.reads d op hreport hkind
    exact ⟨landing, by rw [hreaps.landings]; exact List.mem_append_left _ hlanding, hof⟩
  by_cases hd : d = device
  · subst hd
    rw [hreaps.history] at hreport
    rcases List.mem_append.mp hreport with hbefore | hnow
    · exact hold hbefore
    · refine ⟨⟨d, op.context, ⟨op.pointer, op.length⟩,
        bytesAt (s'.fabrics d).memory ⟨op.pointer, op.length⟩⟩, ?_, rfl, rfl, rfl⟩
      rw [hreaps.landings]
      exact List.mem_append_right _ (mem_landed.mpr ⟨op, hnow, hkind, rfl⟩)
  · rw [hreaps.other d hd] at hreport
    exact hold hreport

/-- A landing is of a read that was reaped `Ok`. -/
theorem reports (hreaps : Reaps s s' device rest) (h : Landed devices s) (landing : Landing)
    (hlanding : landing ∈ s'.landings) :
    ∃ op, .reaped op true ∈ (s'.fabrics landing.device).wire.history ∧ op.kind = .read ∧
      landing.number = op.context ∧ landing.slice = ⟨op.pointer, op.length⟩ := by
  rcases hreaps.cases hlanding with hold | ⟨op, hreport, hkind, rfl⟩
  · obtain ⟨op, hreport, hof⟩ := h.reports landing hold
    exact ⟨op, hreaps.reported hreport, hof⟩
  · refine ⟨op, ?_, hkind, rfl, rfl⟩
    rw [hreaps.history]
    exact List.mem_append_right _ hreport

/-- The bytes stay while the token has its buffer. -/
theorem held (hreaps : Reaps s s' device rest) (h : Landed devices s) (landing : Landing)
    (hlanding : landing ∈ s'.landings) (hopen : s'.isOpen landing = true) :
    bytesAt (s'.fabrics landing.device).memory landing.slice = landing.bytes := by
  rcases hreaps.cases hlanding with hold | ⟨op, -, -, rfl⟩
  · rw [hreaps.memory]
    refine h.held landing hold ?_
    simp only [State.isOpen, hreaps.finished] at hopen ⊢
    exact hopen
  · rfl

/-- A landing has as many bytes as its slice. -/
theorem sized (hreaps : Reaps s s' device rest) (h : Landed devices s) (landing : Landing)
    (hlanding : landing ∈ s'.landings) : landing.bytes.length = landing.slice.length := by
  rcases hreaps.cases hlanding with hold | ⟨op, -, -, rfl⟩
  · exact h.sized landing hold
  · exact length_bytesAt _ _

variable {move : Move OpToken}

/-- A completion made now has the checksum of what its read landed. -/
theorem checksum_of_landing (hreaps : Reaps s s' device rest) (h : Landed devices s)
    (hreach : (service OpToken (devices.setup device)).Reachable (s.fabrics device))
    (hreach' : (service OpToken (devices.setup device)).Reachable (s'.fabrics device))
    (hmove : Moves (devices.setup device) (s.fabrics device) move (s'.fabrics device))
    {c : Completion (Tagged OpToken)} (hc : c ∈ (s'.fabrics device).completed)
    (hnew : c ∉ (s.fabrics device).completed) {done : TransferDone} (hdone : c.outcome = .ok done)
    {crc : UInt32} (hcrc : done.checksum = some crc) {landing : Landing}
    (hlanding : landing ∈ s'.landings) (hdevice : landing.device = device)
    (hnumber : landing.number = c.number) :
    crc = (devices.setup device).checksum landing.bytes := by
  obtain ⟨hs, ho⟩ := owned_reach hreach
  obtain ⟨op, hop, hcnumber, hsum⟩ := checksum_of_new hs ho hmove hc hnew hdone hcrc
  -- The op has its box still, so its token has its buffer.
  have hopen : s'.isOpen landing = true := by
    simp only [State.isOpen, decide_eq_true_eq, hreaps.finished]
    intro hmem
    rw [hdevice] at hmem
    obtain ⟨c', hc', hnumber'⟩ := h.finished device landing.number hmem
    exact ho.number_ne_of_box hop (List.mem_append_right _ hc')
      (hnumber'.trans (hnumber.trans hcnumber))
  obtain ⟨request, op₀, prepared, horigin, hbuilt⟩ := (built_reach hreach).origin hop
  obtain ⟨post, hreport, hread, hcontext, hslice⟩ := hreaps.reports h landing hlanding
  rw [hdevice] at hreport
  have hoperand := operand_of_read hreach' (horigin.mono (hmove.sent_subset hs ho)) hbuilt
    hreport hread (hcontext.symm.trans (hnumber.trans hcnumber))
  have hbytes := hreaps.held h landing hlanding hopen
  rw [hdevice, hreaps.memory, hslice, ← hoperand] at hbytes
  rw [hsum, hbytes]

/-- A checksum is of the bytes that landed. -/
theorem hashed (hreaps : Reaps s s' device rest) (h : Landed devices s)
    (hreach : (service OpToken (devices.setup device)).Reachable (s.fabrics device))
    (hreach' : (service OpToken (devices.setup device)).Reachable (s'.fabrics device))
    (hmove : Moves (devices.setup device) (s.fabrics device) move (s'.fabrics device)) :
    ∀ d, ∀ c ∈ (s'.fabrics d).completed, ∀ done, c.outcome = .ok done →
      ∀ crc, done.checksum = some crc → ∀ landing ∈ s'.landings, landing.device = d →
        landing.number = c.number → crc = (devices.setup d).checksum landing.bytes := by
  intro d c hc done hdone crc hcrc landing hlanding hdevice hnumber
  by_cases hd : d = device
  · subst hd
    by_cases hold : c ∈ (s.fabrics d).completed
    · -- The op of a completion is not reaped any more.
      rcases hreaps.cases hlanding with hlanding | ⟨op, hreport, -, rfl⟩
      · exact h.hashed d c hold done hdone crc hcrc landing hlanding hdevice hnumber
      · obtain ⟨hs, ho⟩ := owned_reach hreach
        have hdrop : .reaped op true ∈
            (s'.fabrics d).wire.history.drop (s.fabrics d).wire.history.length := by
          rw [hreaps.history, List.drop_left]
          exact hreport
        obtain ⟨box, hbox, hcontext⟩ := hmove.box_of_reaped hs ho hdrop
        exact absurd (hnumber.symm.trans hcontext.symm) (ho.number_ne_of_box hbox hold)
    · exact hreaps.checksum_of_landing h hreach hreach' hmove hc hold hdone hcrc hlanding hdevice
        hnumber
  · -- The other devices complete nothing, and nothing lands there.
    rw [hreaps.other d hd] at hc
    rcases hreaps.cases hlanding with hlanding | ⟨op, -, -, rfl⟩
    · exact h.hashed d c hc done hdone crc hcrc landing hlanding hdevice hnumber
    · exact absurd hdevice.symm hd

end Reaps

namespace Landed

variable {devices : Devices} {s s' : State} {e : Event}

/-- A step that leaves the services and the landings. A completion that it finishes was
delivered. -/
theorem of_same (h : Landed devices s) (hfabrics : s'.fabrics = s.fabrics)
    (hlandings : s'.landings = s.landings) (hsub : s.finished ⊆ s'.finished)
    (hfinished : ∀ device number, (device, number) ∈ s'.finished →
      (device, number) ∈ s.finished ∨ ∃ c ∈ (s.fabrics device).delivered, c.number = number) :
    Landed devices s' where
  reads := by rw [hfabrics, hlandings]; exact h.reads
  reports := by rw [hfabrics, hlandings]; exact h.reports
  held landing hlanding hopen := by
    rw [hlandings] at hlanding
    rw [hfabrics]
    refine h.held landing hlanding ?_
    simp only [State.isOpen, decide_eq_true_eq] at hopen ⊢
    exact fun hmem => hopen (hsub hmem)
  sized := by rw [hlandings]; exact h.sized
  finished device number hmem := by
    rw [hfabrics]
    rcases hfinished device number hmem with hold | hnew
    · exact h.finished device number hold
    · exact hnew
  hashed := by rw [hfabrics, hlandings]; exact h.hashed

/-- A service moves and leaves memory. What it reaps has landed. -/
theorem of_fabric (h : Landed devices s) {device : Nat} {fabric : Fabric.State OpToken}
    {move : Move OpToken} (hreach : (service OpToken (devices.setup device)).Reachable
      (s.fabrics device))
    (hstep : (s.fabrics device).step (devices.setup device) move = some fabric)
    (hmemory : fabric.memory = (s.fabrics device).memory)
    (hfabrics : s'.fabrics = Function.update s.fabrics device fabric)
    (hlandings : s'.landings = s.landings ++ landed device fabric.memory
      (fabric.wire.history.drop (s.fabrics device).wire.history.length))
    (hfinished : s'.finished = s.finished) : Landed devices s' := by
  obtain ⟨hs, ho⟩ := owned_reach hreach
  have hmove := moves_of_step (T := OpToken) hstep
  obtain ⟨rest, hrest⟩ := WireMove.history_prefix (hmove.wireMove hs ho)
  rw [← hrest, List.drop_left] at hlandings
  have hself : s'.fabrics device = fabric := by rw [hfabrics, Function.update_self]
  have hother : ∀ d, d ≠ device → s'.fabrics d = s.fabrics d := by
    intro d hd
    rw [hfabrics, Function.update_of_ne hd]
  have hreaps : Reaps s s' device rest := by
    refine ⟨hother, by rw [hself, hrest], fun d => ?_, by rw [hself]; exact hlandings, hfinished⟩
    by_cases hd : d = device
    · rw [hd, hself, hmemory]
    · rw [hother d hd]
  rw [← hself] at hmove hstep
  refine ⟨hreaps.reads h, hreaps.reports h, hreaps.held h, hreaps.sized h, ?_,
    hreaps.hashed h hreach (hreach.step trivial hstep) hmove⟩
  intro d number hmem
  rw [hfinished] at hmem
  obtain ⟨c, hc, hnumber⟩ := h.finished d number hmem
  refine ⟨c, ?_, hnumber⟩
  by_cases hd : d = device
  · subst hd
    exact hmove.delivered_subset hs ho hc
  · rwa [hother d hd]

/-- Every step keeps the landings. -/
theorem step (h : Landed devices s)
    (hreach : ∀ device, (service OpToken (devices.setup device)).Reachable (s.fabrics device))
    (hstep : Steps devices s e s') : Landed devices s' := by
  cases hstep with
  -- Nothing lands, and no hook runs.
  | answered next harrives | gone next command request harrives hasks | keyspace keyspace =>
    exact h.of_same rfl rfl (fun _ => id) fun _ _ => .inl
  -- Submitting and sending reach neither the memory nor the wire.
  | submitted next command request fabric harrives hasks hstep =>
    obtain ⟨hs, ho⟩ := owned_reach (hreach command.device)
    obtain ⟨hwire, hmemory⟩ := quiet_of_callers hs ho (.inl ⟨request, rfl⟩) hstep
    refine h.of_fabric (hreach _) hstep hmemory rfl ?_ rfl
    rw [hwire, List.drop_length]
    exact (List.append_nil _).symm
  | send device i fabric hstep =>
    obtain ⟨hs, ho⟩ := owned_reach (hreach device)
    obtain ⟨hwire, hmemory⟩ := quiet_of_callers hs ho (.inr ⟨i, rfl⟩) hstep
    refine h.of_fabric (hreach _) hstep hmemory rfl ?_ rfl
    rw [hwire, List.drop_length]
    exact (List.append_nil _).symm
  | fabric device move fabric hown hstep =>
    obtain ⟨hs, ho⟩ := owned_reach (hreach device)
    exact h.of_fabric (hreach _) hstep (callers_of_own hs ho hown hstep).2.2 rfl rfl rfl
  -- The hook's number is the one delivered completion's.
  | finish device index stores completion hdelivered hopen =>
    refine h.of_same rfl rfl (List.subset_append_left _ _) ?_
    intro d number hmem
    rcases List.mem_append.mp hmem with hold | hnew
    · exact .inl hold
    · cases List.mem_singleton.mp hnew
      exact .inr ⟨completion, List.mem_of_getElem? hdelivered, rfl⟩
  -- What the host writes keeps clear of what has landed, or the move is no step.
  | write memory hkeeps =>
    exact ⟨h.reads, h.reports, hkeeps, h.sized, h.finished, h.hashed⟩

end Landed

/-- In every run the landings are as `Landed` says. -/
theorem landed_reach {devices : Devices} {s : State} (h : (system devices).Reachable s) :
    Landed devices s := by
  refine h.invariant_given (J := fun s => (system devices).Reachable s) (I := Landed devices)
    (fun s hs => hs) ?_ ?_
  · -- At the start nothing was reported, landed or finished.
    intro s hinit
    obtain ⟨hfabrics, -, -, hlandings, hfinished, -⟩ := hinit
    refine ⟨?_, ?_, ?_, ?_, ?_, ?_⟩
    · intro device op hreport
      rw [hfabrics] at hreport
      cases hreport
    · rw [hlandings]
      nofun
    · rw [hlandings]
      nofun
    · rw [hlandings]
      nofun
    · rw [hfinished]
      nofun
    · rw [hlandings]
      nofun
  · intro s e s' hs _ _ hstep hlanded
    exact hlanded.step (fun device => fabric_reach hs device) (steps_of_step hstep)

/-! ### A finished `DMA.SET` -/

section
variable {devices : Devices} {s s' : State} {device : Nat}
  {request : TransferRequest (Tagged OpToken)} {c : Completion (Tagged OpToken)}

/-- The completion of a transfer is about that transfer. -/
theorem completion_of_sent (h : (system devices).Reachable s)
    (hc : c ∈ (s.fabrics device).completed) :
    ∃ request ∈ (s.fabrics device).callers.sent, request.number = c.number ∧
      CompletionFor (devices.setup device) request c ∧ c.callerContext = returned request := by
  obtain ⟨request, hrequest, hnumber, hfor⟩ := (built_reach (fabric_reach h device)).completed c hc
  refine ⟨request, hrequest, hnumber, hfor, ?_⟩
  cases hfor with
  | inl hrefused => exact (prepare_error hrefused).1
  | inr hbuilt =>
    obtain ⟨op, prepared, hprepare, hcontext, -⟩ := hbuilt
    exact hcontext.trans (prepare_ok hprepare).1

/-- A landing is where its transfer reads to. -/
theorem slice_of_landing (h : (system devices).Reachable s) {landing : Landing}
    (hlanding : landing ∈ s.landings)
    (hrequest : request ∈ (s.fabrics landing.device).callers.sent)
    (hnumber : landing.number = request.number) :
    ∃ slice, supplied request = some slice ∧
      landing.slice = ⟨slice.pointer, extent request slice⟩ := by
  have hreach := fabric_reach h landing.device
  obtain ⟨op, hreport, hread, hcontext, hslice⟩ := (landed_reach h).reports landing hlanding
  obtain ⟨request', slice, hwithin⟩ :=
    posted_within hreach ((told_reach hreach).reaped op true hreport)
  have hsame : request' = request :=
    List.inj_on_of_nodup_map (owned_reach hreach).2.unique hwithin.mem hrequest
      (hwithin.number_eq.trans (hcontext.symm.trans hnumber))
  subst hsame
  obtain ⟨hpointer, hlength⟩ := hwithin.transfer (by rw [hread]; nofun)
  exact ⟨slice, hwithin.supplied_eq, by rw [hslice, hpointer, hlength]⟩

/-- A read that is completed `Ok` has landed. -/
theorem landing_of_ok (h : (system devices).Reachable s) (hc : c ∈ (s.fabrics device).completed)
    (hrequest : request ∈ (s.fabrics device).callers.sent) (hnumber : request.number = c.number)
    {length : Nat} (hdirection : request.direction = .fromPeer length) {done : TransferDone}
    (hdone : c.outcome = .ok done) :
    ∃ landing ∈ s.landings, landing.device = device ∧ landing.number = request.number := by
  have hreach := fabric_reach h device
  obtain ⟨post, hpost, hreport, hcontext, hkind, -⟩ := (told_reach hreach).completed c hc done hdone
  obtain ⟨request', slice, hwithin⟩ := posted_within hreach hpost
  have hsame : request' = request :=
    List.inj_on_of_nodup_map (owned_reach hreach).2.unique hwithin.mem hrequest
      (hwithin.number_eq.trans (hcontext.trans hnumber.symm))
  subst hsame
  have hread : post.kind = .read := hwithin.read.mpr ⟨length, hdirection⟩
  obtain ⟨landing, hlanding, hdevice, hcontext', -⟩ :=
    (landed_reach h).reads device post hreport hread
  exact ⟨landing, hlanding, hdevice, hcontext'.trans hwithin.number_eq.symm⟩

/-- Two landings of an op that is not finished have the same bytes. -/
theorem bytes_unique (h : (system devices).Reachable s) {landing landing' : Landing}
    (hlanding : landing ∈ s.landings) (hlanding' : landing' ∈ s.landings)
    (hdevice : landing'.device = landing.device) (hnumber : landing'.number = landing.number)
    (hrequest : request ∈ (s.fabrics landing.device).callers.sent)
    (hrequestNumber : landing.number = request.number)
    (hopen : s.isOpen landing = true) : landing'.bytes = landing.bytes := by
  have hopen' : s.isOpen landing' = true := by
    simp only [State.isOpen, hdevice, hnumber] at hopen ⊢
    exact hopen
  obtain ⟨slice, hslice, hbuffer⟩ := slice_of_landing h hlanding hrequest hrequestNumber
  obtain ⟨slice', hslice', hbuffer'⟩ := slice_of_landing h hlanding' (by rwa [hdevice])
    (hnumber.trans hrequestNumber)
  have hslices : slice' = slice := Option.some.inj (hslice'.symm.trans hslice)
  have hheld := (landed_reach h).held landing hlanding hopen
  have hheld' := (landed_reach h).held landing' hlanding' hopen'
  rw [hbuffer', hslices, hdevice] at hheld'
  rw [hbuffer] at hheld
  exact hheld'.symm.trans hheld

end

/-! ### Replies -/

/-- What `set_reply` makes of a transfer that is `Ok`, with a checksum whenever one is expected:
it stores the destination when the checksum is the expected one and `set_move` succeeds, and
else answers an error. -/
theorem setReply_ok (memory : Nat → UInt8) (stores : Bool) (keyspace : Keyspace)
    (done : TransferDone) (value : ValkeyString) (key : Bytes) (expected : Option UInt32)
    (hasked : done.checksum.isSome = expected.isSome) :
    if done.checksum = expected ∧ stores = true then
      setReply memory stores keyspace (.ok done) (some value) key expected
        = (.ok (.integer (asI64 done.bytes)), keyspace.insert key (bytesAt memory value.asSlice))
    else
      ∃ error, setReply memory stores keyspace (.ok done) (some value) key expected
        = (.error error, keyspace) := by
  have hcommit : stores = false →
      commit memory stores keyspace done (some value) key
        = (.error (.str "ERR failed to store value"), keyspace) := by
    intro hstores
    rw [hstores]
    rfl
  split
  · next hboth =>
    -- Without a checksum in the request there is nothing to compare.
    obtain ⟨hsame, rfl⟩ := hboth
    cases expected with
    | none => rfl
    | some crc =>
      have hactual : done.checksum.getD 0 = crc := by rw [hsame]; rfl
      simp only [setReply, hactual, ne_eq, not_true_eq_false, if_false]
      rfl
  · next hnot =>
    -- The store failed, or the checksums differ.
    cases expected with
    | none =>
      have hchecksum : done.checksum = none := by
        rw [← Option.isNone_iff_eq_none, ← Option.not_isSome, hasked]
        rfl
      -- With no checksum to differ, it is the store that failed.
      have hstores : stores = false := by
        cases stores with
        | true => exact absurd ⟨hchecksum, rfl⟩ hnot
        | false => rfl
      exact ⟨_, hcommit hstores⟩
    | some crc =>
      obtain ⟨actual, hactual⟩ := Option.isSome_iff_exists.mp (hasked.trans rfl)
      have hgot : done.checksum.getD 0 = actual := by rw [hactual]; rfl
      -- The checksums agree, so it is the store again.
      by_cases hcrc : actual = crc
      · have hstores : stores = false := by
          cases stores with
          | true => exact absurd ⟨by rw [hactual, hcrc], rfl⟩ hnot
          | false => rfl
        simp only [setReply, hgot, hcrc, ne_eq, not_true_eq_false, if_false]
        exact ⟨_, hcommit hstores⟩
      · simp only [setReply, hgot, ne_eq, hcrc, not_false_eq_true, if_true]
        exact ⟨_, rfl⟩

/-- The context of a `DMA.SET` when its transfer comes back: with a destination of the length
asked for, unless the allocation never happened. -/
theorem returned_set (request : TransferRequest (Tagged OpToken)) {blocked : Nat} {key : Bytes}
    {length : Nat} {expected : Option UInt32} {landing : Nat}
    (hdirection : request.direction = .fromPeer length)
    (hcontext : request.callerContext.user = .set blocked none key expected landing) :
    ∃ destination, (returned request).user = .set blocked destination key expected landing ∧
      supplied request = destination.map ValkeyString.asSlice ∧
      ∀ value, destination = some value → value.length = length := by
  -- The allocation decides: its token comes back, and its buffer is the operand.
  have hallocate : (returned request).user = (OpToken.allocate
      (.set blocked none key expected landing) length).2 ∧ supplied request
        = (OpToken.allocate (.set blocked none key expected landing) length).1 := by
    rw [returned, supplied, hdirection, hcontext]
    constructor
    · show (resolveOperand (.fromPeer length) (OpToken.set blocked none key expected landing)).2 = _
      simp only [resolveOperand]
      split
      · next slice user hallocated =>
        split
        · exact (congrArg Prod.snd hallocated).symm
        · exact (congrArg Prod.snd hallocated).symm
      · next user hallocated => exact (congrArg Prod.snd hallocated).symm
    · rfl
  rw [hallocate.1, hallocate.2]
  unfold OpToken.allocate ValkeyString.createUninitialized
  -- Only a length over `isize::MAX` is refused.
  by_cases hfits : length ≤ isizeMax
  · refine ⟨some ⟨landing, length, hfits⟩, ?_, ?_, ?_⟩
    · simp only [dif_pos hfits]
    · simp only [dif_pos hfits]
      rfl
    · intro value hvalue
      cases hvalue
      rfl
  · refine ⟨none, ?_, ?_, by simp⟩
    · simp only [dif_neg hfits]
    · simp only [dif_neg hfits]
      rfl

/-- The context of a `DMA.GET` comes back as it went. -/
theorem returned_get {request : TransferRequest (Tagged OpToken)}
    (hdirection : request.direction = .toPeer) :
    (returned request).user = request.callerContext.user := by
  rw [returned, hdirection]
  show (resolveOperand .toPeer request.callerContext.user).2 = _
  simp only [resolveOperand]
  split
  · rfl
  · rfl

/-! ### All or nothing -/

/-- The client gets an error, and the keyspace is as it was. -/
def Rejected (s s' : State) (reply : ValkeyResult) : Prop :=
  (∃ error, reply = .error error) ∧ s'.keyspace = s.keyspace

/-- The key's value is what landed, of the length asked for, which is what the client gets. -/
def Stored (s s' : State) (key : Bytes) (length : UInt64) (reply : ValkeyResult)
    (landing : Landing) : Prop :=
  landing.bytes.length = length.toNat ∧ s'.keyspace = s.keyspace.insert key landing.bytes ∧
    reply = .ok (.integer length.toNat)

/-- `landing` has the bytes that the RMA of a command brought. -/
def LandingOf (s : State) (device blocked : Nat) (landing : Landing) : Prop :=
  landing ∈ s.landings ∧ landing.device = device ∧
    (∃ request ∈ (s.fabrics device).callers.sent, request.number = landing.number ∧
      ∃ command, s.commands[blocked]? = some command ∧ command.Asks blocked (untag request)) ∧
    ∀ landing' ∈ s.landings, landing'.device = device → landing'.number = landing.number →
      landing'.bytes = landing.bytes

/-- A checksum that the client gave is the one of the bytes. -/
def Verified (devices : Devices) (device : Nat) (expected : Option UInt32) (bytes : Bytes) : Prop :=
  ∀ crc, expected = some crc → (devices.setup device).checksum bytes = crc

section
variable {devices : Devices} {s s' : State} {device index : Nat}
  {c : Completion (Tagged OpToken)} {blocked : Nat} {advertisement : Advertisement} {key : Bytes}
  {length : UInt64} {expected : Option UInt32}

/-- The transfer that a delivered completion of a `DMA.SET` answers. -/
theorem request_of_finished (h : (system devices).Reachable s)
    (hdelivered : (s.fabrics device).delivered[index]? = some c) :
    ∃ request ∈ (s.fabrics device).callers.sent, request.number = c.number ∧
      CompletionFor (devices.setup device) request c ∧ c.callerContext = returned request ∧
      ∃ (blocked : Nat) (command : Command), s.commands[blocked]? = some command ∧
        command.device = device ∧ command.Asks blocked (untag request) := by
  have hc : c ∈ (s.fabrics device).completed :=
    List.mem_append_right _ (List.mem_of_getElem? hdelivered)
  obtain ⟨request, hrequest, hnumber, hfor, hcontext⟩ := completion_of_sent h hc
  obtain ⟨blocked, command, hcommand, hdevice, hasks⟩ :=
    (asked_reach h).sent device request hrequest
  exact ⟨request, hrequest, hnumber, hfor, hcontext, blocked, command, hcommand, hdevice, hasks⟩

/-- What an `Ok` completion of a `DMA.SET` has behind it: a destination of the length asked for,
whose bytes are those that landed, and a checksum of them when one was given. -/
theorem destination_of_ok (h : (system devices).Reachable s)
    (hdelivered : (s.fabrics device).delivered[index]? = some c)
    (hopen : (device, c.number) ∉ s.finished) {request : TransferRequest (Tagged OpToken)}
    (hrequest : request ∈ (s.fabrics device).callers.sent) (hnumber : request.number = c.number)
    (hfor : CompletionFor (devices.setup device) request c)
    (hcommand : s.commands[blocked]? = some (.set device advertisement key length expected))
    (hasks : (Command.set device advertisement key length expected).Asks blocked (untag request))
    {done : TransferDone} (hdone : c.outcome = .ok done) :
    ∃ value landing at', (returned request).user = .set blocked (some value) key expected at' ∧
      LandingOf s device blocked landing ∧ landing.number = c.number ∧
      landing.bytes.length = length.toNat ∧ asI64 done.bytes = length.toNat ∧
      bytesAt (s.fabrics device).memory value.asSlice = landing.bytes ∧
      done.checksum = expected.map fun _ => (devices.setup device).checksum landing.bytes := by
  have hc : c ∈ (s.fabrics device).completed :=
    List.mem_append_right _ (List.mem_of_getElem? hdelivered)
  obtain ⟨-, -, -, hdirection, hwant, at', hcontext⟩ := id hasks
  have hdirection' : request.direction = .fromPeer length.toNat := hdirection
  obtain ⟨landing, hlanding, rfl, hlandingNumber⟩ :=
    landing_of_ok h hc hrequest hnumber hdirection' hdone
  obtain ⟨slice, hslice, hbuffer⟩ := slice_of_landing h hlanding hrequest hlandingNumber
  obtain ⟨destination, huser, hsupplied, hlength⟩ := returned_set request hdirection' hcontext
  rw [hsupplied] at hslice
  obtain ⟨value, rfl, hvalue⟩ := Option.map_eq_some_iff.mp hslice
  have hvalueLength := hlength value rfl
  -- The buffer of the destination is where the read landed.
  have hsame : landing.slice = value.asSlice := by
    rw [hbuffer, ← hvalue, extent, hdirection', ← hvalueLength]
    rfl
  have hisOpen : s.isOpen landing = true := by
    simp only [State.isOpen, decide_eq_true_eq, hlandingNumber, hnumber]
    exact hopen
  have hheld := (landed_reach h).held landing hlanding hisOpen
  have hsized := (landed_reach h).sized landing hlanding
  have hunique : ∀ landing' ∈ s.landings, landing'.device = landing.device →
      landing'.number = landing.number → landing'.bytes = landing.bytes :=
    fun landing' hlanding' hdevice' hnumber' =>
      bytes_unique h hlanding hlanding' hdevice' hnumber' hrequest hlandingNumber hisOpen
  -- What `prepare` built has the length asked for, and is hashed when a checksum was given.
  have hbuilt : done.bytes = length.toNat ∧ done.checksum.isSome = expected.isSome := by
    rcases hfor with hrefused | ⟨op, prepared, hprepare, -, hsays⟩
    · obtain ⟨-, error, herror⟩ := prepare_error hrefused
      rw [herror] at hdone
      cases hdone
    · obtain ⟨hbytes, hchecksum⟩ := hsays done hdone
      obtain ⟨-, hopLength, hopWant⟩ := prepare_box hprepare
      obtain ⟨slice', -, -, hextent, -⟩ := resolveOperand_ok (prepare_built hprepare).1
      have hwant' : request.wantChecksum = expected.isSome := hwant
      refine ⟨?_, by rw [hchecksum, hopWant, hwant']⟩
      rw [hbytes, hopLength, hextent, extent, hdirection']
  refine ⟨value, landing, at', huser,
    ⟨hlanding, rfl, ⟨request, hrequest, hlandingNumber.symm, _, hcommand, hasks⟩, hunique⟩,
    hlandingNumber.trans hnumber, ?_, ?_, ?_, ?_⟩
  · rw [hsized, hsame, ← hvalueLength]
    rfl
  · rw [hbuilt.1, ← hvalueLength]
    exact asI64_of_le value.fits
  · rw [← hsame]
    exact hheld
  · have hhashed := (landed_reach h).hashed landing.device c hc done hdone
    cases hexpected : expected with
    | none =>
      rw [hexpected] at hbuilt
      exact Option.not_isSome_iff_eq_none.mp (by rw [hbuilt.2]; simp)
    | some crc =>
      rw [hexpected] at hbuilt
      obtain ⟨actual, hactual⟩ := Option.isSome_iff_exists.mp (hbuilt.2.trans rfl)
      rw [hactual, hhashed actual hactual landing hlanding rfl (hlandingNumber.trans hnumber)]
      rfl

end

/-- What a step that answers the client of a `DMA.SET` does. -/
structure AllOrNothing (devices : Devices) (s s' : State) (e : Event) (device blocked : Nat)
    (key : Bytes) (length : UInt64) (expected : Option UInt32) (reply : ValkeyResult) : Prop where
  /-- Nothing, or all that landed. -/
  outcome : Rejected s s' reply ∨ ∃ landing, LandingOf s device blocked landing ∧
    Stored s s' key length reply landing ∧ Verified devices device expected landing.bytes
  /-- It stores exactly when the transfer is `Ok`, the checksum is absent or that of what landed,
  and `set_move` succeeds. -/
  stores : reply.isOk ↔ ∃ index c landing, e = .finish device index true ∧
    (s.fabrics device).delivered[index]? = some c ∧ c.outcome.isOk ∧
    LandingOf s device blocked landing ∧ landing.number = c.number ∧
    Verified devices device expected landing.bytes
  /-- It accepts no checksum that the worker has not computed. -/
  computed : reply.isOk → ∀ crc, expected = some crc → ∃ index c done,
    e = .finish device index true ∧ (s.fabrics device).delivered[index]? = some c ∧
      c.outcome = .ok done ∧ done.checksum = some crc

namespace AllOrNothing

variable {devices : Devices} {s s' : State} {e : Event} {device blocked : Nat} {key : Bytes}
  {length : UInt64} {expected : Option UInt32} {reply : ValkeyResult}

/-- A step that answers with an error where it may not store. -/
theorem of_rejected (hrejected : Rejected s s' reply)
    (hnot : ∀ index c landing, e = .finish device index true →
      (s.fabrics device).delivered[index]? = some c → c.outcome.isOk →
      LandingOf s device blocked landing → landing.number = c.number →
      ¬Verified devices device expected landing.bytes) :
    AllOrNothing devices s s' e device blocked key length expected reply := by
  obtain ⟨error, herror⟩ := hrejected.1
  have hisOk : ¬reply.isOk := by
    rw [herror]
    nofun
  refine ⟨.inl hrejected, ⟨fun hok => absurd hok hisOk, ?_⟩, fun hok => absurd hok hisOk⟩
  intro ⟨index, c, landing, he, hc, hok, hlanding, hnumber, hverified⟩
  exact absurd hverified (hnot index c landing he hc hok hlanding hnumber)

end AllOrNothing

section
variable {devices : Devices} {s : State} {device index : Nat} {stores : Bool}
  {c : Completion (Tagged OpToken)} {blocked : Nat} {advertisement : Advertisement} {key : Bytes}
  {length : UInt64} {expected : Option UInt32} {reply : ValkeyResult}

/-- Finishing a completion of a `DMA.SET` stores all or nothing. -/
theorem allOrNothing_of_finish (h : (system devices).Reachable s)
    (hdelivered : (s.fabrics device).delivered[index]? = some c)
    (hopen : (device, c.number) ∉ s.finished) {request : TransferRequest (Tagged OpToken)}
    (hrequest : request ∈ (s.fabrics device).callers.sent) (hnumber : request.number = c.number)
    (hfor : CompletionFor (devices.setup device) request c)
    (hreturned : c.callerContext = returned request)
    (hcommand : s.commands[blocked]? = some (.set device advertisement key length expected))
    (hasks : (Command.set device advertisement key length expected).Asks blocked (untag request))
    {s' : State}
    (hreply : finishUnderGil (s.fabrics device).memory stores s.keyspace c.callerContext.user
      c.outcome = (⟨blocked, reply⟩, s'.keyspace)) :
    AllOrNothing devices s s' (.finish device index stores) device blocked key length expected
      reply := by
  have huser : c.callerContext.user = (returned request).user := by rw [hreturned]
  cases houtcome : c.outcome with
  | error error =>
    obtain ⟨-, -, -, hdirection, -, at', hcontext⟩ := id hasks
    obtain ⟨destination, hset, -⟩ := returned_set request hdirection hcontext
    rw [huser, hset, houtcome] at hreply
    have hpair : (⟨blocked, .error (commandError (displayDmaError error))⟩, s.keyspace)
        = ((⟨blocked, reply⟩, s'.keyspace) : PendingReply × Keyspace) := hreply
    simp only [Prod.mk.injEq, PendingReply.mk.injEq, true_and] at hpair
    refine .of_rejected ⟨⟨_, hpair.1.symm⟩, hpair.2.symm⟩ ?_
    intro index' c' landing he hc' hok
    cases he
    rw [hdelivered] at hc'
    cases hc'
    rw [houtcome] at hok
    cases hok
  | ok done =>
    obtain ⟨value, landing, at', hset, hlanding, hlandingNumber, hlength, hbytes, hheld,
      hchecksum⟩ :=
      destination_of_ok h hdelivered hopen hrequest hnumber hfor hcommand hasks houtcome
    rw [huser, hset, houtcome] at hreply
    have hsetReply :=
      setReply_ok (s.fabrics device).memory stores s.keyspace done value key expected
      (by rw [hchecksum]; cases expected <;> rfl)
    -- The worker's checksum is the expected one when the client's is that of the bytes.
    have hverified : done.checksum = expected ↔ Verified devices device expected landing.bytes := by
      rw [hchecksum]
      unfold Verified
      cases expected with
      | none => simp
      | some crc => simp
    have hpair : (⟨blocked, (setReply (s.fabrics device).memory stores s.keyspace (.ok done)
          (some value) key expected).1⟩,
        (setReply (s.fabrics device).memory stores s.keyspace (.ok done) (some value) key
          expected).2) = ((⟨blocked, reply⟩, s'.keyspace) : PendingReply × Keyspace) := hreply
    simp only [Prod.mk.injEq, PendingReply.mk.injEq, true_and] at hpair
    split at hsetReply
    · next hboth =>
      obtain ⟨hsame, rfl⟩ := hboth
      rw [hsetReply] at hpair
      obtain ⟨rfl, hkept⟩ := hpair
      have hverify := hverified.mp hsame
      refine ⟨.inr ⟨landing, hlanding, ⟨hlength, ?_, ?_⟩, hverify⟩, ⟨fun _ => ?_, fun _ => rfl⟩, ?_⟩
      · rw [← hkept, hheld]
      · rw [hbytes]
      · exact ⟨index, c, landing, rfl, hdelivered, by rw [houtcome]; rfl, hlanding, hlandingNumber,
          hverify⟩
      · intro _ crc hcrc
        exact ⟨index, c, done, rfl, hdelivered, houtcome, hsame.trans hcrc⟩
    · next hnot =>
      obtain ⟨error, herror⟩ := hsetReply
      rw [herror] at hpair
      refine .of_rejected ⟨⟨error, hpair.1.symm⟩, hpair.2.symm⟩ ?_
      intro index' c' landing' he hc' hok hlanding' hnumber' hverify
      cases he
      rw [hdelivered] at hc'
      cases hc'
      -- The landings of the op have the same bytes.
      have hsame : landing'.bytes = landing.bytes :=
        hlanding.2.2.2 landing' hlanding'.1 hlanding'.2.1 (hnumber'.trans hlandingNumber.symm)
      rw [hsame] at hverify
      exact hnot ⟨hverified.mpr hverify, rfl⟩

end

/-- `DMA.SET` is all-or-nothing. In every run, a step that answers a client blocked for a
`DMA.SET` leaves the keyspace as it was and answers an error, or stores exactly the bytes that the
RMA of the command brought, of the length asked for, answers that length, and has verified the
checksum when one was given. It stores exactly when the transfer is `Ok`, the checksum is absent
or that of the bytes, and `set_move` succeeds; and it accepts no checksum, `0` included, that was
not computed. The step finishes a completion of the worker, or the command itself when the
worker is gone. -/
theorem set_all_or_nothing {devices : Devices} {s s' : State} {e : Event}
    (h : (system devices).Reachable s) (hstep : (system devices).step s e = some s')
    {blocked : Nat} {reply : ValkeyResult} (hreply : s'.replies = s.replies ++ [⟨blocked, reply⟩])
    {device : Nat} {advertisement : Advertisement} {key : Bytes} {length : UInt64}
    {expected : Option UInt32}
    (hcommand : s'.commands[blocked]? = some (.set device advertisement key length expected)) :
    AllOrNothing devices s s' e device blocked key length expected reply := by
  -- Most steps stage no reply.
  have hlonger : s.replies ≠ s.replies ++ [⟨blocked, reply⟩] := by simp
  cases steps_of_step hstep with
  | answered next harrives => exact absurd hreply hlonger
  | gone next command request harrives hasks =>
    have hlast : (finishUnderGil (s.fabrics command.device).memory false s.keyspace
        request.callerContext (.error (.fabric "fabric worker is gone"))).1 = ⟨blocked, reply⟩ :=
      List.singleton_inj.mp (List.append_cancel_left hreply)
    -- The command is the last one.
    have hblocked : blocked = s.commands.length → command
        = .set device advertisement key length expected := by
      intro hblocked
      rw [hblocked] at hcommand
      exact Option.some.inj (List.getElem?_concat_length.symm.trans hcommand)
    obtain ⟨-, -, -, hkind⟩ := hasks
    cases command with
    | get d a capacity n =>
      obtain ⟨-, -, held, hcontext, -⟩ := hkind
      rw [hcontext] at hlast
      cases hblocked (congrArg PendingReply.blocked hlast).symm
    | set d a k n x =>
      obtain ⟨-, -, at', hcontext⟩ := hkind
      rw [hcontext] at hlast
      refine .of_rejected ⟨⟨_, (congrArg PendingReply.reply hlast).symm⟩, ?_⟩ ?_
      · show (finishUnderGil _ _ _ request.callerContext _).2 = s.keyspace
        rw [hcontext]
        rfl
      · intro index c landing he
        rw [he] at harrives
        cases harrives
  | submitted next command request fabric harrives hasks hstep => exact absurd hreply hlonger
  | send device i fabric hstep => exact absurd hreply hlonger
  | fabric device move fabric hown hstep => exact absurd hreply hlonger
  | finish d index stores completion hdelivered hopen =>
    obtain ⟨request, hrequest, hnumber, hfor, hreturned, b, command, hcommand', rfl, hasks⟩ :=
      request_of_finished h hdelivered
    have hlast : (finishUnderGil (s.fabrics command.device).memory stores s.keyspace
        completion.callerContext.user completion.outcome).1 = ⟨blocked, reply⟩ :=
      List.singleton_inj.mp (List.append_cancel_left hreply)
    cases command with
    | get d a capacity n =>
      obtain ⟨-, -, -, hdirection, -, held, hcontext, -⟩ := id hasks
      have huser : completion.callerContext.user = .get b held := by
        rw [hreturned, returned_get hdirection]
        exact hcontext
      rw [huser] at hlast
      have hb : b = blocked := congrArg PendingReply.blocked hlast
      rw [hb] at hcommand'
      cases hcommand'.symm.trans hcommand
    | set d a k n x =>
      obtain ⟨-, -, -, hdirection, -, at', hcontext⟩ := id hasks
      obtain ⟨destination, hset, -⟩ := returned_set request hdirection hcontext
      have huser : completion.callerContext.user = .set b destination k x at' := by
        rw [hreturned]
        exact hset
      have hb : b = blocked := by
        rw [huser] at hlast
        exact congrArg PendingReply.blocked hlast
      subst hb
      cases hcommand'.symm.trans hcommand
      exact allOrNothing_of_finish h hdelivered hopen hrequest hnumber hfor hreturned hcommand'
        hasks
        (Prod.ext hlast rfl)
  | write memory hkeeps => exact absurd hreply hlonger
  | keyspace keyspace => exact absurd hreply hlonger

/-- The completion of a `DMA.SET` of `123456789` is finished: the key gets exactly these bytes, and
their checksum was verified. -/
theorem set_all_or_nothing_stored :
    ∃ s s' : State, (system checkDevices).step s (.finish 0 0 true) = some s' ∧
      s'.keyspace.lookup [107] = some checkBytes ∧
      AllOrNothing checkDevices s s' (.finish 0 0 true) 0 0 [107] 9 (some 0xe3069283)
        (.ok (.integer 9)) := by
  obtain ⟨s₁, s₂, s, s', hready, hset, hlands, hstep, hkey, hreply, hcommand⟩ :
      ∃ s₁ s₂ s s' : State, (system checkDevices).run loaded getsReady = some s₁ ∧
        (s₁.dmaSet checkDevices checkCall checkAdvertisement [107] 9 (some 0xe3069283)).map
          Prod.fst = some s₂ ∧
        (system checkDevices).run s₂ lands = some s ∧
        (system checkDevices).step s (.finish 0 0 true) = some s' ∧
        s'.keyspace.lookup [107] = some checkBytes ∧
        s'.replies = s.replies ++ [⟨0, .ok (.integer 9)⟩] ∧
        s'.commands[0]? = some (.set 0 checkAdvertisement [107] 9 (some 0xe3069283)) :=
    ⟨_, _, _, _, rfl, rfl, rfl, rfl, rfl, rfl, rfl⟩
  exact ⟨s, s', hstep, hkey,
    set_all_or_nothing (reachable_lands hready hset hlands) hstep hreply hcommand⟩

end Vdma.Module
