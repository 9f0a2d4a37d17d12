import Mathlib.Data.List.ReduceOption
import Vdma.Fabric.System
import Vdma.Lib.Objects

/-!
# `Vdma.Fabric.Opening`: opening and closing endpoints

`LibfabricEndpoint::open` takes seven objects from libfabric, one on the other, and `Drop` closes
what there is of them. Any of the calls may fail, and then what was opened so far is dropped.
`FabricService::start` waits for its worker to do the same, and to pin its quiesce buffer and ask
for its address.

What libfabric answers is an argument, a field for each call. The registrations and the address
vector entries of a worker that serves are the matter of `Vdma.Fabric.System`.
-/

set_option autoImplicit false

namespace Vdma.Fabric

open Vdma.Lib

/-- What opens and closes objects of libfabric, and may fail. What it did to them before it failed
stays done. -/
abbrev Opening := ExceptT DmaError (StateM Objects)

namespace Opening

/-- A new object, opened on others. -/
def acquire (on : List Nat) : Opening Nat := modifyGet fun o => (o.next, o.acquire on)

/-- A call that is given objects. -/
def visit (used : List Nat) : Opening Unit := modify fun o => o.visit used

/-- `fi_ep_bind`. -/
def attach (user used : Nat) : Opening Unit := modify fun o => o.bind user used

/-- `fi_close`, or `fi_freeinfo`. -/
def release (i : Nat) : Opening Unit := modify fun o => o.release i

/-! ### Configuration and hints -/

/-- The bits of `fi_info.mode` that a provider may ask for. -/
inductive ModeBit where
  | context2
  | rxCqData
  deriving DecidableEq, Repr

/-- The supported providers. -/
inductive Provider where
  | tcp
  | efaDirect
  deriving DecidableEq, Repr

namespace Provider

/-- `fi_fabric_attr.prov_name`. -/
def asStr : Provider → String
  | .tcp => "tcp"
  | .efaDirect => "efa"

/-- `fi_fabric_attr.name`, where the name of the provider does not say which one. -/
def fabricName : Provider → Option String
  | .efaDirect => some "efa-direct"
  | .tcp => none

/-- The bits of `fi_info.mode` that the provider asks for. -/
def requiredMode : Provider → List ModeBit
  | .tcp => []
  | .efaDirect => [.context2, .rxCqData]

end Provider

/-- The fields of `Configuration` that opening reads, beside the worker's. -/
structure Configuration extends Vdma.Fabric.Configuration where
  providers : List Provider
  interfaces : List String
  bind : Option String
  crcPoolThreads : Option Nat

/-- The capabilities that are asked for. -/
inductive Capability where
  | msg
  | rma
  | read
  | write
  | remoteRead
  | remoteWrite
  deriving DecidableEq, Repr

/-- The memory-registration modes that are supported. -/
inductive MrMode where
  | localBuffers
  | allocated
  | provKey
  | virtAddr
  deriving DecidableEq, Repr

/-- What `query_info` asks `fi_getinfo` for. -/
structure Hints where
  caps : List Capability
  mrMode : List MrMode
  provName : String
  fabricName : Option String
  mode : List ModeBit

/-- The hints for a provider. -/
def Provider.hints (provider : Provider) : Hints where
  caps := [.msg, .rma, .read, .write, .remoteRead, .remoteWrite]
  mrMode := [.localBuffers, .allocated, .provKey, .virtAddr]
  provName := provider.asStr
  fabricName := provider.fabricName
  mode := provider.requiredMode

/-- An entry of the list that `fi_getinfo` returns. -/
structure FiInfo where
  /-- `domain_attr.name`. `none` when it is null, or no UTF-8. -/
  domainName : Option String
  mrMode : List MrMode
  /-- `tx_attr.size`. -/
  txSize : Nat
  addrFormat : AddressFormat

/-! ### Asking for devices -/

/-- What libfabric answers to `query_info`. -/
structure QueryAnswers where
  /-- `fi_allocinfo` returned hints. -/
  allocinfo : Bool
  /-- The code and the list of `fi_getinfo`. -/
  getinfo : Hints → Option String → Int × List FiInfo

/-- Asks libfabric for what the provider has to offer. The caller frees the list. -/
def queryInfo (lib : Libfabric) (configuration : Configuration) (sourceNode : Option String)
    (answers : QueryAnswers) : Opening (Nat × List FiInfo) :=
  let primary := configuration.providers.head?.getD .tcp
  if sourceNode.any fun node => node.contains (Char.ofNat 0) then
    throw (.fabric "invalid source node")
  else if answers.allocinfo = false then
    throw (.fabric "fi_allocinfo failed")
  else do
    let hints ← acquire []
    visit [hints]
    let (code, infos) := answers.getinfo primary.hints sourceNode
    match check lib code "fi_getinfo", infos with
    | .error error, _ => do
      release hints
      throw error
    | .ok (), [] => do
      release hints
      throw (.fabric "no provider matched")
    | .ok (), infos => do
      let list ← acquire []
      release hints
      return (list, infos)

/-- The first entry whose domain has the name. -/
def selectDomain (infos : List FiInfo) (want : String) : Option FiInfo :=
  infos.find? fun info => info.domainName = some want

/-- A name is kept the first time that it is seen. -/
def addName (names : List String) (info : FiInfo) : List String :=
  match info.domainName with
  | none => names
  | some name => if name ∈ names then names else names ++ [name]

/-- The names of the domains, each once, in the order of the list. -/
def domainNames (infos : List FiInfo) : List String := infos.foldl addName []

/-- The domains that the configured provider has. -/
def discoverDomains (lib : Libfabric) (configuration : Configuration) (answers : QueryAnswers) :
    Opening (List String) := do
  let (list, infos) ← queryInfo lib configuration none answers
  visit [list]
  release list
  return domainNames infos

end Opening

/-! ### Endpoints -/

open Opening

/-- An endpoint, as far as it was opened. An object is named by its number. -/
structure LibfabricEndpoint where
  endpoint : Option Nat
  completionQueue : Option Nat
  addressVector : Option Nat
  domain : Option Nat
  fabric : Option Nat
  /-- The copy of the chosen entry, and what is in it. -/
  info : Option (Nat × FiInfo)
  requiresLocalMr : Bool
  usesVirtualAddressing : Bool
  maxTx : Nat
  /-- The registration of the quiesce buffer. -/
  pinned : Option Nat

namespace LibfabricEndpoint

/-- The objects of an endpoint, in the order that `drop` closes them in. -/
def owned (e : LibfabricEndpoint) : List Nat :=
  [e.pinned, e.endpoint, e.completionQueue, e.addressVector, e.domain, e.fabric,
    e.info.map Prod.fst].reduceOption

/-- The name of the domain that the endpoint is on. -/
def domainName (e : LibfabricEndpoint) : Option String := e.info.bind fun info => info.2.domainName

/-- Closes what is open, latest first. -/
def drop (e : LibfabricEndpoint) : Opening Unit := modify fun o => o.releaseAll e.owned

/-- A call for an endpoint that is being opened, given some of its objects. When it fails the
endpoint is dropped as it is. -/
def call (e : LibfabricEndpoint) (lib : Libfabric) (used : List Nat) (code : Int) (what : String) :
    Opening Unit := do
  visit used
  match check lib code what with
  | .ok () => pure ()
  | .error error => do
    e.drop
    throw error

/-- Nothing was opened but the copy of the chosen entry. -/
def ofInfo (info : Nat) (chosen : FiInfo) : LibfabricEndpoint where
  endpoint := none
  completionQueue := none
  addressVector := none
  domain := none
  fabric := none
  info := some (info, chosen)
  requiresLocalMr := .localBuffers ∈ chosen.mrMode
  usesVirtualAddressing := .virtAddr ∈ chosen.mrMode
  maxTx := chosen.txSize
  pinned := none

/-- What libfabric answers to `open`. -/
structure OpenAnswers where
  query : QueryAnswers
  /-- `fi_dupinfo` returned a copy. -/
  dupinfo : Bool
  fabric : Int
  domain : Int
  avOpen : Int
  cqOpen : Int
  endpoint : Int
  bindAv : Int
  bindCq : Int
  enable : Int

/-- What `open` does once it has its own copy of the chosen entry. -/
def openChosen (lib : Libfabric) (info : Nat) (chosen : FiInfo) (answers : OpenAnswers) :
    Opening LibfabricEndpoint := do
  let e := ofInfo info chosen
  e.call lib [info] answers.fabric "fi_fabric"
  let fabric ← acquire []
  let e := { e with fabric := some fabric }
  e.call lib [fabric, info] answers.domain "fi_domain"
  let domain ← acquire [fabric]
  let e := { e with domain := some domain }
  e.call lib [domain] answers.avOpen "fi_av_open"
  let addressVector ← acquire [domain]
  let e := { e with addressVector := some addressVector }
  e.call lib [domain] answers.cqOpen "fi_cq_open"
  let completionQueue ← acquire [domain]
  let e := { e with completionQueue := some completionQueue }
  e.call lib [domain, info] answers.endpoint "fi_endpoint"
  let endpoint ← acquire [domain]
  let e := { e with endpoint := some endpoint }
  e.call lib [endpoint, addressVector] answers.bindAv "fi_ep_bind(av)"
  attach endpoint addressVector
  e.call lib [endpoint, completionQueue] answers.bindCq "fi_ep_bind(cq)"
  attach endpoint completionQueue
  e.call lib [endpoint] answers.enable "fi_enable"
  return e

/-- How `{:?}` prints a character of a string. The standard library has tables of what it
escapes beyond Latin-1, combining marks among them. Here those characters stay as they are. -/
def escapeDebug (c : Char) : String :=
  match c.toNat with
  | 0 => "\\0"
  | 9 => "\\t"
  | 10 => "\\n"
  | 13 => "\\r"
  | 34 => "\\\""
  | 92 => "\\\\"
  | n =>
    if n < 32 ∨ (127 ≤ n ∧ n ≤ 160) ∨ n = 173 then
      "\\u\x7b" ++ String.ofList (Nat.toDigits 16 n) ++ "\x7d"
    else c.toString

/-- `{:?}` of a string. -/
def debugStr (text : String) : String :=
  "\"" ++ String.join (text.toList.map escapeDebug) ++ "\""

/-- Opens an endpoint on the first domain that `configuration.interfaces` names, or else on the
first that the provider has. -/
def openEndpoint (lib : Libfabric) (configuration : Opening.Configuration)
    (sourceNode : Option String) (answers : OpenAnswers) : Opening LibfabricEndpoint := do
  let (list, infos) ← queryInfo lib configuration sourceNode answers.query
  visit [list]
  let wanted := configuration.interfaces.head?
  match wanted.elim infos.head? (selectDomain infos), answers.dupinfo with
  | none, _ => do
    release list
    let name := debugStr (wanted.getD "")
    throw (.fabric s!"no fabric domain named {name}")
  | some _, false => do
    release list
    throw (.fabric "fi_dupinfo failed")
  | some chosen, true => do
    let info ← acquire []
    release list
    openChosen lib info chosen answers

/-- `pin_region` of the quiesce buffer, when writes are quiesced. A provider that needs no local
registration has nothing to pin. -/
def pinQuiesce (e : LibfabricEndpoint) (lib : Libfabric) (configuration : Opening.Configuration)
    (code : Int) : Opening LibfabricEndpoint :=
  match configuration.quiesceWrites && e.requiresLocalMr with
  | false => return e
  | true => do
    e.call lib e.domain.toList code "fi_mr_reg(operand)"
    let pinned ← acquire e.domain.toList
    return { e with pinned := some pinned }

/-- What libfabric answers to `local_address`. -/
structure NameAnswers where
  /-- The length that the first call of `fi_getname` asks for. -/
  length : Nat
  code : Int
  name : Bytes

/-- The local fabric address. -/
def localAddress (e : LibfabricEndpoint) (lib : Libfabric) (answers : NameAnswers) :
    Opening Bytes := do
  visit e.endpoint.toList
  if answers.length = 0 then do
    e.drop
    throw (.fabric "fi_getname returned zero length")
  else do
    e.call lib e.endpoint.toList answers.code "fi_getname"
    return answers.name.take answers.length

end LibfabricEndpoint

/-! ### Services -/

open LibfabricEndpoint

/-- What a `FabricService` is started with. -/
structure StartAnswers where
  /-- The error of a thread that was not spawned. -/
  spawn : Option String
  «open» : OpenAnswers
  pin : Int
  name : NameAnswers

/-- A service that runs: the endpoint of its worker, and the address. -/
structure FabricService where
  endpoint : LibfabricEndpoint
  address : Bytes

namespace FabricService

/-- How `worker_main` begins. -/
def startWorker (lib : Libfabric) (configuration : Opening.Configuration)
    (answers : StartAnswers) : Opening FabricService := do
  let opened ← openEndpoint lib configuration configuration.bind answers.open
  let endpoint ← opened.pinQuiesce lib configuration answers.pin
  let address ← endpoint.localAddress lib answers.name
  return { endpoint, address }

/-- Starts a service, and waits for its worker to be ready. -/
def start (lib : Libfabric) (configuration : Opening.Configuration) (answers : StartAnswers) :
    Opening FabricService :=
  match answers.spawn with
  | some error => throw (.fabric s!"failed to spawn fabric worker: {error}")
  | none => startWorker lib configuration answers

/-- `Drop` joins the worker, which drops its endpoint. -/
def drop (service : FabricService) : Opening Unit := service.endpoint.drop

/-- What a worker on the endpoint of a service has for its device. -/
def device (service : FabricService) : Device where
  domain := service.endpoint.domain.getD 0
  requiresLocalMr := service.endpoint.requiresLocalMr
  maxTx := service.endpoint.maxTx
  format := (service.endpoint.info.map fun info => info.2.addrFormat).getD .opaqueBytes

end FabricService

end Vdma.Fabric
