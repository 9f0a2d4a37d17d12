import Vdma.Fabric.Opening
import Vdma.Lib.Machine
import Vdma.Protocol.Advertisement

/-!
# `Vdma.Module.Startup`: the endpoints of the process

The services are started by the first command that needs them: one for each device on
`efa-direct`, or else one. They are kept for good. `DMA.INFO` has an endpoint of its own, opened
when it is first asked for. All of this happens on the command thread, one command after the
other, and any of it may fail, as often as libfabric likes.
-/

set_option autoImplicit false

namespace Vdma.Module

open Vdma.Lib Vdma.Fabric

/-- What is answered to `start_services`. -/
structure ServicesAnswers where
  discover : Opening.QueryAnswers
  /-- The error of a pool of that many threads. -/
  pool : Nat → Option String
  /-- What the start of each service is answered. -/
  start : Nat → StartAnswers

/-- Drops services, first to last. -/
def dropServices (servers : List FabricService) : Opening Unit := servers.forM FabricService.drop

/-- Starts a service on each domain. When one fails, those before it are dropped. -/
def startEach (lib : Libfabric) (fabric : Opening.Configuration) (answers : Nat → StartAnswers) :
    List FabricService → List String → Opening (List FabricService)
  | servers, [] => return servers
  | servers, domain :: domains => do
    let server ← tryCatch
      (FabricService.start lib { fabric with interfaces := [domain] } (answers servers.length))
      fun error => do
        dropServices servers
        throw error
    startEach lib fabric answers (servers ++ [server]) domains

/-- The domains to start a service on each. None are discovered for other providers, and an error is
the same as none. -/
def startDomains (lib : Libfabric) (fabric : Opening.Configuration)
    (answers : Opening.QueryAnswers) : Opening (List String) :=
  if fabric.providers.head? = some .efaDirect then
    tryCatch (Opening.discoverDomains lib fabric answers) fun _ => return []
  else return []

/-- Starts one service for each device that was discovered, or one when there is none. -/
def startServices (lib : Libfabric) (fabric : Opening.Configuration) (answers : ServicesAnswers) :
    Opening (List FabricService) := do
  let domains ← startDomains lib fabric answers.discover
  let workerCount := max domains.length 1
  let poolThreads := fabric.crcPoolThreads.getD (2 * workerCount)
  match answers.pool poolThreads, domains with
  | some error, _ => throw (.fabric s!"failed to start crc pool: {error}")
  | none, [] => do
    let server ← FabricService.start lib fabric (answers.start 0)
    return [server]
  | none, domains => startEach lib fabric answers.start [] domains

/-- What libfabric has open for the process, `ENDPOINT` and `FABRIC_SERVICES`. -/
structure Process where
  objects : Objects
  session : Option LibfabricEndpoint
  services : Option (List FabricService)

namespace Process

/-- The module was loaded. -/
def start : Process := { objects := .empty, session := none, services := none }

/-- The endpoints in use. -/
def endpoints (p : Process) : List LibfabricEndpoint :=
  p.session.toList ++ (p.services.getD []).map FabricService.endpoint

/-- The services, started if they are not up. -/
def fabricServices (p : Process) (lib : Libfabric) (fabric : Opening.Configuration)
    (answers : ServicesAnswers) : Except DmaError (List FabricService) × Process :=
  match p.services with
  | some servers => (.ok servers, p)
  | none =>
    match (startServices lib fabric answers).run.run p.objects with
    | (.error error, objects) => (.error error, { p with objects })
    | (.ok servers, objects) => (.ok servers, { p with objects, services := some servers })

/-- `DMA.HELLO`: the address of every service, in device order. -/
def dmaHello (p : Process) (lib : Libfabric) (fabric : Opening.Configuration)
    (answers : ServicesAnswers) : Except DmaError (List String) × Process :=
  let (servers, p) := p.fabricServices lib fabric answers
  (servers.map fun servers => servers.map fun server => Protocol.encodeHex server.address, p)

/-- `with_endpoint`: the endpoint of `DMA.INFO`, opened if it is not open. -/
def withEndpoint (p : Process) (lib : Libfabric) (fabric : Opening.Configuration)
    (answers : LibfabricEndpoint.OpenAnswers) : Except DmaError LibfabricEndpoint × Process :=
  match p.session with
  | some endpoint => (.ok endpoint, p)
  | none =>
    match (LibfabricEndpoint.openEndpoint lib fabric fabric.bind answers).run.run p.objects with
    | (.error error, objects) => (.error error, { p with objects })
    | (.ok endpoint, objects) => (.ok endpoint, { p with objects, session := some endpoint })

/-- `describe` reads the copy of the chosen entry. -/
def endpointInfo (p : Process) (lib : Libfabric) (fabric : Opening.Configuration)
    (answers : LibfabricEndpoint.OpenAnswers) :
    Except DmaError (Option Opening.FiInfo) × Process :=
  match p.withEndpoint lib fabric answers with
  | (.error error, p) => (.error error, p)
  | (.ok endpoint, p) =>
    (.ok (endpoint.info.map Prod.snd),
      { p with objects := p.objects.visit (endpoint.info.map Prod.fst).toList })

/-- A command that may open endpoints. -/
inductive Call where
  | info (answers : LibfabricEndpoint.OpenAnswers)
  /-- `DMA.HELLO`, or a transfer. -/
  | services (answers : ServicesAnswers)

/-- One command. -/
def step (lib : Libfabric) (fabric : Opening.Configuration) (p : Process) : Call → Process
  | .info answers => (p.endpointInfo lib fabric answers).2
  | .services answers => (p.fabricServices lib fabric answers).2

end Process

/-- The process, from the module's load on. -/
def process (lib : Libfabric) (fabric : Opening.Configuration) : Machine Process Process.Call where
  init p := p = Process.start
  step p call := some (p.step lib fabric call)

end Vdma.Module
