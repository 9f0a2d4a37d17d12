/-!
# `Vdma.Fabric.Error`: errors and libfabric codes

`DmaError` is the protocol crate's error. Its payload is the text the source
formats, so a claim about an error is a claim about its text. libfabric's own
texts (`fi_strerror`, `fi_cq_strerror`) are not part of the repository and enter
as the parameter `Libfabric`.

Calls into libfabric return `0` for success and a negative errno otherwise. The
two codes the worker compares against carry libfabric's values.
-/

set_option autoImplicit false

namespace Vdma.Fabric

/-- Errors surfaced by the DMA layer. -/
inductive DmaError where
  /-- A transfer failed at the transport level. -/
  | transfer (message : String)
  /-- A libfabric setup or control operation failed. -/
  | fabric (message : String)
  deriving DecidableEq, Repr

/-- What libfabric says about its codes. -/
structure Libfabric where
  /-- `fi_strerror`: the text of a positive errno. -/
  strerror : Int → String
  /-- `fi_cq_strerror`: the text of a provider errno. -/
  cqStrerror : Int → String
  deriving Inhabited

/-- `FI_EAGAIN`: nothing ready, or the transmit queue is full. -/
def fiEagain : Int := 11

/-- `FI_EAVAIL`: an entry waits in the error queue. -/
def fiEavail : Int := 259

/-- `as i32`: the low 32 bits of a code, as a signed number. -/
def asI32 (code : Int) : Int := code.bmod 4294967296

/-- Builds a `DmaError.fabric` from a libfabric return code, an `i32`. The codes are
negative and `fi_strerror` wants the positive errno. -/
def fabricError (lib : Libfabric) (code : Int) (what : String) : DmaError :=
  let message := lib.strerror (asI32 (-code))
  .fabric s!"{what}: {message} ({code})"

/-- Turns a libfabric return code into a result. -/
def check (lib : Libfabric) (code : Int) (what : String) : Except DmaError Unit :=
  if 0 = code then .ok () else .error (fabricError lib code what)

/-- Builds a `DmaError.transfer` from the `err` and `prov_errno` of a
completion-queue error entry. `err` is already positive here. -/
def completionError (lib : Libfabric) (err provErrno : Int) : DmaError :=
  let fabric := lib.strerror err
  let provider := lib.cqStrerror provErrno
  .transfer
    s!"completion error: {fabric} (err={err}); provider: {provider} (prov_errno={provErrno})"

end Vdma.Fabric
