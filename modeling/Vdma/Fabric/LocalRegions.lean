import Vdma.Fabric.Error
import Vdma.Fabric.Operands
import Vdma.Fabric.RegionCache

/-!
# `Vdma.Fabric.LocalRegions`: registering an operand, section by section

`LocalRegions::operand` and `LocalRegions::pin` (`local_regions.rs`) take the
registry lock for each lookup and each tracking, and hold it over neither
`cacheable_span` nor `fi_mr_reg`. Another thread may run between any two of these.
A call is therefore a value of `OperandCall` or `PinCall` that says where it
stands and what it holds, and `step` takes it over one section. `RegionAnswer` is
what the section is told from outside.

The second `fi_mr_reg`, after a widened one failed, stands where the first one
does, at the operand's own extent: a failure there is final either way.

A registration is named by its age, so its name also stands for the descriptor
`fi_mr_desc` reads off it.
-/

set_option autoImplicit false

namespace Vdma.Fabric

open Vdma.Lib

/-- A local operand's descriptor and the lease that keeps its registration
alive. Both are missing where the provider needs no local registration. -/
structure LocalOperand where
  descriptor : Option Nat
  lease : Option Nat
  deriving DecidableEq, Repr

namespace LocalOperand

/-- The operand under a lease. -/
def ofLease (lease : Nat) : LocalOperand := ⟨some lease, some lease⟩

/-- A null descriptor, and nothing to hold open. -/
def null : LocalOperand := ⟨none, none⟩

end LocalOperand

/-- What a section of a registration is told from outside. -/
inductive RegionAnswer where
  /-- A section that asks nothing. -/
  | none
  /-- `cacheable_span` answers. -/
  | span (cacheable : Option CacheableSpan)
  /-- `fi_mr_reg` returns. -/
  | mrReg (code : Int)
  deriving DecidableEq, Repr

/-- The leases in an optional lease. -/
def leaseCount (lease : Option Nat) (r : Nat) : Nat := if lease = some r then 1 else 0

/-! ### `LocalRegions::operand` -/

/-- Where a call of `operand` for `[start, stop)` stands. -/
inductive OperandCall where
  /-- About to look for a cached registration. -/
  | lookup (start stop : Nat)
  /-- Missed, and about to ask the caller for a span. -/
  | ask (start stop : Nat)
  /-- About to register `[base, limit)`. -/
  | register (start stop base limit : Nat) (cacheable : Bool)
  /-- Registered `[base, limit)`, and about to track it. -/
  | track (base limit lease : Nat)
  /-- Tracked, and about to drop the lease of the extent it replaced. -/
  | superseded (replaced : Option Nat) (lease : Nat)
  /-- Returned the operand. -/
  | done (operand : LocalOperand)
  /-- Returned an error. -/
  | failed (error : DmaError)
  deriving DecidableEq, Repr

namespace OperandCall

/-- The call `operand(pointer, length, _)`, up to its first section. -/
def begin (pointer length : Nat) : OperandCall :=
  if pointer + length < addressSpace then .lookup pointer (pointer + length)
  else .failed (.fabric "local operand range overflows")

/-- One section of the call. `none` when the answer is not one to its question. -/
def step (lib : Libfabric) (domain : Domain) (c : Cache) :
    OperandCall → RegionAnswer → Option (Cache × OperandCall)
  | .lookup start stop, .none =>
    match c.covering start stop domain with
    | (c, some lease) => some (c, .done (.ofLease lease))
    | (c, none) => some (c, .ask start stop)
  | .ask start stop, .span answer =>
    -- A span that misses part of the operand would leave it unregistered.
    match answer.filter fun span => span.contains start stop with
    | some span => some (c, .register start stop span.base span.limit true)
    | none => some (c, .register start stop start stop false)
  | .register start stop base limit cacheable, .mrReg code =>
    match check lib code "fi_mr_reg(operand)" with
    | .ok () =>
      let lease := c.handles.next
      some (c.register domain base limit,
        if cacheable then .track base limit lease else .done (.ofLease lease))
    | .error error =>
      some (c,
        -- A widened registration that fails takes the operand's extent instead. It is tracked as
        -- well, since it lies inside the span the caller promised to invalidate.
        if (base, limit) ≠ (start, stop) then .register start stop start stop cacheable
        else .failed error)
  | .track base limit lease, .none =>
    let tracked := c.track base limit domain lease
    some (tracked.1, .superseded tracked.2 lease)
  | .superseded replaced lease, .none => some (c.dropLease replaced, .done (.ofLease lease))
  | _, _ => none

/-- The leases the call holds on `r`. -/
def held (r : Nat) : OperandCall → Nat
  | .track _ _ lease => leaseCount (some lease) r
  | .superseded replaced lease => leaseCount replaced r + leaseCount (some lease) r
  | .done operand => leaseCount operand.lease r
  | _ => 0

end OperandCall

/-! ### `LocalRegions::pin` -/

/-- Where a call of `pin` stands. The span is fixed by the call, so the steps take
it from outside. -/
inductive PinCall where
  /-- About to register the span. -/
  | register
  /-- Registered, and about to track it. -/
  | track (lease : Nat)
  /-- Tracked, and about to drop the lease of the extent it replaced. -/
  | superseded (replaced : Option Nat) (lease : Nat)
  /-- About to drop its own lease, on return. -/
  | release (lease : Nat)
  /-- Returned. -/
  | done (result : Except DmaError Unit)

namespace PinCall

/-- The call `pin(base, length)`, up to its first section. -/
def begin (base length : Nat) : PinCall :=
  if base + length < addressSpace then .register
  else .done (.error (.fabric "pinned region range overflows"))

/-- One section of the call for `[base, limit)`. -/
def step (lib : Libfabric) (domain : Domain) (base limit : Nat) (c : Cache) :
    PinCall → RegionAnswer → Option (Cache × PinCall)
  | .register, .mrReg code =>
    match check lib code "fi_mr_reg(operand)" with
    -- A pin has no narrower span to fall back on.
    | .ok () => some (c.register domain base limit, .track c.handles.next)
    | .error error => some (c, .done (.error error))
  | .track lease, .none =>
    let tracked := c.track base limit domain lease
    some (tracked.1, .superseded tracked.2 lease)
  | .superseded replaced lease, .none => some (c.dropLease replaced, .release lease)
  | .release lease, .none => some (c.dropLease (some lease), .done (.ok ()))
  | _, _ => none

/-- The leases the call holds on `r`. -/
def held (r : Nat) : PinCall → Nat
  | .track lease => leaseCount (some lease) r
  | .superseded replaced lease => leaseCount replaced r + leaseCount (some lease) r
  | .release lease => leaseCount (some lease) r
  | _ => 0

end PinCall

end Vdma.Fabric
