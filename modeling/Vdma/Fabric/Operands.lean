import Mathlib.Algebra.GroupWithZero.Nat

/-!
# `Vdma.Fabric.Operands`: the local bytes of a transfer

A caller context supplies the local end of its transfer. `source` and `allocate`
answer a slice, and a slice is a pointer and a length. `allocate` takes the
context by mutable reference, so it also answers the context it leaves behind.

`cacheable_span` is a question to caller code that may answer anything, at each
call anew. It is an input of the step that asks it, and not a member here.
-/

set_option autoImplicit false

namespace Vdma.Fabric

/-- The number of addresses: `usize::MAX + 1`. -/
def addressSpace : Nat := 2 ^ 64

/-- A span of memory whose registration may outlive one transfer. Both fields are
the caller's to set. -/
structure CacheableSpan where
  /-- First address of the span. -/
  base : Nat
  /-- One past the last address. -/
  limit : Nat
  deriving DecidableEq, Repr

namespace CacheableSpan

/-- The span of `length` bytes at `base`, unless it runs past the address
space. -/
def new (base length : Nat) : Option CacheableSpan :=
  if base + length < addressSpace then some ⟨base, base + length⟩ else none

/-- Whether the span contains `[start, stop)`. -/
def contains (span : CacheableSpan) (start stop : Nat) : Bool :=
  decide (span.base ≤ start) && decide (stop ≤ span.limit)

/-- A span contains a range between its ends. -/
theorem contains_iff (span : CacheableSpan) (start stop : Nat) :
    span.contains start stop = true ↔ span.base ≤ start ∧ stop ≤ span.limit := by
  simp [contains]

end CacheableSpan

/-- A slice of local memory. -/
structure Slice where
  pointer : Nat
  length : Nat
  deriving DecidableEq, Repr

/-- The local end of a transfer, supplied by the caller context. -/
class Operands (T : Type) where
  /-- The bytes for a `ToPeer` transfer. -/
  source : T → Option Slice
  /-- The buffer for a `FromPeer` transfer of the given length, and the context
  it comes from. -/
  allocate : T → Nat → Option Slice × T

end Vdma.Fabric
