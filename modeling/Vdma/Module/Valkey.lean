import Vdma.Fabric.Server

/-!
# `Vdma.Module.Valkey`: what the host gives and takes

The host's types as the module sees them: strings, replies and errors. A `ValkeyString`
is a buffer in the host's memory. Rust has no slice of more than `isize::MAX` bytes, and
the length of a string carries that as a field.

`command_error` is the one place a module error becomes a reply.
-/

set_option autoImplicit false

namespace Vdma.Module

open Vdma.Fabric

/-- `isize::MAX`. -/
def isizeMax : Nat := 2 ^ 63 - 1

/-- A string of the host. -/
structure ValkeyString where
  pointer : Nat
  length : Nat
  /-- It has a slice. -/
  fits : length ≤ isizeMax
  deriving DecidableEq, Repr

namespace ValkeyString

def asSlice (value : ValkeyString) : Slice := ⟨value.pointer, value.length⟩

/-- A string of `length` bytes whose contents are yet to come, which the host allocates at
`landing`. The host aborts the process where no string of that length can be. -/
def createUninitialized (landing length : Nat) : Option ValkeyString :=
  if h : length ≤ isizeMax then some ⟨landing, length, h⟩ else none

end ValkeyString

/-- The bytes of a slice. -/
def bytesAt (memory : Nat → UInt8) (slice : Slice) : Bytes :=
  (List.range slice.length).map fun i => memory (slice.pointer + i)

/-- A slice has as many bytes as it is long. -/
@[simp] theorem length_bytesAt (memory : Nat → UInt8) (slice : Slice) :
    (bytesAt memory slice).length = slice.length := by
  simp [bytesAt]

/-- An error reply. -/
inductive ValkeyError where
  | wrongArity
  | str (message : String)
  | string (message : String)
  deriving DecidableEq, Repr

/-- A reply. `noReply` leaves the reply to later. -/
inductive ValkeyValue where
  | null
  | integer (value : Int)
  | simpleString (value : String)
  | array (values : List ValkeyValue)
  | noReply

abbrev ValkeyResult := Except ValkeyError ValkeyValue

/-- Wraps an error as a reply. -/
def commandError (error : String) : ValkeyError := .string s!"ERR {error}"

/-- The `Display` text of a DMA error. -/
def displayDmaError : DmaError → String
  | .transfer message => s!"transfer failed: {message}"
  | .fabric message => s!"fabric error: {message}"

/-- `as i64` of a `usize`. -/
def asI64 (n : Nat) : Int := (Int64.ofNat n).toInt

/-- The length of a slice is itself as an `i64`. -/
theorem asI64_of_le {n : Nat} (h : n ≤ isizeMax) : asI64 n = n := by
  unfold asI64
  have hlt : n < 2 ^ 63 := by
    have hmax : isizeMax = 2 ^ 63 - 1 := rfl
    omega
  exact Int64.toInt_ofNat_of_lt hlt

end Vdma.Module
