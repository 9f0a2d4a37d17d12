import Vdma.Module.Transfer

/-!
# `Vdma.Module.Entry`: the arguments of a command

The parsers of `entry.rs` and the two handlers that use them. `args` is the argument vector
with the command's name in front, as bytes.

A handler answers `none` where the host's answers do not fit together, which `dma_get` and
`dma_set` say for themselves. A vector that is refused never gets there.
-/

set_option autoImplicit false

namespace Vdma.Module

open Vdma.Lib Vdma.Fabric Vdma.Protocol

/-- The parsed fields of a `DMA.SET` or `DMA.GET`. -/
structure DataArgs where
  advertisement : Advertisement
  length : UInt64
  key : Bytes
  crc : Option Bytes
  deriving DecidableEq, Repr

/-- Parses a decimal byte length. -/
def parseLength (raw : Bytes) : Except ValkeyError UInt64 :=
  match parseAscii raw with
  | some length => .ok length
  | none => .error (.str "ERR length is not an integer or out of range")

/-- Parses a decimal CRC32. -/
def parseCrc (raw : Bytes) : Except ValkeyError UInt32 :=
  match parseAscii raw with
  | some crc => .ok crc
  | none => .error (.str "ERR crc is not an integer or out of range")

/-- The number of arguments through the key, which is also where a trailing crc would
sit. -/
def base : Nat := 3 + Advertisement.argCount

/-- Parses the arguments of a data command. An index is in bounds once the arity is. -/
def parseDataArgs (args : List Bytes) : Except ValkeyError DataArgs :=
  if args.length ≠ base ∧ args.length ≠ base + 1 then .error .wrongArity
  else
    match Advertisement.fromFields [args[1]!, args[2]!, args[3]!] with
    | .error error => .error (commandError error.display)
    | .ok advertisement =>
      match parseLength args[base - 2]! with
      | .error error => .error error
      | .ok length =>
        .ok
          { advertisement := advertisement
            length := length
            key := args[base - 1]!
            crc := args[base]? }

/-- `parsed.crc.map(parse_crc).transpose()`. -/
def expectedCrc : Option Bytes → Except ValkeyError (Option UInt32)
  | none => .ok none
  | some raw => (parseCrc raw).map some

namespace State

/-- `DMA.SET`. -/
def dmaSetCommand (devices : Devices) (s : State) (call : Call) (args : List Bytes) :
    Option (State × ValkeyResult) :=
  match parseDataArgs args with
  | .error error => some (s, .error error)
  | .ok parsed =>
    match expectedCrc parsed.crc with
    | .error error => some (s, .error error)
    | .ok expected =>
      s.dmaSet devices call parsed.advertisement parsed.key parsed.length expected

/-- `DMA.GET`. -/
def dmaGetCommand (devices : Devices) (s : State) (call : Call) (args : List Bytes) :
    Option (State × ValkeyResult) :=
  match parseDataArgs args with
  | .error error => some (s, .error error)
  | .ok parsed =>
    s.dmaGet devices call parsed.advertisement parsed.key parsed.length parsed.crc.isSome

end State

end Vdma.Module
