import Vdma.Module.Entry

/-!
# `Vdma.Proofs.Module.CommandWire`: the wire format of the data commands

`parseDataArgs_ok_iff` says what the shared parser takes, field by field. An argument
vector is six fields or seven, and each numeral is read as the number it denotes.
`command_wire_exact` has the round trip, what each of the two commands accepts, and that a
refused vector leaves the module as it was.
-/

set_option autoImplicit false

namespace Vdma.Module

open Vdma.Lib Vdma.Fabric Vdma.Protocol

/-- The argument vector of a data command. -/
def commandArgs (command : Bytes) (advertisement : Advertisement) (length : UInt64) (key : Bytes)
    (crc : Option UInt32) : List Bytes :=
  [command, textBytes (encodeHex advertisement.address),
      Decimal.decimal advertisement.remoteKey.toNat,
      Decimal.decimal advertisement.remoteAddress.toNat, Decimal.decimal length.toNat, key]
    ++ (crc.map fun crc => Decimal.decimal crc.toNat).toList

/-- An optional plus sign and one or more digits, of a value of at most `width` bits. -/
def IsNumeral (width : Nat) (raw : Bytes) : Prop := ∃ n < 2 ^ width, Decimal.Denotes raw n

/-- Six fields, or seven of which the last one is as `trailing` wants it. -/
def IsDataVector (trailing : Bytes → Prop) (args : List Bytes) : Prop :=
  ∃ command address remoteKey remoteAddress length key crc,
    args = [command, address, remoteKey, remoteAddress, length, key] ++ Option.toList crc ∧
      IsHex address ∧ IsNumeral 64 remoteKey ∧ IsNumeral 64 remoteAddress ∧ IsNumeral 64 length ∧
      ∀ raw ∈ crc, trailing raw

/-! ### Fields -/

/-- The fields of an advertisement that are read. -/
theorem fromFields_ok_iff {address remoteKey remoteAddress : Bytes}
    {advertisement : Advertisement} :
    Advertisement.fromFields [address, remoteKey, remoteAddress] = .ok advertisement ↔
      decodeHex address = .ok advertisement.address ∧
        Decimal.Denotes remoteKey advertisement.remoteKey.toNat ∧
        Decimal.Denotes remoteAddress advertisement.remoteAddress.toNat := by
  rw [← parseAscii_uint64_iff, ← parseAscii_uint64_iff]
  unfold Advertisement.fromFields
  constructor
  · intro h
    dsimp only at h
    split at h
    · cases h
    · next bytes hhex =>
      split at h
      · cases h
      · next key hkey =>
        split at h
        · cases h
        · next remote hremote =>
          cases h
          exact ⟨hhex, hkey, hremote⟩
  · intro ⟨hhex, hkey, hremote⟩
    simp only [hhex, hkey, hremote]

/-- A length is the decimal text of a number below `2 ^ 64`. -/
theorem parseLength_ok_iff {raw : Bytes} {length : UInt64} :
    parseLength raw = .ok length ↔ Decimal.Denotes raw length.toNat := by
  rw [← parseAscii_uint64_iff]
  unfold parseLength
  cases parseAscii (T := UInt64) raw with
  | some n => simp
  | none => simp

/-- A checksum is the decimal text of a number below `2 ^ 32`. -/
theorem parseCrc_ok_iff {raw : Bytes} {crc : UInt32} :
    parseCrc raw = .ok crc ↔ Decimal.Denotes raw crc.toNat := by
  rw [← parseAscii_uint32_iff]
  unfold parseCrc
  cases parseAscii (T := UInt32) raw with
  | some n => simp
  | none => simp

/-- A numeral is one that a field of its width is read from. -/
theorem isNumeral_uint64 {raw : Bytes} :
    IsNumeral 64 raw ↔ ∃ n : UInt64, Decimal.Denotes raw n.toNat := by
  constructor
  · intro ⟨n, hlt, hdenotes⟩
    refine ⟨UInt64.ofNat n, ?_⟩
    rwa [UInt64.toNat_ofNat_of_lt' hlt]
  · intro ⟨n, hdenotes⟩
    exact ⟨n.toNat, n.toNat_lt, hdenotes⟩

/-- A numeral of 32 bits is the text of a `UInt32`. -/
theorem isNumeral_uint32 {raw : Bytes} :
    IsNumeral 32 raw ↔ ∃ n : UInt32, Decimal.Denotes raw n.toNat := by
  constructor
  · intro ⟨n, hlt, hdenotes⟩
    refine ⟨UInt32.ofNat n, ?_⟩
    rwa [UInt32.toNat_ofNat_of_lt' hlt]
  · intro ⟨n, hdenotes⟩
    exact ⟨n.toNat, n.toNat_lt, hdenotes⟩

/-- Bytes are read from a field that is hex. -/
theorem isHex_iff {text : Bytes} : IsHex text ↔ ∃ bytes, decodeHex text = .ok bytes := by
  rw [← decodeHex_isOk]
  cases decodeHex text with
  | ok bytes => simp [Except.isOk, Except.toBool]
  | error error => simp [Except.isOk, Except.toBool]

/-! ### Vectors -/

/-- `args` are the fields of `parsed`, behind a command. -/
def Reads (args : List Bytes) (parsed : DataArgs) : Prop :=
  ∃ command address remoteKey remoteAddress length,
    args = [command, address, remoteKey, remoteAddress, length, parsed.key]
        ++ Option.toList parsed.crc ∧
      decodeHex address = .ok parsed.advertisement.address ∧
      Decimal.Denotes remoteKey parsed.advertisement.remoteKey.toNat ∧
      Decimal.Denotes remoteAddress parsed.advertisement.remoteAddress.toNat ∧
      Decimal.Denotes length parsed.length.toNat

/-- The parser on a vector of the right arity. -/
theorem parseDataArgs_fields {command address remoteKey remoteAddress length key : Bytes}
    {crc : Option Bytes} {parsed : DataArgs} :
    parseDataArgs ([command, address, remoteKey, remoteAddress, length, key] ++ crc.toList)
        = .ok parsed ↔
      Advertisement.fromFields [address, remoteKey, remoteAddress] = .ok parsed.advertisement ∧
        parseLength length = .ok parsed.length ∧ key = parsed.key ∧ crc = parsed.crc := by
  generalize hargs : [command, address, remoteKey, remoteAddress, length, key] ++ crc.toList = args
  have harity : args.length = base ∨ args.length = base + 1 := by
    subst hargs
    cases crc with
    | none => exact .inl rfl
    | some raw => exact .inr rfl
  have hcrc : args[base]? = crc := by
    subst hargs
    cases crc with
    | none => rfl
    | some raw => rfl
  -- The other fields stand in front, where the trailing one does not matter.
  have hfields : [args[1]!, args[2]!, args[3]!] = [address, remoteKey, remoteAddress] := by
    subst hargs
    rfl
  have hlength : args[base - 2]! = length := by
    subst hargs
    rfl
  have hkey : args[base - 1]! = key := by
    subst hargs
    rfl
  rw [parseDataArgs, if_neg (by omega), hfields, hlength, hkey, hcrc]
  constructor
  · intro h
    split at h
    · cases h
    · next advertisement hfields =>
      split at h
      · cases h
      · next length hlength =>
        cases h
        exact ⟨hfields, hlength, rfl, rfl⟩
  · rintro ⟨hfields, hlength, rfl, rfl⟩
    simp only [hfields, hlength]

/-- What the parser takes. -/
theorem parseDataArgs_ok_iff {args : List Bytes} {parsed : DataArgs} :
    parseDataArgs args = .ok parsed ↔ Reads args parsed := by
  constructor
  · intro h
    have harity : args.length = 6 ∨ args.length = 7 := by
      by_contra hnot
      have hrefused : args.length ≠ base ∧ args.length ≠ base + 1 := not_or.mp hnot
      rw [parseDataArgs, if_pos hrefused] at h
      cases h
    have hfields : ∃ command address remoteKey remoteAddress length key crc,
        args = [command, address, remoteKey, remoteAddress, length, key] ++ Option.toList crc := by
      match args, harity with
      | [a, b, c, d, e, f], _ => exact ⟨a, b, c, d, e, f, none, rfl⟩
      | [a, b, c, d, e, f, g], _ => exact ⟨a, b, c, d, e, f, some g, rfl⟩
    obtain ⟨command, address, remoteKey, remoteAddress, length, key, crc, rfl⟩ := hfields
    obtain ⟨hadvertisement, hlength, rfl, rfl⟩ := parseDataArgs_fields.mp h
    obtain ⟨haddress, hkey, hremote⟩ := fromFields_ok_iff.mp hadvertisement
    exact ⟨command, address, remoteKey, remoteAddress, length, rfl, haddress, hkey, hremote,
      parseLength_ok_iff.mp hlength⟩
  · intro ⟨command, address, remoteKey, remoteAddress, length, hargs, haddress, hkey, hremote,
      hlength⟩
    rw [hargs]
    exact parseDataArgs_fields.mpr ⟨fromFields_ok_iff.mpr ⟨haddress, hkey, hremote⟩,
      parseLength_ok_iff.mpr hlength, rfl, rfl⟩

/-- The vectors that are parsed, whatever their trailing field. -/
theorem exists_reads_iff {trailing : Bytes → Prop} {args : List Bytes} :
    (∃ parsed, Reads args parsed ∧ ∀ raw ∈ parsed.crc, trailing raw) ↔
      IsDataVector trailing args := by
  constructor
  · intro ⟨parsed, ⟨command, address, remoteKey, remoteAddress, length, hargs, haddress, hkey,
      hremote, hlength⟩, htrailing⟩
    exact ⟨command, address, remoteKey, remoteAddress, length, parsed.key, parsed.crc, hargs,
      isHex_iff.mpr ⟨_, haddress⟩, isNumeral_uint64.mpr ⟨_, hkey⟩,
      isNumeral_uint64.mpr ⟨_, hremote⟩, isNumeral_uint64.mpr ⟨_, hlength⟩, htrailing⟩
  · intro ⟨command, address, remoteKey, remoteAddress, length, key, crc, hargs, hhex, hkey,
      hremote, hlength, htrailing⟩
    obtain ⟨bytes, haddress⟩ := isHex_iff.mp hhex
    obtain ⟨k, hkey⟩ := isNumeral_uint64.mp hkey
    obtain ⟨a, hremote⟩ := isNumeral_uint64.mp hremote
    obtain ⟨n, hlength⟩ := isNumeral_uint64.mp hlength
    exact ⟨⟨⟨bytes, k, a⟩, n, key, crc⟩,
      ⟨command, address, remoteKey, remoteAddress, length, hargs, haddress, hkey, hremote,
        hlength⟩, htrailing⟩

/-- The trailing field of a `DMA.SET` is a checksum. -/
theorem expectedCrc_ok_iff {crc : Option Bytes} :
    (∃ expected, expectedCrc crc = .ok expected) ↔ ∀ raw ∈ crc, IsNumeral 32 raw := by
  cases crc with
  | none => simp [expectedCrc]
  | some raw =>
    have hraw : (∀ raw' ∈ some raw, IsNumeral 32 raw') ↔ IsNumeral 32 raw := by simp
    rw [hraw, isNumeral_uint32]
    constructor
    · intro ⟨expected, h⟩
      cases hparse : parseCrc raw with
      | ok crc => exact ⟨crc, parseCrc_ok_iff.mp hparse⟩
      | error error =>
        rw [expectedCrc, hparse] at h
        cases h
    · intro ⟨crc, hdenotes⟩
      refine ⟨some crc, ?_⟩
      rw [expectedCrc, parseCrc_ok_iff.mpr hdenotes]
      rfl

/-! ### The commands -/

/-- A vector that `DMA.SET` takes. -/
def SetAccepts (args : List Bytes) : Prop :=
  ∃ parsed expected, parseDataArgs args = .ok parsed ∧ expectedCrc parsed.crc = .ok expected

/-- A vector that `DMA.GET` takes. -/
def GetAccepts (args : List Bytes) : Prop := ∃ parsed, parseDataArgs args = .ok parsed

/-- `DMA.SET` accepts a vector whose checksum, where it has one, is a number. -/
theorem setAccepts_iff {args : List Bytes} :
    SetAccepts args ↔ IsDataVector (IsNumeral 32) args := by
  rw [← exists_reads_iff]
  constructor
  · intro ⟨parsed, expected, hparsed, hexpected⟩
    exact ⟨parsed, parseDataArgs_ok_iff.mp hparsed, expectedCrc_ok_iff.mp ⟨expected, hexpected⟩⟩
  · intro ⟨parsed, hreads, htrailing⟩
    obtain ⟨expected, hexpected⟩ := expectedCrc_ok_iff.mpr htrailing
    exact ⟨parsed, expected, parseDataArgs_ok_iff.mpr hreads, hexpected⟩

/-- `DMA.GET` accepts a vector whatever its last argument is. -/
theorem getAccepts_iff {args : List Bytes} :
    GetAccepts args ↔ IsDataVector (fun _ => True) args := by
  rw [← exists_reads_iff]
  constructor
  · intro ⟨parsed, hparsed⟩
    exact ⟨parsed, parseDataArgs_ok_iff.mp hparsed, fun _ _ => trivial⟩
  · intro ⟨parsed, hreads, _⟩
    exact ⟨parsed, parseDataArgs_ok_iff.mpr hreads⟩

/-- A vector that `DMA.SET` does not take is answered with an error, and nothing else. -/
theorem dmaSetCommand_refused {args : List Bytes} (h : ¬SetAccepts args) (devices : Devices)
    (s : State) (call : Call) :
    ∃ error, s.dmaSetCommand devices call args = some (s, .error error) := by
  unfold State.dmaSetCommand
  cases hparsed : parseDataArgs args with
  | error error => exact ⟨error, rfl⟩
  | ok parsed =>
    cases hexpected : expectedCrc parsed.crc with
    | error error => exact ⟨error, by simp only [hexpected]⟩
    | ok expected => exact absurd ⟨parsed, expected, hparsed, hexpected⟩ h

/-- A refused `DMA.GET` leaves the state. -/
theorem dmaGetCommand_refused {args : List Bytes} (h : ¬GetAccepts args) (devices : Devices)
    (s : State) (call : Call) :
    ∃ error, s.dmaGetCommand devices call args = some (s, .error error) := by
  unfold State.dmaGetCommand
  cases hparsed : parseDataArgs args with
  | error error => exact ⟨error, rfl⟩
  | ok parsed => exact absurd ⟨parsed, hparsed⟩ h

/-- The vector of a command is parsed into what it was made of. -/
theorem parseDataArgs_commandArgs (command : Bytes) (advertisement : Advertisement)
    (length : UInt64) (key : Bytes) (crc : Option UInt32) :
    parseDataArgs (commandArgs command advertisement length key crc)
        = .ok ⟨advertisement, length, key, crc.map fun crc => Decimal.decimal crc.toNat⟩ ∧
      expectedCrc (crc.map fun crc => Decimal.decimal crc.toNat) = .ok crc := by
  constructor
  · exact parseDataArgs_ok_iff.mpr ⟨_, _, _, _, _, rfl, decodeHex_encodeHex _,
      Decimal.denotes_decimal _, Decimal.denotes_decimal _, Decimal.denotes_decimal _⟩
  · cases crc with
    | none => rfl
    | some crc =>
      show (parseCrc (Decimal.decimal crc.toNat)).map some = _
      rw [parseCrc_ok_iff.mpr (Decimal.denotes_decimal _)]
      rfl

/-- A `DMA.SET` of its own vector. -/
theorem dmaSetCommand_commandArgs (devices : Devices) (s : State) (call : Call) (command : Bytes)
    (advertisement : Advertisement) (length : UInt64) (key : Bytes) (crc : Option UInt32) :
    s.dmaSetCommand devices call (commandArgs command advertisement length key crc)
      = s.dmaSet devices call advertisement key length crc := by
  obtain ⟨hparsed, hcrc⟩ := parseDataArgs_commandArgs command advertisement length key crc
  simp only [State.dmaSetCommand, hparsed, hcrc]

/-- The wire format of the data commands. What a command is made of is parsed out of its
vector again. `DMA.SET` takes exactly the vectors of six fields, or of seven with a 32-bit
numeral at the end, whose address is hex and whose other numbers are 64-bit numerals, and
`DMA.GET` takes any seventh field, as a request for a checksum. A vector that a command does
not take is answered with an error in the state it finds: no client is blocked, no transfer is
submitted, and no counter changes. One that it takes is handed on as it was read. -/
theorem command_wire_exact :
    (∀ command advertisement length key crc, ∃ parsed,
      parseDataArgs (commandArgs command advertisement length key crc) = .ok parsed ∧
        parsed.advertisement = advertisement ∧ parsed.length = length ∧ parsed.key = key ∧
        parsed.crc.isSome = crc.isSome ∧ expectedCrc parsed.crc = .ok crc) ∧
    (∀ args, (SetAccepts args ↔ IsDataVector (IsNumeral 32) args) ∧
      (GetAccepts args ↔ IsDataVector (fun _ => True) args)) ∧
    (∀ args, ¬SetAccepts args → ∀ devices (s : State) call, ∃ error,
      s.dmaSetCommand devices call args = some (s, .error error)) ∧
    (∀ args, ¬GetAccepts args → ∀ devices (s : State) call, ∃ error,
      s.dmaGetCommand devices call args = some (s, .error error)) ∧
    (∀ args parsed, parseDataArgs args = .ok parsed → ∀ devices (s : State) call,
      (∀ expected, expectedCrc parsed.crc = .ok expected →
        s.dmaSetCommand devices call args
          = s.dmaSet devices call parsed.advertisement parsed.key parsed.length expected) ∧
      s.dmaGetCommand devices call args
        = s.dmaGet devices call parsed.advertisement parsed.key parsed.length
            (decide (args.length = 7))) := by
  refine ⟨?_, fun args => ⟨setAccepts_iff, getAccepts_iff⟩, ?_, ?_, ?_⟩
  · intro command advertisement length key crc
    obtain ⟨hparsed, hcrc⟩ := parseDataArgs_commandArgs command advertisement length key crc
    exact ⟨_, hparsed, rfl, rfl, rfl, by simp, hcrc⟩
  · intro args h devices s call
    exact dmaSetCommand_refused h devices s call
  · intro args h devices s call
    exact dmaGetCommand_refused h devices s call
  · intro args parsed hparsed devices s call
    constructor
    · intro expected hexpected
      simp only [State.dmaSetCommand, hparsed, hexpected]
    · have hseventh : parsed.crc.isSome = decide (args.length = 7) := by
        obtain ⟨_, _, _, _, _, hargs, -⟩ := parseDataArgs_ok_iff.mp hparsed
        rw [hargs]
        cases parsed.crc with
        | none => rfl
        | some raw => rfl
      simp only [State.dmaGetCommand, hparsed, hseventh]

end Vdma.Module
