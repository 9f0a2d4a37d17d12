import Vdma.Fabric.Server
import Vdma.Lib.Decimal

/-!
# `Vdma.Protocol.Advertisement`: the fields of an advertisement

`advertisement.rs`: where a client's exposed buffer is, and how the three fields and the
other numbers of a command are written and read. A field is bytes. Text is a `String`,
whose bytes are its UTF-8 encoding, and `String.fromUTF8?` is `std::str::from_utf8`.

A `usize` is 64 bits wide, so it is read as a `UInt64`.
-/

set_option autoImplicit false

namespace Vdma.Protocol

open Vdma.Fabric (Bytes)
open Vdma.Lib

/-- Where a client's exposed RMA buffer lives. -/
structure Advertisement where
  /-- The remote network address. -/
  address : Bytes
  /-- The rkey of the remote memory region. -/
  remoteKey : UInt64
  /-- The exposed buffer's virtual address, or 0 where addressing is by offset. -/
  remoteAddress : UInt64
  deriving DecidableEq, Repr

/-- Errors decoding an advertisement. -/
inductive AdvertisementError where
  | arity
  | hex
  | integer
  deriving DecidableEq, Repr

/-- The `Display` text of an error. -/
def AdvertisementError.display : AdvertisementError → String
  | .arity => "expected: address rkey remote-address"
  | .hex => "invalid hex in address"
  | .integer => "invalid integer in advertisement"

/-- The bytes of a text. -/
def textBytes (text : String) : Bytes := text.toByteArray.data.toList

/-! ### Numbers -/

/-- `std::str::FromStr`, with the error left out. -/
class FromStr (T : Type) where
  fromStr : String → Option T

instance : FromStr UInt64 where
  fromStr text := (Decimal.parse UInt64.size (textBytes text)).map UInt64.ofNat

instance : FromStr UInt32 where
  fromStr text := (Decimal.parse UInt32.size (textBytes text)).map UInt32.ofNat

/-- Decodes a decimal argument. -/
def parseAscii {T : Type} [FromStr T] (raw : Bytes) : Option T :=
  (String.fromUTF8? raw.toByteArray).bind FromStr.fromStr

/-! ### Hex -/

/-- `char::from_digit` at radix 16. -/
def fromDigit (num : Nat) : Option Char :=
  if num < 16 then
    if num < 10 then some (Char.ofNat ('0'.toNat + num))
    else some (Char.ofNat ('a'.toNat + (num - 10)))
  else none

/-- `to_digit` at radix 16, of the character with the code of a byte. -/
def toDigit (byte : UInt8) : Option Nat :=
  let code := byte.toNat
  if '0'.toNat ≤ code ∧ code ≤ '9'.toNat then some (code - '0'.toNat)
  else if 'a'.toNat ≤ code ∧ code ≤ 'f'.toNat then some (code - 'a'.toNat + 10)
  else if 'A'.toNat ≤ code ∧ code ≤ 'F'.toNat then some (code - 'A'.toNat + 10)
  else none

/-- Pushes the two digits of a byte. -/
def pushHex (output : String) (byte : UInt8) : String :=
  let output := output.push ((fromDigit (byte >>> 4).toNat).getD '0')
  output.push ((fromDigit (byte &&& 0x0f).toNat).getD '0')

/-- Hex-encodes bytes. -/
def encodeHex (bytes : Bytes) : String := bytes.foldl pushHex ""

/-- Decodes the pairs of a text, and leaves out what is behind the last whole one. -/
def decodePairs : Bytes → Except AdvertisementError Bytes
  | high :: low :: rest =>
    match toDigit high, toDigit low with
    | some high, some low =>
      (decodePairs rest).map fun bytes => UInt8.ofNat (high <<< 4 ||| low) :: bytes
    | _, _ => .error .hex
  | _ => .ok []

/-- Decodes a text of `encodeHex` back to its bytes. -/
def decodeHex (text : Bytes) : Except AdvertisementError Bytes :=
  if text.length % 2 ≠ 0 then .error .hex else decodePairs text

/-! ### The three fields -/

namespace Advertisement

/-- Command arguments an advertisement occupies. -/
def argCount : Nat := 3

/-- Parses the three fields. -/
def fromFields : List Bytes → Except AdvertisementError Advertisement
  | [address, remoteKey, remoteAddress] =>
    match decodeHex address with
    | .error error => .error error
    | .ok address =>
      match parseAscii remoteKey with
      | none => .error .integer
      | some remoteKey =>
        match parseAscii remoteAddress with
        | none => .error .integer
        | some remoteAddress => .ok ⟨address, remoteKey, remoteAddress⟩
  | _ => .error .arity

end Advertisement

/-! ### Text and bytes -/

/-- An ASCII character is one byte. -/
theorem utf8Encode_ascii {c : Char} (h : c.toNat < 128) :
    [c].utf8Encode = [UInt8.ofNat c.toNat].toByteArray := by
  have hval : c.val ≤ 0x7f := by
    rw [UInt32.le_iff_toNat_le]
    show c.toNat ≤ 127
    omega
  have hsize : c.utf8Size = 1 := by
    unfold Char.utf8Size
    exact if_pos hval
  rw [List.utf8Encode_singleton, String.utf8EncodeChar_eq_singleton hsize]
  rfl

/-- A character below 128 is one byte. -/
theorem textBytes_push {text : String} {c : Char} (h : c.toNat < 128) :
    textBytes (text.push c) = textBytes text ++ [UInt8.ofNat c.toNat] := by
  show (text.push c).toByteArray.data.toList = _
  rw [String.toByteArray_push, utf8Encode_ascii h]
  simp [textBytes]

/-- ASCII is UTF-8. -/
theorem isValidUTF8_of_ascii {raw : Bytes} (h : ∀ b ∈ raw, b.toNat < 128) :
    raw.toByteArray.IsValidUTF8 := by
  have hchars : (raw.map Char.ofUInt8).utf8Encode = raw.toByteArray := by
    induction raw with
    | nil => simp
    | cons b raw ih =>
      have hb : (Char.ofUInt8 b).toNat = b.toNat := rfl
      have htail := ih fun b' hb' => h b' (.tail _ hb')
      rw [List.map_cons, List.utf8Encode_cons, htail,
        utf8Encode_ascii (by rw [hb]; exact h b (.head _)), hb, UInt8.ofNat_toNat,
        ← List.toByteArray_append]
      rfl
  rw [← hchars]
  exact ByteArray.isValidUTF8_utf8Encode

/-- A text read from bytes has these bytes. -/
theorem textBytes_of_fromUTF8? {raw : Bytes} {text : String}
    (h : String.fromUTF8? raw.toByteArray = some text) : textBytes text = raw := by
  unfold String.fromUTF8? at h
  split at h
  · cases h
    show raw.toByteArray.data.toList = raw
    simp
  · cases h

/-- A number read from a field: the field is valid UTF-8 whenever it is a numeral, so the
first check of `parse_ascii` refuses nothing that the second would take. -/
theorem bind_fromUTF8? {bound : Nat} (hbound : 0 < bound) (raw : Bytes) :
    ((String.fromUTF8? raw.toByteArray).bind fun text => Decimal.parse bound (textBytes text))
      = Decimal.parse bound raw := by
  cases hutf : String.fromUTF8? raw.toByteArray with
  | some text =>
    show Decimal.parse bound (textBytes text) = _
    rw [textBytes_of_fromUTF8? hutf]
  | none =>
    show none = _
    cases hparse : Decimal.parse bound raw with
    | none => rfl
    | some n =>
      have hdenotes := ((Decimal.parse_eq_some_iff hbound).mp hparse).1
      have hvalid := isValidUTF8_of_ascii fun b hb => hdenotes.ascii hb
      rw [String.fromUTF8?, dif_pos hvalid] at hutf
      cases hutf

/-- Reading a `u64` is reading a decimal number below its size. -/
theorem parseAscii_uint64 (raw : Bytes) :
    parseAscii raw = (Decimal.parse UInt64.size raw).map UInt64.ofNat := by
  rw [← bind_fromUTF8? (by decide) raw, Option.map_bind]
  rfl

/-- Reading a `u32` is reading a decimal number below its size. -/
theorem parseAscii_uint32 (raw : Bytes) :
    parseAscii raw = (Decimal.parse UInt32.size raw).map UInt32.ofNat := by
  rw [← bind_fromUTF8? (by decide) raw, Option.map_bind]
  rfl

/-- The 64-bit numbers a field is read as. -/
theorem parseAscii_uint64_iff {raw : Bytes} {n : UInt64} :
    parseAscii raw = some n ↔ Decimal.Denotes raw n.toNat := by
  rw [parseAscii_uint64, Option.map_eq_some_iff]
  constructor
  · intro ⟨m, hparse, hm⟩
    obtain ⟨hdenotes, hlt⟩ := (Decimal.parse_eq_some_iff (by decide)).mp hparse
    rw [← hm, UInt64.toNat_ofNat_of_lt' hlt]
    exact hdenotes
  · intro hdenotes
    exact ⟨n.toNat, (Decimal.parse_eq_some_iff (by decide)).mpr ⟨hdenotes, n.toNat_lt⟩,
      UInt64.ofNat_toNat⟩

/-- The 32-bit numbers a field is read as. -/
theorem parseAscii_uint32_iff {raw : Bytes} {n : UInt32} :
    parseAscii raw = some n ↔ Decimal.Denotes raw n.toNat := by
  rw [parseAscii_uint32, Option.map_eq_some_iff]
  constructor
  · intro ⟨m, hparse, hm⟩
    obtain ⟨hdenotes, hlt⟩ := (Decimal.parse_eq_some_iff (by decide)).mp hparse
    rw [← hm, UInt32.toNat_ofNat_of_lt' hlt]
    exact hdenotes
  · intro hdenotes
    exact ⟨n.toNat, (Decimal.parse_eq_some_iff (by decide)).mpr ⟨hdenotes, n.toNat_lt⟩,
      UInt32.ofNat_toNat⟩

/-! ### Hex digits -/

/-- A hex digit of either case. -/
def IsHexDigit (byte : UInt8) : Prop :=
  (48 ≤ byte.toNat ∧ byte.toNat ≤ 57) ∨ (97 ≤ byte.toNat ∧ byte.toNat ≤ 102) ∨
    (65 ≤ byte.toNat ∧ byte.toNat ≤ 70)

/-- An even number of hex digits. -/
def IsHex (text : Bytes) : Prop := text.length % 2 = 0 ∧ ∀ byte ∈ text, IsHexDigit byte

/-- A byte has a hex value just when it is a hex digit. -/
theorem toDigit_isSome {byte : UInt8} : (toDigit byte).isSome ↔ IsHexDigit byte := by
  unfold toDigit IsHexDigit
  simp only [Char.reduceToNat]
  split
  · simp_all
  · split
    · simp_all
    · split
      · simp_all
      · simp_all

/-- The digit of a number below 16 is one ASCII byte, which is read back. -/
theorem toDigit_fromDigit {num : Nat} (h : num < 16) :
    ((fromDigit num).getD '0').toNat < 128 ∧
      toDigit (UInt8.ofNat ((fromDigit num).getD '0').toNat) = some num := by
  revert num
  decide

/-- The two digits of a byte, as bytes. -/
def hexPair (byte : UInt8) : Bytes :=
  [UInt8.ofNat ((fromDigit (byte.toNat / 16)).getD '0').toNat,
    UInt8.ofNat ((fromDigit (byte.toNat % 16)).getD '0').toNat]

/-- Two hex digits are written for each byte. -/
theorem textBytes_pushHex (output : String) (byte : UInt8) :
    textBytes (pushHex output byte) = textBytes output ++ hexPair byte := by
  have hhigh : (byte >>> 4).toNat = byte.toNat / 16 := by
    rw [UInt8.toNat_shiftRight]
    exact Nat.shiftRight_eq_div_pow _ 4
  have hlow : (byte &&& 0x0f).toNat = byte.toNat % 16 := by
    rw [UInt8.toNat_and]
    exact Nat.and_two_pow_sub_one_eq_mod _ 4
  have hbyte := byte.toNat_lt
  show textBytes ((output.push _).push _) = _
  rw [hhigh, hlow, textBytes_push (toDigit_fromDigit (by omega)).1,
    textBytes_push (toDigit_fromDigit (by omega)).1, List.append_assoc]
  rfl

/-- The encoding is the digits of one byte after the other. -/
theorem textBytes_encodeHex (bytes : Bytes) :
    textBytes (encodeHex bytes) = bytes.flatMap hexPair := by
  have hfold : ∀ output, textBytes (bytes.foldl pushHex output)
      = textBytes output ++ bytes.flatMap hexPair := by
    induction bytes with
    | nil => simp
    | cons byte bytes ih =>
      intro output
      rw [List.foldl_cons, ih, textBytes_pushHex, List.flatMap_cons, List.append_assoc]
  exact hfold ""

/-- The digits of a byte make the byte. -/
theorem decodePairs_hexPair (byte : UInt8) (rest : Bytes) :
    decodePairs (hexPair byte ++ rest) = (decodePairs rest).map fun bytes => byte :: bytes := by
  have hbyte := byte.toNat_lt
  have hhigh := (toDigit_fromDigit (show byte.toNat / 16 < 16 by omega)).2
  have hlow := (toDigit_fromDigit (show byte.toNat % 16 < 16 by omega)).2
  have hor : (byte.toNat / 16) <<< 4 ||| byte.toNat % 16 = byte.toNat := by
    have hsplit := Nat.shiftLeft_add_eq_or_of_lt (show byte.toNat % 16 < 2 ^ 4 by omega)
      (byte.toNat / 16)
    rw [← hsplit, Nat.shiftLeft_eq]
    omega
  show decodePairs (_ :: _ :: rest) = _
  simp only [decodePairs, hhigh, hlow, hor, UInt8.ofNat_toNat]

/-- Decoding takes the encoding back. -/
theorem decodeHex_encodeHex (bytes : Bytes) :
    decodeHex (textBytes (encodeHex bytes)) = .ok bytes := by
  have heven : (bytes.flatMap hexPair).length % 2 = 0 := by
    induction bytes with
    | nil => rfl
    | cons byte bytes ih =>
      rw [List.flatMap_cons, List.length_append]
      show (2 + _) % 2 = 0
      omega
  rw [textBytes_encodeHex, decodeHex, if_neg (by omega)]
  clear heven
  induction bytes with
  | nil => rfl
  | cons byte bytes ih =>
    rw [List.flatMap_cons, decodePairs_hexPair, ih]
    rfl

/-- The pairs that are decoded have hex digits only. -/
theorem decodePairs_isOk {text : Bytes} (h : text.length % 2 = 0) :
    (decodePairs text).isOk ↔ ∀ byte ∈ text, IsHexDigit byte := by
  induction text using decodePairs.induct with
  | case1 high low rest h₁ h₂ hlow hhigh ih =>
    have hhigh' : IsHexDigit high := toDigit_isSome.mp (by rw [hhigh]; rfl)
    have hlow' : IsHexDigit low := toDigit_isSome.mp (by rw [hlow]; rfl)
    have hrest := ih (by
      have hlength : (rest.length + 2) % 2 = 0 := h
      omega)
    simp only [decodePairs, hhigh, hlow, List.forall_mem_cons, hhigh', hlow', true_and]
    rw [← hrest]
    cases decodePairs rest with
    | ok bytes => exact Iff.rfl
    | error error => exact Iff.rfl
  | case2 high low rest hnot =>
    have hbad : ¬(IsHexDigit high ∧ IsHexDigit low) := by
      rw [← toDigit_isSome, ← toDigit_isSome, Option.isSome_iff_exists, Option.isSome_iff_exists]
      intro ⟨⟨h₁, hhigh⟩, ⟨h₂, hlow⟩⟩
      exact hnot h₁ h₂ hhigh hlow
    have herror : decodePairs (high :: low :: rest) = .error .hex := by
      rw [decodePairs]
      split
      · next hhigh hlow => exact absurd hlow (hnot _ _ hhigh)
      · rfl
    rw [herror]
    constructor
    · intro hok
      cases hok
    · intro hall
      exact absurd ⟨hall high (.head _), hall low (.tail _ (.head _))⟩ hbad
  | case3 text hshort =>
    cases text with
    | nil => simp [decodePairs, Except.isOk, Except.toBool]
    | cons byte text =>
      cases text with
      | nil => simp at h
      | cons byte' text => exact absurd rfl (hshort _ _ _)

/-- What is decoded is an even number of hex digits. -/
theorem decodeHex_isOk {text : Bytes} : (decodeHex text).isOk ↔ IsHex text := by
  unfold decodeHex IsHex
  split
  · next hodd =>
    constructor
    · intro hok
      cases hok
    · intro hhex
      exact absurd hhex.1 hodd
  · next heven =>
    have heven' : text.length % 2 = 0 := by omega
    rw [decodePairs_isOk heven']
    simp [heven']

end Vdma.Protocol
