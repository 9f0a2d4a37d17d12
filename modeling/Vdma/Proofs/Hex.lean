import Vdma.Protocol.Advertisement

/-!
# `Vdma.Proofs.Hex`: the hex encoding of an address

`encode_hex` pushes a nibble after the other and `decode_hex` reads byte pairs, each byte as
the character of its code. `decodeHex_encodeHex` takes the first loop back through the
second. The other direction is here: what decodes is the encoding of its bytes, but for the
case of the letters, which `toLower` removes.

The one fact about digits is `digitByte_of_toDigit`. A byte that reads as a digit is written
as that digit, in lower case.
-/

set_option autoImplicit false

namespace Vdma.Protocol

open Vdma.Fabric (Bytes)

/-- `u8::to_ascii_lowercase`. -/
def toLower (byte : UInt8) : UInt8 :=
  if 'A'.toNat ≤ byte.toNat ∧ byte.toNat ≤ 'Z'.toNat then byte + 32 else byte

/-- A digit of `[0-9a-f]`. -/
def IsLowerHexDigit (byte : UInt8) : Prop :=
  (48 ≤ byte.toNat ∧ byte.toNat ≤ 57) ∨ (97 ≤ byte.toNat ∧ byte.toNat ≤ 102)

instance (byte : UInt8) : Decidable (IsLowerHexDigit byte) :=
  inferInstanceAs (Decidable (_ ∨ _))

/-- The byte a digit is written as. -/
def digitByte (num : Nat) : UInt8 := UInt8.ofNat ((fromDigit num).getD '0').toNat

/-- A digit is written in lower case. -/
theorem isLowerHexDigit_digitByte {num : Nat} (h : num < 16) : IsLowerHexDigit (digitByte num) := by
  revert num
  decide

/-- What a byte reads as is below 16, and is written as the byte in lower case. -/
theorem digitByte_of_toDigit {byte : UInt8} {num : Nat} (h : toDigit byte = some num) :
    num < 16 ∧ digitByte num = toLower byte := by
  have key : ∀ code < 256, (toDigit (UInt8.ofNat code)).all fun num =>
      decide (num < 16 ∧ digitByte num = toLower (UInt8.ofNat code)) := by
    decide +kernel
  have hbyte := key byte.toNat byte.toNat_lt
  rw [UInt8.ofNat_toNat, h] at hbyte
  exact of_decide_eq_true hbyte

/-- The byte that two digits make has these two digits. -/
theorem hexPair_of_digits {high low : Nat} (hhigh : high < 16) (hlow : low < 16) :
    hexPair (UInt8.ofNat (high <<< 4 ||| low)) = [digitByte high, digitByte low] := by
  have hsum : high <<< 4 ||| low = high * 16 + low := by
    rw [← Nat.shiftLeft_add_eq_or_of_lt hlow high, Nat.shiftLeft_eq]
  have hval : (UInt8.ofNat (high <<< 4 ||| low)).toNat = high * 16 + low := by
    rw [hsum, UInt8.toNat_ofNat_of_lt' (by show _ < 256; omega)]
  unfold hexPair
  rw [hval, show (high * 16 + low) / 16 = high by omega, show (high * 16 + low) % 16 = low by omega]
  rfl

/-- The two digits of a byte, in lower case. -/
theorem mem_hexPair {byte digit : UInt8} (h : digit ∈ hexPair byte) : IsLowerHexDigit digit := by
  have hbyte := byte.toNat_lt
  rcases List.mem_cons.mp h with rfl | hlow
  · exact isLowerHexDigit_digitByte (show byte.toNat / 16 < 16 by omega)
  · rw [List.mem_singleton.mp hlow]
    exact isLowerHexDigit_digitByte (show byte.toNat % 16 < 16 by omega)

/-- An encoding has two digits for each byte, all in lower case. -/
theorem encodeHex_digits (bytes : Bytes) :
    (textBytes (encodeHex bytes)).length = 2 * bytes.length ∧
      ∀ digit ∈ textBytes (encodeHex bytes), IsLowerHexDigit digit := by
  rw [textBytes_encodeHex]
  constructor
  · rw [List.length_flatMap]
    induction bytes with
    | nil => rfl
    | cons byte bytes ih =>
      rw [List.map_cons, List.sum_cons, ih, List.length_cons]
      show 2 + _ = _
      omega
  · intro digit hdigit
    obtain ⟨byte, -, hpair⟩ := List.mem_flatMap.mp hdigit
    exact mem_hexPair hpair

/-- What the pairs of a text decode to is encoded as the text in lower case. -/
theorem flatMap_hexPair_of_decodePairs {text bytes : Bytes} (heven : text.length % 2 = 0)
    (h : decodePairs text = .ok bytes) : bytes.flatMap hexPair = text.map toLower := by
  induction text using decodePairs.induct generalizing bytes with
  | case1 high low rest h₁ h₂ hlow hhigh ih =>
    simp only [decodePairs, hhigh, hlow] at h
    cases hrest : decodePairs rest with
    | error error =>
      rw [hrest] at h
      cases h
    | ok rest' =>
      rw [hrest] at h
      cases h
      have heven' : rest.length % 2 = 0 := by
        rw [List.length_cons, List.length_cons] at heven
        omega
      obtain ⟨hhigh16, hhigh'⟩ := digitByte_of_toDigit hhigh
      obtain ⟨hlow16, hlow'⟩ := digitByte_of_toDigit hlow
      rw [List.flatMap_cons, hexPair_of_digits hhigh16 hlow16, ih heven' hrest, hhigh', hlow']
      rfl
  | case2 high low rest hnot =>
    rw [decodePairs] at h
    split at h
    · next hhigh hlow => exact absurd hlow (hnot _ _ hhigh)
    · cases h
  | case3 text hshort =>
    -- An even text without a pair is empty.
    cases text with
    | nil =>
      cases h
      rfl
    | cons byte text =>
      cases text with
      | nil => exact absurd heven (by simp)
      | cons byte' text => exact absurd rfl (hshort _ _ _)

/-- Decoding fails in one way. -/
theorem decodeHex_error {text : Bytes} {error : AdvertisementError}
    (h : decodeHex text = .error error) : error = .hex := by
  have hpairs : ∀ text error, decodePairs text = .error error → error = .hex := by
    intro text
    induction text using decodePairs.induct with
    | case1 high low rest h₁ h₂ hlow hhigh ih =>
      intro error herror
      simp only [decodePairs, hhigh, hlow] at herror
      cases hrest : decodePairs rest with
      | error error' =>
        rw [hrest] at herror
        cases herror
        exact ih _ hrest
      | ok rest' =>
        rw [hrest] at herror
        cases herror
    | case2 high low rest hnot =>
      intro error herror
      rw [decodePairs] at herror
      split at herror
      · next hhigh hlow => exact absurd hlow (hnot _ _ hhigh)
      · cases herror
        rfl
    | case3 text hshort =>
      intro error herror
      rw [decodePairs] at herror
      · cases herror
      · exact hshort
  unfold decodeHex at h
  split at h
  · cases h
    rfl
  · exact hpairs text error h

/-- `encode_hex` and `decode_hex`: each byte string is the decoding of its encoding, and each
text that decodes is, in lower case, the encoding of its bytes. -/
theorem hex_exact :
    Function.Injective encodeHex ∧
    (∀ bytes : Bytes, decodeHex (textBytes (encodeHex bytes)) = .ok bytes ∧
      (textBytes (encodeHex bytes)).length = 2 * bytes.length ∧
      ∀ digit ∈ textBytes (encodeHex bytes), IsLowerHexDigit digit) ∧
    ∀ text : Bytes, ((∃ bytes, decodeHex text = .ok bytes) ↔ IsHex text) ∧
      (∀ bytes, decodeHex text = .ok bytes → textBytes (encodeHex bytes) = text.map toLower) ∧
      (¬IsHex text → decodeHex text = .error .hex) := by
  refine ⟨fun bytes bytes' hsame => ?_, fun bytes => ⟨decodeHex_encodeHex bytes,
    encodeHex_digits bytes⟩, fun text => ⟨?_, fun bytes hbytes => ?_, fun hnot => ?_⟩⟩
  · have hdecoded := decodeHex_encodeHex bytes
    rw [hsame, decodeHex_encodeHex] at hdecoded
    exact (Except.ok.inj hdecoded).symm
  · rw [← decodeHex_isOk]
    cases decodeHex text with
    | ok bytes => exact ⟨fun _ => rfl, fun _ => ⟨bytes, rfl⟩⟩
    | error error => exact ⟨fun ⟨_, h⟩ => (by cases h), fun h => (by cases h)⟩
  · unfold decodeHex at hbytes
    split at hbytes
    · cases hbytes
    · next heven =>
      rw [textBytes_encodeHex]
      exact flatMap_hexPair_of_decodePairs (by omega) hbytes
  · cases hdecoded : decodeHex text with
    | error error => rw [decodeHex_error hdecoded]
    | ok bytes => exact absurd (decodeHex_isOk.mp (by rw [hdecoded]; rfl)) hnot

/-- Mixed case is read, and comes back in lower case. A byte above `0x7f` is not. -/
example : decodeHex [0x46, 0x65] = .ok [0xfe] ∧ decodeHex [0x66, 0xe9] = .error .hex := by decide

end Vdma.Protocol
