import Mathlib.Data.List.Basic
import Mathlib.Order.Lattice

/-!
# `Vdma.Lib.Decimal`: decimal numerals as bytes

`parse bound text` reads an unsigned numeral of a bounded type, where a plus sign may
precede the digits and each step of the accumulation is checked against the bound.
`decimal n` writes a number in its digits.

* `parse_eq_some_iff`: what is read is a non-empty run of digits, signed or not, whose
  value fits.
* `denotes_decimal`: the digits of a number denote it.
-/

set_option autoImplicit false

namespace Vdma.Lib.Decimal

/-- The byte of `+`. -/
def plus : UInt8 := 43

/-- The byte of `-`. -/
def minus : UInt8 := 45

/-- An ASCII digit. -/
def IsDigit (b : UInt8) : Prop := 48 ≤ b.toNat ∧ b.toNat ≤ 57

instance (b : UInt8) : Decidable (IsDigit b) := inferInstanceAs (Decidable (_ ∧ _))

/-- The value of a digit. -/
def digit? (b : UInt8) : Option Nat := if IsDigit b then some (b.toNat - 48) else none

/-- Reads digits onto `acc`. Each product and each sum stays below the bound. -/
def read (bound : Nat) : Nat → List UInt8 → Option Nat
  | acc, [] => some acc
  | acc, b :: text =>
    match digit? b with
    | none => none
    | some d =>
      if acc * 10 < bound then
        if acc * 10 + d < bound then read bound (acc * 10 + d) text else none
      else none

/-- Reads an unsigned numeral. A sign alone is no numeral, and a minus sign is no
digit. -/
def parse (bound : Nat) : List UInt8 → Option Nat
  | [] => none
  | [b] => if b = plus ∨ b = minus then none else read bound 0 [b]
  | b :: text => if b = plus then read bound 0 text else read bound 0 (b :: text)

/-- The value of a run of digits, read onto `acc`. -/
def valueFrom (acc : Nat) (digits : List UInt8) : Nat :=
  digits.foldl (fun acc b => acc * 10 + (b.toNat - 48)) acc

/-- The value of a run of digits. -/
abbrev value (digits : List UInt8) : Nat := valueFrom 0 digits

/-- `text` is a numeral of value `n`: one or more digits, which a plus sign may
precede. -/
def Denotes (text : List UInt8) (n : Nat) : Prop :=
  ∃ digits, (text = digits ∨ text = plus :: digits) ∧ digits ≠ [] ∧ (∀ b ∈ digits, IsDigit b) ∧
    value digits = n

/-- The digits of a number. -/
def decimal (n : Nat) : List UInt8 := (Nat.toDigits 10 n).map fun c => UInt8.ofNat c.toNat

/-! ### Reading digits -/

/-- No digit adds nothing. -/
@[simp] theorem valueFrom_nil (acc : Nat) : valueFrom acc [] = acc := rfl

/-- A digit is ten times what was read, and itself. -/
@[simp] theorem valueFrom_cons (acc : Nat) (b : UInt8) (digits : List UInt8) :
    valueFrom acc (b :: digits) = valueFrom (acc * 10 + (b.toNat - 48)) digits := by
  rw [valueFrom, List.foldl_cons, valueFrom]

/-- Digits only add to what is read. -/
theorem le_valueFrom (acc : Nat) (digits : List UInt8) : acc ≤ valueFrom acc digits := by
  induction digits generalizing acc with
  | nil => exact Nat.le_refl acc
  | cons b digits ih =>
    have hrest := ih (acc * 10 + (b.toNat - 48))
    rw [valueFrom_cons]
    omega

/-- A digit reads as its distance from `0`. -/
theorem digit?_of_isDigit {b : UInt8} (h : IsDigit b) : digit? b = some (b.toNat - 48) := if_pos h

/-- Only digits read as one. -/
theorem isDigit_of_digit? {b : UInt8} {d : Nat} (h : digit? b = some d) :
    IsDigit b ∧ d = b.toNat - 48 := by
  unfold digit? at h
  split at h
  · next hdigit =>
    cases h
    exact ⟨hdigit, rfl⟩
  · cases h

/-- What `read` accepts: digits all along, of a value below the bound. The value grows
along the digits, so the checks on the way are implied by the last one. -/
theorem read_eq_some_iff {bound acc n : Nat} {text : List UInt8} (hacc : acc < bound) :
    read bound acc text = some n ↔
      (∀ b ∈ text, IsDigit b) ∧ valueFrom acc text = n ∧ n < bound := by
  induction text generalizing acc with
  | nil =>
    constructor
    · intro h
      cases h
      simpa using hacc
    · intro h
      exact congrArg some h.2.1
  | cons b text ih =>
    constructor
    · intro h
      simp only [read] at h
      split at h
      · cases h
      · next d hd =>
        obtain ⟨hdigit, rfl⟩ := isDigit_of_digit? hd
        split at h
        · split at h
          · next hsum =>
            obtain ⟨hall, hvalue, hn⟩ := (ih hsum).mp h
            refine ⟨?_, hvalue, hn⟩
            intro b' hb'
            cases hb' with
            | head => exact hdigit
            | tail _ hb' => exact hall b' hb'
          · cases h
        · cases h
    · rintro ⟨hall, hvalue, hn⟩
      rw [valueFrom_cons] at hvalue
      have hle := le_valueFrom (acc * 10 + (b.toNat - 48)) text
      have hsum : acc * 10 + (b.toNat - 48) < bound := by omega
      have hproduct : acc * 10 < bound := by omega
      simp only [read, digit?_of_isDigit (hall b (.head _)), if_pos hproduct, if_pos hsum]
      exact (ih hsum).mpr ⟨fun b' hb' => hall b' (.tail _ hb'), hvalue, hn⟩

/-! ### Reading numerals -/

/-- A plus sign is no digit. -/
theorem not_isDigit_plus : ¬IsDigit plus := by decide

/-- A minus sign is no digit. -/
theorem not_isDigit_minus : ¬IsDigit minus := by decide

/-- A numeral without a sign starts with a digit. -/
theorem parse_of_ne_plus {bound : Nat} {b : UInt8} {text : List UInt8} (h : b ≠ plus) :
    parse bound (b :: text) = read bound 0 (b :: text) := by
  cases text with
  | nil =>
    show (if b = plus ∨ b = minus then none else read bound 0 [b]) = read bound 0 [b]
    split
    · next hsign =>
      -- A minus sign is refused by `read` too.
      have hminus : b = minus := hsign.resolve_left h
      have hnone : digit? b = none := by
        rw [hminus]
        exact if_neg not_isDigit_minus
      simp only [read, hnone]
    · rfl
  | cons b' text => exact if_neg h

/-- One plus sign is skipped. -/
theorem parse_plus {bound : Nat} {b : UInt8} {text : List UInt8} :
    parse bound (plus :: b :: text) = read bound 0 (b :: text) := rfl

/-- The numerals that are read are those whose value fits. -/
theorem parse_eq_some_iff {bound n : Nat} {text : List UInt8} (hbound : 0 < bound) :
    parse bound text = some n ↔ Denotes text n ∧ n < bound := by
  constructor
  · intro h
    cases text with
    | nil => cases h
    | cons b text =>
      by_cases hb : b = plus
      · subst hb
        cases text with
        | nil => cases h
        | cons b' text =>
          obtain ⟨hall, hvalue, hn⟩ := (read_eq_some_iff hbound).mp (parse_plus ▸ h)
          exact ⟨⟨b' :: text, .inr rfl, List.cons_ne_nil _ _, hall, hvalue⟩, hn⟩
      · rw [parse_of_ne_plus hb] at h
        obtain ⟨hall, hvalue, hn⟩ := (read_eq_some_iff hbound).mp h
        exact ⟨⟨b :: text, .inl rfl, List.cons_ne_nil _ _, hall, hvalue⟩, hn⟩
  · rintro ⟨⟨digits, htext, hne, hall, hvalue⟩, hn⟩
    cases digits with
    | nil => exact absurd rfl hne
    | cons b digits =>
      have hread := (read_eq_some_iff hbound).mpr ⟨hall, hvalue, hn⟩
      cases htext with
      | inl htext =>
        subst htext
        have hb : b ≠ plus := by
          intro hb
          exact not_isDigit_plus (hb ▸ hall b (.head _))
        rw [parse_of_ne_plus hb]
        exact hread
      | inr htext =>
        subst htext
        exact hread

/-- A numeral is ASCII. -/
theorem Denotes.ascii {text : List UInt8} {n : Nat} (h : Denotes text n) {b : UInt8}
    (hb : b ∈ text) : b.toNat < 128 := by
  obtain ⟨digits, htext, -, hall, -⟩ := h
  have hdigits : ∀ b ∈ digits, b.toNat < 128 := by
    intro b hb
    have hle := (hall b hb).2
    omega
  cases htext with
  | inl htext => exact hdigits b (htext ▸ hb)
  | inr htext =>
    rw [htext] at hb
    cases hb with
    | head => decide
    | tail _ hb => exact hdigits b hb

/-! ### The digits of a number -/

/-- A digit character as a byte. -/
theorem isDigit_of_char {c : Char} (h : c.isDigit) :
    IsDigit (UInt8.ofNat c.toNat) ∧ (UInt8.ofNat c.toNat).toNat = c.toNat := by
  obtain ⟨hlow, hhigh⟩ := Char.isDigit_iff_toNat.mp h
  have hlow' : 48 ≤ c.toNat := hlow
  have hhigh' : c.toNat ≤ 57 := hhigh
  have hbyte : (UInt8.ofNat c.toNat).toNat = c.toNat :=
    UInt8.toNat_ofNat_of_lt' (show c.toNat < 256 by omega)
  exact ⟨⟨by omega, by omega⟩, hbyte⟩

/-- The value of digit characters as bytes is their value as characters. -/
theorem valueFrom_map {chars : List Char} (h : ∀ c ∈ chars, c.isDigit) (acc : Nat) :
    valueFrom acc (chars.map fun c => UInt8.ofNat c.toNat) = Nat.ofDigitChars 10 chars acc := by
  induction chars generalizing acc with
  | nil => simp
  | cons c chars ih =>
    have hc := (isDigit_of_char (h c (.head _))).2
    rw [List.map_cons, valueFrom_cons, hc, Nat.ofDigitChars_cons, Nat.mul_comm acc 10]
    exact ih (fun c' hc' => h c' (.tail _ hc')) _

/-- The decimal text of a number denotes it. -/
theorem denotes_decimal (n : Nat) : Denotes (decimal n) n := by
  have hdigits : ∀ c ∈ Nat.toDigits 10 n, c.isDigit := fun c hc =>
    Nat.isDigit_of_mem_toDigits (by omega) (by omega) hc
  refine ⟨decimal n, .inl rfl, ?_, ?_, ?_⟩
  · intro hnil
    exact Nat.toDigits_ne_nil (List.map_eq_nil_iff.mp hnil)
  · intro b hb
    obtain ⟨c, hc, rfl⟩ := List.mem_map.mp hb
    exact (isDigit_of_char (hdigits c hc)).1
  · show valueFrom 0 (decimal n) = n
    rw [decimal, valueFrom_map hdigits, Nat.ofDigitChars_ten_toDigits]

end Vdma.Lib.Decimal
