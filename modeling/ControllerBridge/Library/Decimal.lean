/-
This file is a library about decimal numerals as bytes: exact rendering with a
fixed number of places, and exact reading.

`fixed` is what `%.Nf` writes for a finite number: the number rounded to the
nearest multiple of the last place, halves to the even one. `parse` is what
`strtod` reads in exact arithmetic: the longest beginning that is a numeral.
The length of a rendering and the size of the number bound each other.
-/

import Mathlib.Algebra.Order.Field.Rat
import Mathlib.Algebra.Order.Ring.Abs
import Mathlib.Data.List.TakeWhile
import Mathlib.Tactic.FieldSimp
import Mathlib.Tactic.Linarith
import Mathlib.Tactic.Positivity
import Mathlib.Tactic.Ring

namespace Decimal

/-! ### Digits -/

def isDigit (byte : UInt8) : Bool := 0x30 ≤ byte && byte ≤ 0x39

/-- The decimal digits of a natural number. -/
def digits (value : Nat) : List UInt8 := (Nat.toDigits 10 value).map fun char => char.toNat.toUInt8

theorem digits_length_le_iff {value count : Nat} (positive : 0 < count) :
    (digits value).length ≤ count ↔ value < 10 ^ count := by
  rw [digits, List.length_map]
  exact Nat.length_toDigits_le_iff (by decide) positive

theorem isDigit_of_mem_digits {value : Nat} {byte : UInt8} (member : byte ∈ digits value) :
    isDigit byte = true := by
  rw [digits, List.mem_map] at member
  obtain ⟨char, inside, rfl⟩ := member
  have digit := Nat.isDigit_of_mem_toDigits (by decide) (by decide) inside
  rw [Char.isDigit, Bool.and_eq_true, decide_eq_true_eq, decide_eq_true_eq] at digit
  have low : 48 ≤ char.toNat := digit.1
  have high : char.toNat ≤ 57 := digit.2
  rw [isDigit, Bool.and_eq_true, decide_eq_true_eq, decide_eq_true_eq, UInt8.le_iff_toNat_le,
    UInt8.le_iff_toNat_le, Nat.toUInt8, UInt8.toNat_ofNat']
  change 48 ≤ char.toNat % 2 ^ 8 ∧ char.toNat % 2 ^ 8 ≤ 57
  omega

/-! ### Rounding -/

/-- The quotient of two natural numbers rounded to the nearest one, halves to the even one. -/
def roundQuotient (numerator denominator : Nat) : Nat :=
  let quotient := numerator / denominator
  let rest := numerator % denominator
  if 2 * rest < denominator then quotient
  else if denominator < 2 * rest then quotient + 1
  else if quotient % 2 = 0 then quotient else quotient + 1

theorem le_roundQuotient (numerator denominator : Nat) :
    numerator / denominator ≤ roundQuotient numerator denominator := by
  rw [roundQuotient]
  split_ifs <;> omega

theorem roundQuotient_le (numerator denominator : Nat) :
    roundQuotient numerator denominator ≤ numerator / denominator + 1 := by
  rw [roundQuotient]
  split_ifs <;> omega

/-- A quotient below a bound is rounded to at most the bound. -/
theorem roundQuotient_le_of_lt {numerator denominator bound : Nat} (positive : 0 < denominator)
    (below : numerator < bound * denominator) : roundQuotient numerator denominator ≤ bound :=
  (roundQuotient_le _ _).trans ((Nat.div_lt_iff_lt_mul positive).mpr below)

/-- A quotient rounded below a bound is below it. -/
theorem lt_of_roundQuotient_lt {numerator denominator bound : Nat} (positive : 0 < denominator)
    (below : roundQuotient numerator denominator < bound) : numerator < bound * denominator :=
  (Nat.div_lt_iff_lt_mul positive).mp ((le_roundQuotient _ _).trans_lt below)

/-! ### Rendering -/

/-- The number of last places in the magnitude of a number, rounded. -/
def units (places : Nat) (value : ℚ) : Nat :=
  roundQuotient (value.num.natAbs * 10 ^ places) value.den

def sign (value : ℚ) : List UInt8 := if value < 0 then [0x2D] else []

/-- The digits after the point, padded in front to their number of places. -/
def fraction (places rest : Nat) : List UInt8 :=
  List.replicate (places - (digits rest).length) 0x30 ++ digits rest

/-- The rendering of a number with a fixed, positive number of places. -/
def fixed (places : Nat) (value : ℚ) : List UInt8 :=
  sign value ++ digits (units places value / 10 ^ places) ++
    0x2E :: fraction places (units places value % 10 ^ places)

theorem fraction_length {places rest : Nat} (positive : 0 < places) (below : rest < 10 ^ places) :
    (fraction places rest).length = places := by
  have short := (digits_length_le_iff positive).mpr below
  rw [fraction, List.length_append, List.length_replicate]
  omega

theorem fixed_length {places : Nat} (positive : 0 < places) (value : ℚ) :
    (fixed places value).length =
      (sign value).length + (digits (units places value / 10 ^ places)).length + 1 + places := by
  rw [fixed, List.length_append, List.length_append, List.length_cons,
    fraction_length positive (Nat.mod_lt _ (Nat.pow_pos (by decide)))]
  omega

theorem fixed_ne_nil (places : Nat) (value : ℚ) : fixed places value ≠ [] :=
  List.append_ne_nil_of_right_ne_nil _ (List.cons_ne_nil _ _)

/-- A rendering is digits, the point and the minus. -/
theorem byte_of_mem_fixed {places : Nat} {value : ℚ} {byte : UInt8}
    (member : byte ∈ fixed places value) : isDigit byte = true ∨ byte = 0x2E ∨ byte = 0x2D := by
  rw [fixed, List.mem_append, List.mem_append, List.mem_cons, sign] at member
  rcases member with (minus | whole) | rfl | rest
  · split at minus
    · exact Or.inr (Or.inr (List.mem_singleton.mp minus))
    · cases minus
  · exact Or.inl (isDigit_of_mem_digits whole)
  · exact Or.inr (Or.inl rfl)
  · rw [fraction, List.mem_append] at rest
    rcases rest with padding | digit
    · rw [List.eq_of_mem_replicate padding]
      exact Or.inl (by decide)
    · exact Or.inl (isDigit_of_mem_digits digit)

/-- The magnitude of a number, cleared of its denominator. -/
theorem abs_mul_den (value : ℚ) : |value| * value.den = value.num.natAbs := by
  rw [Nat.cast_natAbs, Int.cast_abs, ← Rat.mul_den_eq_num, abs_mul, Nat.abs_cast]

/-- A number whose rendering has few digits before the point is small. -/
theorem abs_lt_of_digits_length_le (places : Nat) {count : Nat} {value : ℚ} (positive : 0 < count)
    (short : (digits (units places value / 10 ^ places)).length ≤ count) :
    |value| < 10 ^ count := by
  have scale : 0 < 10 ^ places := Nat.pow_pos (by decide)
  have below := (Nat.div_lt_iff_lt_mul scale).mp ((digits_length_le_iff positive).mp short)
  have cleared := lt_of_roundQuotient_lt value.den_pos below
  have exact : value.num.natAbs < 10 ^ count * value.den := by
    have reordered : 10 ^ count * 10 ^ places * value.den =
        10 ^ count * value.den * 10 ^ places := by ring
    rw [reordered] at cleared
    exact Nat.lt_of_mul_lt_mul_right cleared
  have cast : (value.num.natAbs : ℚ) < 10 ^ count * value.den := by exact_mod_cast exact
  rw [← abs_mul_den] at cast
  exact lt_of_mul_lt_mul_right cast (by positivity)

/-- A small number has few digits before the point. -/
theorem digits_length_le_of_abs_lt (places : Nat) {count bound : Nat} {value : ℚ}
    (positive : 0 < count) (small : |value| < bound) (within : bound < 10 ^ count) :
    (digits (units places value / 10 ^ places)).length ≤ count := by
  have scale : 0 < 10 ^ places := Nat.pow_pos (by decide)
  have den : (0 : ℚ) < value.den := by exact_mod_cast value.den_pos
  have cast : (value.num.natAbs : ℚ) < bound * value.den := by
    rw [← abs_mul_den]
    exact mul_lt_mul_of_pos_right small den
  have cleared : value.num.natAbs < bound * value.den := by exact_mod_cast cast
  have scaled : value.num.natAbs * 10 ^ places < bound * 10 ^ places * value.den := by
    have reordered : bound * 10 ^ places * value.den = bound * value.den * 10 ^ places := by ring
    rw [reordered]
    exact Nat.mul_lt_mul_of_pos_right cleared scale
  have rounded : units places value ≤ bound * 10 ^ places :=
    roundQuotient_le_of_lt value.den_pos scaled
  refine (digits_length_le_iff positive).mpr (Nat.lt_of_le_of_lt ?_ within)
  exact Nat.div_le_of_le_mul (by rw [Nat.mul_comm]; exact rounded)

/-! ### Reading -/

/-- The value of a list of digits. -/
def valueOf (digits : List UInt8) : Nat :=
  digits.foldl (fun value byte => 10 * value + (byte.toNat - 0x30)) 0

/-- A leading sign: whether it is a minus, and the rest. -/
def takeSign : List UInt8 → Bool × List UInt8
  | [] => (false, [])
  | byte :: rest =>
    if byte = 0x2D then (true, rest) else if byte = 0x2B then (false, rest)
    else (false, byte :: rest)

/-- The exponent at the start of a text: zero, if there is none with a digit. -/
def exponent : List UInt8 → Int
  | [] => 0
  | byte :: rest =>
    if byte = 0x65 ∨ byte = 0x45 then
      let (negative, rest) := takeSign rest
      let value : Int := valueOf (rest.takeWhile isDigit)
      if negative then -value else value
    else 0

/-- The number the longest numeral at the start of a text denotes; zero, if there is none. -/
def parse (text : List UInt8) : ℚ :=
  let (negative, text) := takeSign text
  let whole := text.takeWhile isDigit
  let rest := text.dropWhile isDigit
  let hasPoint := rest.head? == some 0x2E
  let places := if hasPoint then (rest.drop 1).takeWhile isDigit else []
  let rest := if hasPoint then (rest.drop 1).dropWhile isDigit else rest
  if whole ++ places = [] then 0
  else
    let magnitude : ℚ := valueOf (whole ++ places) * (10 : ℚ) ^ (exponent rest - places.length)
    if negative then -magnitude else magnitude

end Decimal
