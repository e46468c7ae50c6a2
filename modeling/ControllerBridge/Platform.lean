/-
This file holds what the bridge takes from the C library: the conversion of
numbers to and from text, and `snprintf` into a local buffer.

`Double` is any type of numbers. The conversions are parameters, so that a
result holds for every rendering, and the results about exact numbers
instantiate them.
-/

import ControllerBridge.Library.Region

namespace ControllerBridge

/-- The bytes of a string literal. -/
def ascii (literal : String) : List UInt8 := literal.toList.map fun char => char.toNat.toUInt8

/-- The number conversions of the C library: `strtod`, and what the conversion `%.Nf` writes
for a number, if it does not fail. -/
structure Libc (Double : Type) where
  strtod : List UInt8 → Double
  printf : Nat → Double → Option (List UInt8)

/-- What `snprintf` leaves behind: its result, the length of the whole rendering or a negative
number, and the bytes it wrote to the local buffer, their terminator included. -/
structure Formatted where
  length : Int
  bytes : List UInt8

/-- `snprintf` of a rendering into a local buffer of `size` bytes. -/
def snprintf (size : Nat) : Option (List UInt8) → Formatted
  | none => ⟨-1, []⟩
  | some rendering => ⟨rendering.length, rendering.take (size - 1) ++ [0]⟩

/-- `len < 0 || (size_t)len >= sizeof(buf)`, the check made of every rendering. -/
def Formatted.refused (size : Nat) (formatted : Formatted) : Bool :=
  formatted.length < 0 || size ≤ formatted.length

/-- A rendering that fits its local buffer of `size` bytes with the terminator. -/
def fitting (size : Nat) (rendering : Option (List UInt8)) : Option (List UInt8) :=
  rendering.filter fun bytes => bytes.length < size

theorem fitting_eq_some_iff {size : Nat} {rendering : Option (List UInt8)} {bytes : List UInt8} :
    fitting size rendering = some bytes ↔ rendering = some bytes ∧ bytes.length < size := by
  simp [fitting, Option.filter_eq_some_iff]

theorem refused_snprintf (size : Nat) (rendering : Option (List UInt8)) :
    (snprintf size rendering).refused size = (fitting size rendering).isNone := by
  cases rendering with
  | none => simp [snprintf, Formatted.refused, fitting]
  | some bytes =>
    have nonnegative : ¬ (bytes.length : Int) < 0 := by omega
    by_cases short : bytes.length < size
    · simp [snprintf, Formatted.refused, fitting, Option.filter, short, nonnegative]
    · simp [snprintf, Formatted.refused, fitting, Option.filter, short, Nat.not_lt.mp short]

theorem length_snprintf {size : Nat} {rendering : Option (List UInt8)} {bytes : List UInt8}
    (fits : fitting size rendering = some bytes) :
    (snprintf size rendering).length.toNat = bytes.length := by
  obtain ⟨rfl, -⟩ := fitting_eq_some_iff.mp fits
  rfl

/-- A rendering that fits is read back whole from its local buffer. -/
theorem slice_snprintf {size : Nat} {rendering : Option (List UInt8)} {bytes : List UInt8}
    (fits : fitting size rendering = some bytes) :
    Region.slice (snprintf size rendering).bytes 0 bytes.length = .ok bytes := by
  obtain ⟨rfl, short⟩ := fitting_eq_some_iff.mp fits
  rw [snprintf, List.take_of_length_le (by omega)]
  exact Region.slice_head bytes [0]

end ControllerBridge
