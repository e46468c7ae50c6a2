/-
This file is a library about rounding to the nearest integer, halves to the even
one.

`RoundsTo` says which integer a number is rounded to, without a word on how it is
computed. The distance decides, and at one half the parity; so a number is
rounded to one integer only, an integer to itself, and a larger number to no
smaller integer.
-/

import Mathlib.Algebra.Order.Floor.Ring
import Mathlib.Algebra.Ring.Int.Parity
import Mathlib.Tactic.Linarith

namespace Rounding

variable {Number : Type} [Field Number] [LinearOrder Number] [IsStrictOrderedRing Number]

/-- `rounded` is an integer nearest to `value`, and the even one where another is as near. -/
structure RoundsTo (value : Number) (rounded : ℤ) : Prop where
  nearest : ∀ other : ℤ, |value - rounded| ≤ |value - other|
  even : ∀ other : ℤ, other ≠ rounded → |value - other| = |value - rounded| → Even rounded

/-! ### Distances -/

/-- Two different integers are at least one apart. -/
theorem one_le_abs_add (value : Number) {first second : ℤ} (different : first ≠ second) :
    1 ≤ |value - first| + |value - second| := by
  have apart : (1 : Number) ≤ |(first : Number) - second| := by
    exact_mod_cast Int.one_le_abs (sub_ne_zero.mpr different)
  calc (1 : Number) ≤ |(first : Number) - second| := apart
    _ = |(value - second) - (value - first)| := by rw [sub_sub_sub_cancel_left]
    _ ≤ |value - second| + |value - first| := abs_sub _ _
    _ = |value - first| + |value - second| := add_comm _ _

theorem roundsTo_of_abs_lt {value : Number} {rounded : ℤ}
    (near : |value - rounded| < 1 / 2) : RoundsTo value rounded := by
  have farther (other : ℤ) (different : other ≠ rounded) :
      |value - rounded| < |value - other| := by
    have apart := one_le_abs_add value different
    linarith
  refine ⟨fun other => ?_, fun other different same => ?_⟩
  · by_cases different : other = rounded
    · rw [different]
    · exact (farther other different).le
  · exact absurd same (farther other different).ne'

theorem roundsTo_of_half {value : Number} {rounded : ℤ}
    (half : |value - rounded| = 1 / 2) (even : Even rounded) : RoundsTo value rounded := by
  refine ⟨fun other => ?_, fun _ _ _ => even⟩
  by_cases different : other = rounded
  · rw [different]
  · have apart := one_le_abs_add value different
    linarith

/-- A number between two neighbours lies at one half from either, or nearer to one of them. -/
theorem abs_sub_floor [FloorRing Number] (value : Number) :
    |value - ⌊value⌋| = Int.fract value ∧
      |value - (⌊value⌋ + 1 : ℤ)| = 1 - Int.fract value := by
  have below := Int.fract_nonneg value
  have above := (Int.fract_lt_one value).le
  have split := Int.self_sub_floor value
  constructor
  · rw [split, abs_of_nonneg below]
  · rw [Int.cast_add, Int.cast_one, ← sub_sub, split, abs_sub_comm, abs_of_nonneg (by linarith)]

namespace RoundsTo

/-- Rounding moves a number by at most one half. -/
theorem abs_sub_le_half {value : Number} {rounded : ℤ} (rounds : RoundsTo value rounded) :
    |value - rounded| ≤ 1 / 2 := by
  have above := rounds.nearest (rounded + 1)
  have below := rounds.nearest (rounded - 1)
  push_cast at above below
  by_contra far
  rcases lt_abs.mp (not_le.mp far) with right | left
  · have shorter : |value - (rounded + 1)| < |value - rounded| := by
      rw [abs_of_pos (by linarith : 0 < value - rounded), abs_lt]
      constructor <;> linarith
    exact absurd above (not_le.mpr shorter)
  · have shorter : |value - (rounded - 1)| < |value - rounded| := by
      rw [abs_of_neg (by linarith : value - rounded < 0), abs_lt]
      constructor <;> linarith
    exact absurd below (not_le.mpr shorter)

/-- A number is rounded to one integer only. -/
theorem unique {value : Number} {first second : ℤ} (rounds : RoundsTo value first)
    (rounds' : RoundsTo value second) : first = second := by
  by_contra different
  have same : |value - first| = |value - second| :=
    le_antisymm (rounds.nearest second) (rounds'.nearest first)
  have evenFirst := rounds.even second (Ne.symm different) same.symm
  have evenSecond := rounds'.even first different same
  have close : |(first : Number) - second| ≤ 1 := by
    calc |(first : Number) - second| = |(value - second) - (value - first)| := by
          rw [sub_sub_sub_cancel_left]
      _ ≤ |value - second| + |value - first| := abs_sub _ _
      _ ≤ 1 := by linarith [rounds.abs_sub_le_half, rounds'.abs_sub_le_half]
  have near : |first - second| ≤ 1 := by exact_mod_cast close
  obtain ⟨half, rfl⟩ := evenFirst
  obtain ⟨half', rfl⟩ := evenSecond
  rw [Int.abs_le_one_iff] at near
  omega

theorem intCast (value : ℤ) : RoundsTo (value : Number) value :=
  roundsTo_of_abs_lt (by rw [sub_self, abs_zero]; exact one_half_pos)

/-- Rounding keeps the order. -/
theorem monotone {value larger : Number} {first second : ℤ} (rounds : RoundsTo value first)
    (rounds' : RoundsTo larger second) (le : value ≤ larger) : first ≤ second := by
  by_contra descends
  have gap : (second : Number) + 1 ≤ first := by exact_mod_cast not_le.mp descends
  have low := (abs_le.mp rounds.abs_sub_le_half).1
  have high := (abs_le.mp rounds'.abs_sub_le_half).2
  have same : value = larger := by linarith
  exact descends (rounds.unique (same ▸ rounds')).le

/-- A number up to an integer is rounded to at most this integer. -/
theorem le_of_le {value : Number} {rounded bound : ℤ} (rounds : RoundsTo value rounded)
    (le : value ≤ bound) : rounded ≤ bound :=
  rounds.monotone (intCast bound) le

theorem ge_of_ge {value : Number} {rounded bound : ℤ} (rounds : RoundsTo value rounded)
    (ge : (bound : Number) ≤ value) : bound ≤ rounded :=
  (intCast bound).monotone rounds ge

end RoundsTo

end Rounding
