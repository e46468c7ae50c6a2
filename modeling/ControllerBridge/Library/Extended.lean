/-
This file is a library about numbers with infinities and a value that is not a
number, and about their renderings.

The operations are exact on finite numbers and otherwise those of floating-point
arithmetic, with one zero. So sums, differences, products and quotients by
numbers other than zero stay finite, and an infinity comes in only from outside:
`ofRational` makes one of a number beyond a limit. With a fixed number of places
exactly the finite numbers are rendered as numbers of JSON.
-/

import ControllerBridge.Library.JsonMembers

/-- A number, an infinity or no number. -/
inductive Extended (Number : Type) where
  | finite (value : Number)
  | infinite (negative : Bool)
  | nan
  deriving DecidableEq

namespace Extended

variable {Number : Type}

/-- A function on finite numbers, with no number for the rest. -/
def map (function : Number → Number) : Extended Number → Extended Number
  | finite value => finite (function value)
  | _ => nan

def map₂ (function : Number → Number → Number) :
    Extended Number → Extended Number → Extended Number
  | finite first, finite second => finite (function first second)
  | _, _ => nan

/-! ### Arithmetic -/

instance [Neg Number] : Neg (Extended Number) where
  neg
    | finite value => finite (-value)
    | infinite negative => infinite !negative
    | nan => nan

instance [Add Number] : Add (Extended Number) where
  add
    | finite first, finite second => finite (first + second)
    | finite _, infinite negative => infinite negative
    | infinite negative, finite _ => infinite negative
    | infinite first, infinite second => if first = second then infinite first else nan
    | _, _ => nan

instance [Sub Number] : Sub (Extended Number) where
  sub
    | finite first, finite second => finite (first - second)
    | finite _, infinite negative => infinite !negative
    | infinite negative, finite _ => infinite negative
    | infinite first, infinite second => if first = second then nan else infinite first
    | _, _ => nan

instance [Mul Number] [Zero Number] [DecidableEq Number] [LT Number] [DecidableLT Number] :
    Mul (Extended Number) where
  mul
    | finite first, finite second => finite (first * second)
    | finite value, infinite negative =>
      if value = 0 then nan else infinite (decide (value < 0) ^^ negative)
    | infinite negative, finite value =>
      if value = 0 then nan else infinite (negative ^^ decide (value < 0))
    | infinite first, infinite second => infinite (first ^^ second)
    | _, _ => nan

instance [Div Number] [Zero Number] [DecidableEq Number] [LT Number] [DecidableLT Number] :
    Div (Extended Number) where
  div
    | finite first, finite second =>
      if second = 0 then if first = 0 then nan else infinite (decide (first < 0))
      else finite (first / second)
    | finite _, infinite _ => finite 0
    | infinite negative, finite value => infinite (negative ^^ decide (value < 0))
    | _, _ => nan

instance [OfScientific Number] : OfScientific (Extended Number) where
  ofScientific mantissa negative exponent :=
    finite (OfScientific.ofScientific mantissa negative exponent)

instance [NatCast Number] : NatCast (Extended Number) where
  natCast value := finite value

instance [IntCast Number] : IntCast (Extended Number) where
  intCast value := finite value

/-! ### Order -/

def less [LT Number] : Extended Number → Extended Number → Prop
  | finite first, finite second => first < second
  | finite _, infinite negative => negative = false
  | infinite negative, finite _ => negative = true
  | infinite first, infinite second => first = true ∧ second = false
  | _, _ => False

def atMost [LE Number] : Extended Number → Extended Number → Prop
  | finite first, finite second => first ≤ second
  | finite _, infinite negative => negative = false
  | infinite negative, finite _ => negative = true
  | infinite first, infinite second => first = true ∨ second = false
  | _, _ => False

instance [LT Number] : LT (Extended Number) where
  lt := less

instance [LE Number] : LE (Extended Number) where
  le := atMost

instance [LT Number] [DecidableLT Number] : DecidableLT (Extended Number)
  | finite first, finite second => inferInstanceAs (Decidable (first < second))
  | finite _, infinite negative => inferInstanceAs (Decidable (negative = false))
  | infinite negative, finite _ => inferInstanceAs (Decidable (negative = true))
  | infinite first, infinite second => inferInstanceAs (Decidable (first = true ∧ second = false))
  | nan, _ => isFalse id
  | finite _, nan => isFalse id
  | infinite _, nan => isFalse id

instance [LE Number] [DecidableLE Number] : DecidableLE (Extended Number)
  | finite first, finite second => inferInstanceAs (Decidable (first ≤ second))
  | finite _, infinite negative => inferInstanceAs (Decidable (negative = false))
  | infinite negative, finite _ => inferInstanceAs (Decidable (negative = true))
  | infinite first, infinite second => inferInstanceAs (Decidable (first = true ∨ second = false))
  | nan, _ => isFalse id
  | finite _, nan => isFalse id
  | infinite _, nan => isFalse id

/-! ### Finite numbers -/

def IsFinite (number : Extended Number) : Prop := ∃ value, number = finite value

theorem isFinite_finite (value : Number) : (finite value).IsFinite := ⟨value, rfl⟩

theorem not_isFinite_infinite (negative : Bool) :
    ¬ (infinite negative : Extended Number).IsFinite := by
  rintro ⟨_, same⟩
  cases same

theorem isFinite_intCast [IntCast Number] (value : Int) : (value : Extended Number).IsFinite :=
  ⟨value, rfl⟩

theorem IsFinite.add [Add Number] {first second : Extended Number} (finiteFirst : first.IsFinite)
    (finiteSecond : second.IsFinite) : (first + second).IsFinite := by
  obtain ⟨a, rfl⟩ := finiteFirst
  obtain ⟨b, rfl⟩ := finiteSecond
  exact ⟨a + b, rfl⟩

theorem IsFinite.sub [Sub Number] {first second : Extended Number} (finiteFirst : first.IsFinite)
    (finiteSecond : second.IsFinite) : (first - second).IsFinite := by
  obtain ⟨a, rfl⟩ := finiteFirst
  obtain ⟨b, rfl⟩ := finiteSecond
  exact ⟨a - b, rfl⟩

section

variable [Zero Number] [DecidableEq Number] [LT Number] [DecidableLT Number]

theorem IsFinite.mul [Mul Number] {first second : Extended Number} (finiteFirst : first.IsFinite)
    (finiteSecond : second.IsFinite) : (first * second).IsFinite := by
  obtain ⟨a, rfl⟩ := finiteFirst
  obtain ⟨b, rfl⟩ := finiteSecond
  exact ⟨a * b, rfl⟩

theorem IsFinite.div [Div Number] {number : Extended Number} (isFinite : number.IsFinite)
    {value : Number} (nonzero : value ≠ 0) : (number / finite value).IsFinite := by
  obtain ⟨a, rfl⟩ := isFinite
  exact ⟨a / value, if_neg nonzero⟩

end

/-- A finite number less a number that is not finite is not finite, and the other way around. -/
theorem isFinite_sub_iff [Sub Number] {first second : Extended Number} (isFinite : first.IsFinite) :
    (first - second).IsFinite ↔ second.IsFinite := by
  refine ⟨fun difference => ?_, isFinite.sub⟩
  obtain ⟨a, rfl⟩ := isFinite
  obtain ⟨value, same⟩ := difference
  cases second with
  | finite b => exact ⟨b, rfl⟩
  | infinite negative => cases same
  | nan => cases same

/-! ### Reading and rendering -/

/-- A number of magnitude below the limit, or the infinity of its sign. -/
def ofRational (limit value : ℚ) : Extended ℚ :=
  if |value| < limit then finite value else infinite (decide (value < 0))

theorem isFinite_ofRational_iff {limit value : ℚ} :
    (ofRational limit value).IsFinite ↔ |value| < limit := by
  rw [ofRational]
  split
  · rename_i below
    exact iff_of_true (isFinite_finite value) below
  · rename_i beyond
    exact iff_of_false (not_isFinite_infinite _) beyond

/-- The rendering with a fixed number of places. -/
def fixed (places : Nat) : Extended ℚ → List UInt8
  | finite value => Decimal.fixed places value
  | infinite false => [0x69, 0x6E, 0x66]
  | infinite true => [0x2D, 0x69, 0x6E, 0x66]
  | nan => [0x6E, 0x61, 0x6E]

/-- The rendering of the others has the letter n. -/
theorem mem_fixed_of_not_isFinite (places : Nat) {number : Extended ℚ}
    (infinite : ¬ number.IsFinite) : (0x6E : UInt8) ∈ fixed places number := by
  cases number with
  | finite value => exact absurd (isFinite_finite value) infinite
  | infinite negative => cases negative <;> simp [fixed]
  | nan => exact List.mem_cons_self

/-- Only finite numbers are rendered as numbers of JSON. -/
theorem number_fixed_iff {places : Nat} (positive : 0 < places) {number : Extended ℚ} :
    Json.Number (fixed places number) ↔ number.IsFinite := by
  constructor
  · intro isNumber
    by_contra infinite
    exact absurd (isNumber.isNumberByte _ (mem_fixed_of_not_isFinite places infinite)) (by decide)
  · rintro ⟨value, rfl⟩
    exact (Json.numeral_fixed positive value).number

end Extended
