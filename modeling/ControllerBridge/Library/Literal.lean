/-
This file is a library about number literals: a literal taken apart, the number
it denotes, and the longest literal at the start of a text.

A literal has a sign, digits before and after a point, and a power of ten, each
of which may be missing as long as a digit is left. The literals of JSON are
those without a plus, with a digit on each side of a point, and without a zero
in front of another digit. A reader that takes the longest literal at the start
of a text is not misled by what follows a literal, as long as no literal goes on
with it (`Literal.longest_append`); `Decimal.parse` is such a reader.
-/

import ControllerBridge.Library.JsonReading

namespace Decimal

open Json Search

/-! ### Literals -/

inductive Sign where
  | none
  | plus
  | minus
  deriving DecidableEq

def Sign.text : Sign → List UInt8
  | none => []
  | plus => [0x2B]
  | minus => [0x2D]

def Sign.apply {Number : Type} [Neg Number] : Sign → Number → Number
  | minus, value => -value
  | _, value => value

/-- A power of ten: its mark, the sign and the digits of the exponent. -/
structure Power where
  mark : UInt8
  sign : Sign
  digits : List UInt8
  isMark : Json.isMark mark = true
  isDigits : Digits digits

def Power.text (power : Power) : List UInt8 := power.mark :: (power.sign.text ++ power.digits)

def Power.exponent (power : Power) : Int := power.sign.apply (valueOf power.digits : Int)

/-- A number literal taken apart; `places` are the digits after the point, if there is one. -/
structure Literal where
  sign : Sign
  whole : List UInt8
  places : Option (List UInt8)
  power : Option Power
  wholeDigits : ∀ byte ∈ whole, isDigit byte = true
  placesDigits : ∀ byte ∈ places.getD [], isDigit byte = true
  nonempty : whole ++ places.getD [] ≠ []

/-- The point with the digits after it, if there is one. -/
def pointText : Option (List UInt8) → List UInt8
  | none => []
  | some digits => 0x2E :: digits

def powerText : Option Power → List UInt8
  | none => []
  | some power => power.text

namespace Literal

def text (literal : Literal) : List UInt8 :=
  literal.sign.text ++ (literal.whole ++ (pointText literal.places ++ powerText literal.power))

/-- The exponent; zero, if there is no power. -/
def exponent (literal : Literal) : Int :=
  match literal.power with
  | none => 0
  | some power => power.exponent

/-- The number a literal denotes. -/
def value (literal : Literal) : ℚ :=
  literal.sign.apply (valueOf (literal.whole ++ literal.places.getD []) *
    (10 : ℚ) ^ (literal.exponent - (literal.places.getD []).length))

/-- The literals of JSON. -/
structure IsJson (literal : Literal) : Prop where
  sign : literal.sign ≠ .plus
  whole : Whole literal.whole
  places : literal.places ≠ some []

end Literal

/-! ### The literals of JSON -/

theorem digits_of_whole {text : List UInt8} (whole : Whole text) : Digits text := by
  rcases whole with rfl | ⟨first, rest, digit, -, digits, rfl⟩
  · exact ⟨List.cons_ne_nil _ _, fun byte member => by
      rw [List.mem_singleton.mp member]
      decide⟩
  · exact ⟨List.cons_ne_nil _ _, List.forall_mem_cons.mpr ⟨digit, digits⟩⟩

theorem fraction_iff {text : List UInt8} :
    Fraction text ↔ ∃ places, (∀ byte ∈ Option.getD places [], isDigit byte = true) ∧
      places ≠ some [] ∧ pointText places = text := by
  constructor
  · rintro (rfl | ⟨digits, ⟨nonempty, digit⟩, rfl⟩)
    · exact ⟨none, nofun, nofun, rfl⟩
    · exact ⟨some digits, digit, fun same => nonempty (Option.some_inj.mp same), rfl⟩
  · rintro ⟨places, digit, nonempty, rfl⟩
    cases places with
    | none => exact Or.inl rfl
    | some digits =>
      exact Or.inr ⟨digits, ⟨fun empty => nonempty (congrArg some empty), digit⟩, rfl⟩

theorem exponent_iff {text : List UInt8} : Exponent text ↔ ∃ power, powerText power = text := by
  constructor
  · rintro (rfl | ⟨mark, _, digits, isMark, rfl | rfl | rfl, isDigits, rfl⟩)
    · exact ⟨none, rfl⟩
    · exact ⟨some ⟨mark, .none, digits, isMark, isDigits⟩, rfl⟩
    · exact ⟨some ⟨mark, .plus, digits, isMark, isDigits⟩, rfl⟩
    · exact ⟨some ⟨mark, .minus, digits, isMark, isDigits⟩, rfl⟩
  · rintro ⟨power, rfl⟩
    cases power with
    | none => exact Or.inl rfl
    | some power =>
      refine Or.inr ⟨power.mark, power.sign.text, power.digits, power.isMark, ?_,
        power.isDigits, rfl⟩
      cases power.sign with
      | none => exact Or.inl rfl
      | plus => exact Or.inr (Or.inl rfl)
      | minus => exact Or.inr (Or.inr rfl)

/-- The numbers of JSON are the texts of its literals. -/
theorem number_iff {text : List UInt8} :
    Number text ↔ ∃ literal : Literal, literal.IsJson ∧ literal.text = text := by
  constructor
  · rintro ⟨_, exponent, ⟨minus, whole, fraction, signed, isWhole, isFraction, rfl⟩, isExponent,
      rfl⟩
    obtain ⟨places, digit, nonempty, rfl⟩ := fraction_iff.mp isFraction
    obtain ⟨power, rfl⟩ := exponent_iff.mp isExponent
    obtain ⟨filled, wholeDigit⟩ := digits_of_whole isWhole
    have literal (sign : Sign) (proper : sign ≠ .plus) :
        ∃ literal : Literal, literal.IsJson ∧
          literal.text = sign.text ++ whole ++ pointText places ++ powerText power := by
      refine ⟨⟨sign, whole, places, power, wholeDigit, digit,
        List.append_ne_nil_of_left_ne_nil filled _⟩, ⟨proper, isWhole, nonempty⟩, ?_⟩
      simp only [Literal.text, List.append_assoc]
    rcases signed with rfl | rfl
    · exact literal .none (by decide)
    · exact literal .minus (by decide)
  · rintro ⟨literal, json, rfl⟩
    refine ⟨literal.sign.text ++ literal.whole ++ pointText literal.places,
      powerText literal.power, ⟨literal.sign.text, literal.whole, pointText literal.places, ?_,
        json.whole, fraction_iff.mpr ⟨literal.places, literal.placesDigits, json.places, rfl⟩,
        rfl⟩, exponent_iff.mpr ⟨literal.power, rfl⟩, ?_⟩
    · cases same : literal.sign with
      | none => exact Or.inl rfl
      | plus => exact absurd same json.sign
      | minus => exact Or.inr rfl
    · simp only [Literal.text, List.append_assoc]

theorem ne_nil_of_number {text : List UInt8} (number : Number text) : text ≠ [] := by
  obtain ⟨literal, json, rfl⟩ := number_iff.mp number
  have filled := (digits_of_whole json.whole).1
  exact List.append_ne_nil_of_right_ne_nil _ (List.append_ne_nil_of_left_ne_nil filled _)

/-! ### The longest literal -/

/-- A literal at the start of a text, and no longer one is. -/
structure LongestLiteral (text : List UInt8) (literal : Literal) : Prop where
  begins : literal.text <+: text
  longest : ∀ other : Literal, other.text <+: text → other.text.length ≤ literal.text.length

/-- A text that starts with a literal starts with a longest one. -/
theorem exists_longestLiteral {text : List UInt8} {literal : Literal}
    (begins : literal.text <+: text) : ∃ longest, LongestLiteral text longest := by
  classical
  let Reaches (length : Nat) : Prop := ∃ other : Literal, other.text <+: text ∧
    other.text.length = length
  have here : Reaches literal.text.length := ⟨literal, begins, rfl⟩
  obtain ⟨longest, prefixed, length⟩ := Nat.findGreatest_spec begins.length_le here
  refine ⟨longest, prefixed, fun other begins' => ?_⟩
  rw [length]
  exact Nat.le_findGreatest begins'.length_le ⟨other, begins', rfl⟩

/-- A text goes on with a byte: some literal begins with both. -/
def Continues (text : List UInt8) (byte : UInt8) : Prop :=
  ∃ longer : Literal, text ++ [byte] <+: longer.text

/-- What follows a literal does not matter, unless the literal goes on with it. -/
theorem Literal.longest_append {literal : Literal} {rest : List UInt8}
    (ends : ∀ byte ∈ rest.head?, ¬ Continues literal.text byte) :
    LongestLiteral (literal.text ++ rest) literal := by
  refine ⟨List.prefix_append _ _, fun other begins => ?_⟩
  by_contra longer
  cases rest with
  | nil =>
    rw [List.append_nil] at begins
    exact longer begins.length_le
  | cons byte rest =>
    refine ends byte rfl ⟨other, ?_⟩
    have front : literal.text ++ [byte] <+: literal.text ++ byte :: rest :=
      (List.prefix_append_right_inj _).mpr ⟨rest, rfl⟩
    refine List.prefix_of_prefix_length_le front begins ?_
    rw [List.length_append, List.length_singleton]
    omega

/-- Also when only the first bytes are looked at, what follows a literal does not matter. -/
theorem LongestLiteral.take_append {literal kept : Literal} {count : Nat} {rest : List UInt8}
    (longest : LongestLiteral (literal.text.take count) kept)
    (ends : ∀ byte ∈ rest.head?, ¬ Continues literal.text byte) :
    LongestLiteral ((literal.text ++ rest).take count) kept := by
  by_cases cut : count ≤ literal.text.length
  · rwa [List.take_append_of_le_length cut]
  · have whole : literal.text.take count = literal.text :=
      List.take_of_length_le (Nat.le_of_not_le cut)
    rw [whole] at longest
    have same : kept.text = literal.text :=
      longest.begins.eq_of_length (le_antisymm longest.begins.length_le
        (longest.longest literal (List.prefix_refl _)))
    have ends' : ∀ byte ∈ (rest.take (count - literal.text.length)).head?,
        ¬ Continues kept.text byte := by
      rw [List.head?_take, if_neg (by omega), same]
      exact ends
    rw [List.take_append, whole, ← same]
    rw [← same] at ends'
    exact Literal.longest_append ends'

/-- A literal of JSON begins with a literal of at most two bytes. -/
theorem Literal.IsJson.exists_short {literal : Literal} (json : literal.IsJson) :
    ∃ short : Literal, short.text <+: literal.text ∧ short.text.length ≤ 2 := by
  obtain ⟨nonempty, digit⟩ := digits_of_whole json.whole
  obtain ⟨first, rest, whole⟩ := List.exists_cons_of_ne_nil nonempty
  have single : ∀ byte ∈ [first], isDigit byte = true := fun byte member =>
    digit byte (by rw [whole, List.mem_singleton.mp member]; exact List.mem_cons_self)
  refine ⟨⟨literal.sign, [first], none, none, single, nofun, List.cons_ne_nil _ _⟩, ?_, ?_⟩
  · rw [Literal.text, Literal.text, whole, List.prefix_append_right_inj]
    exact ⟨rest ++ (pointText literal.places ++ powerText literal.power), rfl⟩
  · have signed : literal.sign.text.length ≤ 1 := by cases literal.sign <;> decide
    rw [Literal.text, List.length_append]
    exact Nat.add_le_add_right signed 1

theorem Literal.isNumberByte (literal : Literal) :
    ∀ byte ∈ literal.text, Json.isNumberByte byte = true := by
  have ofDigits {digits : List UInt8} (inside : ∀ byte ∈ digits, isDigit byte = true) :
      ∀ byte ∈ digits, Json.isNumberByte byte = true := by
    intro byte member
    rw [Json.isNumberByte, inside byte member]
    rfl
  have ofSign (sign : Sign) : ∀ byte ∈ sign.text, Json.isNumberByte byte = true := by
    cases sign <;> decide +kernel
  unfold Literal.text
  simp only [List.forall_mem_append]
  refine ⟨ofSign _, ofDigits literal.wholeDigits, ?_, ?_⟩
  · have inside := literal.placesDigits
    cases places : literal.places with
    | none => exact List.forall_mem_nil _
    | some digits =>
      rw [places, Option.getD_some] at inside
      exact List.forall_mem_cons.mpr ⟨by decide, ofDigits inside⟩
  · cases literal.power with
    | none => exact List.forall_mem_nil _
    | some power =>
      refine List.forall_mem_cons.mpr ⟨?_, List.forall_mem_append.mpr
        ⟨ofSign _, ofDigits power.isDigits.2⟩⟩
      rw [Json.isNumberByte, power.isMark, Bool.or_true]
      rfl

/-- No literal goes on with a byte that no number has. -/
theorem Continues.isNumberByte {text : List UInt8} {byte : UInt8}
    (continues : Continues text byte) :
    Json.isNumberByte byte = true := by
  obtain ⟨longer, begins⟩ := continues
  exact longer.isNumberByte byte (begins.subset (List.mem_append_right _ List.mem_cons_self))

/-! ### Longer literals -/

/-- A literal goes on with every digit. -/
theorem exists_append_digit (literal : Literal) {byte : UInt8} (digit : isDigit byte = true) :
    ∃ longer : Literal, longer.text = literal.text ++ [byte] := by
  have grown {digits : List UInt8} (inside : ∀ byte ∈ digits, isDigit byte = true) :
      ∀ other ∈ digits ++ [byte], isDigit other = true :=
    List.forall_mem_append.mpr ⟨inside, fun other member => List.mem_singleton.mp member ▸ digit⟩
  obtain ⟨sign, whole, places, power, wholeDigits, placesDigits, nonempty⟩ := literal
  cases power with
  | none =>
    cases places with
    | none =>
      refine ⟨⟨sign, whole ++ [byte], none, none, grown wholeDigits, nofun, ?_⟩, ?_⟩
      · exact List.append_ne_nil_of_left_ne_nil
          (List.append_ne_nil_of_right_ne_nil _ (List.cons_ne_nil _ _)) _
      · simp only [Literal.text, pointText, powerText, List.append_assoc, List.append_nil]
    | some digits =>
      refine ⟨⟨sign, whole, some (digits ++ [byte]), none, wholeDigits, grown placesDigits, ?_⟩, ?_⟩
      · exact List.append_ne_nil_of_right_ne_nil _
          (List.append_ne_nil_of_right_ne_nil _ (List.cons_ne_nil _ _))
      · simp only [Literal.text, pointText, powerText, List.append_assoc, List.append_nil,
          List.cons_append]
  | some power =>
    refine ⟨⟨sign, whole, places, some ⟨power.mark, power.sign, power.digits ++ [byte],
      power.isMark, List.append_ne_nil_of_left_ne_nil power.isDigits.1 _, grown power.isDigits.2⟩,
      wholeDigits, placesDigits, nonempty⟩, ?_⟩
    simp only [Literal.text, powerText, Power.text, List.append_assoc, List.cons_append]

/-- A literal without a point and a power goes on with a point. -/
theorem exists_append_point {literal : Literal} (noPlaces : literal.places = none)
    (noPower : literal.power = none) :
    ∃ longer : Literal, longer.text = literal.text ++ [0x2E] := by
  have nonempty := literal.nonempty
  rw [noPlaces] at nonempty
  refine ⟨⟨literal.sign, literal.whole, some [], none, literal.wholeDigits, nofun, nonempty⟩, ?_⟩
  simp only [Literal.text, noPlaces, noPower, pointText, powerText, List.append_assoc,
    List.append_nil]

/-- A literal without a power goes on with every power. -/
theorem exists_append_power {literal : Literal} (noPower : literal.power = none) (power : Power) :
    ∃ longer : Literal, longer.text = literal.text ++ power.text := by
  refine ⟨⟨literal.sign, literal.whole, literal.places, some power, literal.wholeDigits,
    literal.placesDigits, literal.nonempty⟩, ?_⟩
  simp only [Literal.text, noPower, powerText, List.append_assoc, List.append_nil]

section

variable {literal : Literal} {rest : List UInt8}

/-- Nothing at the start of what follows a longest literal makes a longer one. -/
theorem LongestLiteral.not_longer (longest : LongestLiteral (literal.text ++ rest) literal)
    {extra : List UInt8} (nonempty : extra ≠ []) (begins : extra <+: rest) :
    ¬ ∃ longer : Literal, longer.text = literal.text ++ extra := by
  rintro ⟨longer, whole⟩
  have bound := longest.longest longer (by
    rw [whole]
    exact (List.prefix_append_right_inj _).mpr begins)
  have positive := List.length_pos_of_ne_nil nonempty
  rw [whole, List.length_append] at bound
  omega

theorem LongestLiteral.not_digit (longest : LongestLiteral (literal.text ++ rest) literal) :
    ∀ byte ∈ rest.head?, isDigit byte = false := by
  intro byte head
  obtain ⟨tail, rfl⟩ := List.head?_eq_some_iff.mp head
  by_contra digit
  rw [Bool.not_eq_false] at digit
  exact longest.not_longer (List.cons_ne_nil _ _) ⟨tail, rfl⟩ (exists_append_digit literal digit)

end

/-! ### Reading a literal -/

theorem not_sign_of_isDigit {byte : UInt8} (digit : isDigit byte = true) :
    byte ≠ 0x2D ∧ byte ≠ 0x2B := by
  obtain ⟨-, -, -, -, -, noMinus, noPlus, -⟩ := ne_of_isDigit digit
  exact ⟨noMinus, noPlus⟩

/-- A sign is taken off, unless another one follows. -/
theorem takeSign_append (sign : Sign) {rest : List UInt8}
    (unsigned : ∀ byte ∈ rest.head?, byte ≠ 0x2D ∧ byte ≠ 0x2B) :
    takeSign (sign.text ++ rest) = (decide (sign = .minus), rest) := by
  cases sign with
  | none =>
    cases rest with
    | nil => rfl
    | cons byte rest =>
      obtain ⟨noMinus, noPlus⟩ := unsigned byte rfl
      unfold takeSign
      simp only [Sign.text, List.nil_append, if_neg noMinus, if_neg noPlus]
      rfl
  | plus => rfl
  | minus => rfl

/-- What is taken off a text is a sign. -/
theorem exists_takeSign (text : List UInt8) :
    ∃ sign : Sign, text = sign.text ++ (takeSign text).2 := by
  cases text with
  | nil => exact ⟨.none, rfl⟩
  | cons byte rest =>
    rw [takeSign]
    by_cases minus : byte = 0x2D
    · exact ⟨.minus, by rw [if_pos minus, minus]; rfl⟩
    by_cases plus : byte = 0x2B
    · exact ⟨.plus, by rw [if_neg minus, if_pos plus, plus]; rfl⟩
    · exact ⟨.none, by rw [if_neg minus, if_neg plus]; rfl⟩

theorem isMark_iff {byte : UInt8} : Json.isMark byte = true ↔ byte = 0x65 ∨ byte = 0x45 := by
  rw [Json.isMark, Bool.or_eq_true, beq_iff_eq, beq_iff_eq]

/-- The exponent of a text that starts with a power. -/
theorem exponent_power (power : Power) {rest : List UInt8}
    (stops : ∀ byte ∈ rest.head?, isDigit byte = false) :
    exponent (power.text ++ rest) = power.exponent := by
  obtain ⟨first, digits, whole⟩ := List.exists_cons_of_ne_nil power.isDigits.1
  have unsigned : ∀ byte ∈ (power.digits ++ rest).head?, byte ≠ 0x2D ∧ byte ≠ 0x2B := by
    rw [whole]
    rintro _ ⟨⟩
    exact not_sign_of_isDigit (power.isDigits.2 first (whole ▸ List.mem_cons_self))
  have signed := takeSign_append power.sign unsigned
  rw [Power.text, List.cons_append, List.append_assoc, exponent,
    if_pos (isMark_iff.mp power.isMark), signed]
  dsimp only
  rw [takeWhile_append_of_stops power.isDigits.2 stops, Power.exponent]
  cases power.sign <;> rfl

/-- A text that starts with no power has no exponent: the mark, or the digits, are missing. -/
theorem exponent_eq_zero {rest : List UInt8} (absent : ∀ power : Power, ¬ power.text <+: rest) :
    exponent rest = 0 := by
  cases rest with
  | nil => rfl
  | cons byte tail =>
    rw [exponent]
    by_cases mark : byte = 0x65 ∨ byte = 0x45
    · obtain ⟨sign, split⟩ := exists_takeSign tail
      have empty : (takeSign tail).2.takeWhile isDigit = [] := by
        by_contra nonempty
        refine absent ⟨byte, sign, _, isMark_iff.mpr mark, nonempty,
          fun _ member => List.mem_takeWhile_imp member⟩ ?_
        rw [Power.text, List.cons_prefix_cons]
        refine ⟨rfl, ?_⟩
        conv_rhs => rw [split]
        exact (List.prefix_append_right_inj _).mpr (List.takeWhile_prefix _)
      rw [if_pos mark]
      dsimp only
      rw [empty]
      split <;> rfl
    · rw [if_neg mark]

section

variable {literal : Literal} {rest : List UInt8}

/-- Behind the digits of a longest literal the exponent is the literal's. -/
theorem LongestLiteral.exponent_eq (longest : LongestLiteral (literal.text ++ rest) literal) :
    Decimal.exponent (powerText literal.power ++ rest) = literal.exponent := by
  unfold Literal.exponent
  cases same : literal.power with
  | none =>
    refine exponent_eq_zero fun power begins => ?_
    exact longest.not_longer (List.cons_ne_nil _ _) begins (exists_append_power same power)
  | some power => exact exponent_power power longest.not_digit

/-- Behind the places of a longest literal, or behind its whole digits when there is no point,
stands no digit. -/
theorem LongestLiteral.power_stops (longest : LongestLiteral (literal.text ++ rest) literal) :
    ∀ byte ∈ (powerText literal.power ++ rest).head?, isDigit byte = false := by
  cases literal.power with
  | none => exact longest.not_digit
  | some power =>
    rintro _ ⟨⟩
    exact (isMark_ne power.isMark).2

/-- Without a point, none stands behind the whole digits. -/
theorem LongestLiteral.no_point (longest : LongestLiteral (literal.text ++ rest) literal)
    (noPlaces : literal.places = none) :
    (powerText literal.power ++ rest).head? ≠ some 0x2E := by
  cases same : literal.power with
  | none =>
    intro head
    obtain ⟨tail, rfl⟩ := List.head?_eq_some_iff.mp head
    exact longest.not_longer (List.cons_ne_nil _ _) ⟨tail, rfl⟩
      (exists_append_point noPlaces same)
  | some power =>
    intro head
    exact (isMark_ne power.isMark).1 (Option.some_inj.mp head)

/-- A literal begins, after its sign, with a digit or the point. -/
theorem Literal.unsigned (literal : Literal) (rest : List UInt8) :
    ∀ byte ∈ (literal.whole ++ (pointText literal.places ++ rest)).head?,
      byte ≠ 0x2D ∧ byte ≠ 0x2B := by
  cases whole : literal.whole with
  | nil =>
    cases places : literal.places with
    | none =>
      have nonempty := literal.nonempty
      rw [whole, places] at nonempty
      exact absurd rfl nonempty
    | some digits =>
      rintro _ ⟨⟩
      exact ⟨by decide, by decide⟩
  | cons byte digits =>
    rintro _ ⟨⟩
    exact not_sign_of_isDigit (literal.wholeDigits byte (whole ▸ List.mem_cons_self))

/-- `parse` reads the longest literal at the start of a text. -/
theorem LongestLiteral.parse_append (longest : LongestLiteral (literal.text ++ rest) literal) :
    parse (literal.text ++ rest) = literal.value := by
  have split : literal.text ++ rest = literal.sign.text ++ (literal.whole ++
      (pointText literal.places ++ (powerText literal.power ++ rest))) := by
    simp only [Literal.text, List.append_assoc]
  have wholeStops : ∀ byte ∈ (pointText literal.places ++
      (powerText literal.power ++ rest)).head?, isDigit byte = false := by
    cases literal.places with
    | none => exact longest.power_stops
    | some digits =>
      rintro _ ⟨⟩
      decide
  have signed (magnitude : ℚ) : (if decide (literal.sign = .minus) = true then -magnitude
      else magnitude) = literal.sign.apply magnitude := by
    cases literal.sign <;> rfl
  have nonempty := literal.nonempty
  rw [split, parse, takeSign_append _ (literal.unsigned _)]
  dsimp only
  rw [takeWhile_append_of_stops literal.wholeDigits wholeStops,
    dropWhile_append_of_stops literal.wholeDigits wholeStops, signed, Literal.value]
  cases places : literal.places with
  | none =>
    rw [places, Option.getD_none] at nonempty
    have noPoint : ((powerText literal.power ++ rest).head? == some 0x2E) = false :=
      beq_false_of_ne (longest.no_point places)
    simp only [pointText, List.nil_append, Option.getD_none]
    simp only [noPoint, Bool.false_eq_true, if_false, longest.exponent_eq]
    rw [if_neg nonempty]
  | some digits =>
    have inside := literal.placesDigits
    rw [places, Option.getD_some] at nonempty inside
    have placesRead := takeWhile_append_of_stops inside longest.power_stops
    have placesLeft := dropWhile_append_of_stops inside longest.power_stops
    simp only [pointText, List.cons_append, List.drop_one, List.tail_cons, Option.getD_some]
    simp only [List.head?_cons, beq_self_eq_true, if_true, placesRead, placesLeft,
      longest.exponent_eq]
    rw [if_neg nonempty]

end

theorem LongestLiteral.parse_eq {text : List UInt8} {literal : Literal}
    (longest : LongestLiteral text literal) : parse text = literal.value := by
  obtain ⟨rest, rfl⟩ := longest.begins
  exact longest.parse_append

end Decimal
