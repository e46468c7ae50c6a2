/-
This file is a library about JSON texts as bytes: the grammar.

`Derives` is the grammar of values, elements, members and their lists; an
element is a value with the whitespace around it. A string may hold any byte
from the space on but the quotation mark and the backslash, and escapes: the
encoding of the characters beyond ASCII is not looked at. `ObjectText` is a text
that is one object, and `MembersText` one with at least one member.
-/

import Mathlib.Tactic.Common
import ControllerBridge.Library.Decimal
import ControllerBridge.Library.Search

namespace Json

open Decimal

/-! ### Bytes -/

def isWs (byte : UInt8) : Bool := byte == 0x20 || byte == 0x09 || byte == 0x0A || byte == 0x0D

def isHex (byte : UInt8) : Bool :=
  isDigit byte || (0x41 ≤ byte && byte ≤ 0x46) || (0x61 ≤ byte && byte ≤ 0x66)

/-- The bytes that may follow a backslash alone. -/
def isEscape (byte : UInt8) : Bool :=
  byte == 0x22 || byte == 0x5C || byte == 0x2F || byte == 0x62 || byte == 0x66 ||
    byte == 0x6E || byte == 0x72 || byte == 0x74

/-- The bytes that stand for themselves in a string. -/
def isPlain (byte : UInt8) : Bool := 0x20 ≤ byte && byte != 0x22 && byte != 0x5C

def isMark (byte : UInt8) : Bool := byte == 0x65 || byte == 0x45

/-- Whitespace. -/
def Ws (text : List UInt8) : Prop := ∀ byte ∈ text, isWs byte = true

theorem ws_nil : Ws [] := nofun

theorem Ws.append {first second : List UInt8} (wsFirst : Ws first) (wsSecond : Ws second) :
    Ws (first ++ second) :=
  List.forall_mem_append.mpr ⟨wsFirst, wsSecond⟩

theorem ws_singleton {byte : UInt8} (ws : isWs byte = true) : Ws [byte] :=
  fun _ member => List.mem_singleton.mp member ▸ ws

/-! ### Strings and numbers -/

/-- The text between the quotation marks of a string. -/
inductive Chars : List UInt8 → Prop where
  | nil : Chars []
  | plain {byte : UInt8} {rest : List UInt8} (plain : isPlain byte = true) (chars : Chars rest) :
      Chars (byte :: rest)
  | escape {byte : UInt8} {rest : List UInt8} (escape : isEscape byte = true)
      (chars : Chars rest) : Chars (0x5C :: byte :: rest)
  | unicode {digits rest : List UInt8} (four : digits.length = 4)
      (hex : ∀ digit ∈ digits, isHex digit = true) (chars : Chars rest) :
      Chars (0x5C :: 0x75 :: (digits ++ rest))

theorem Chars.append {first second : List UInt8} (charsFirst : Chars first)
    (charsSecond : Chars second) : Chars (first ++ second) := by
  induction charsFirst with
  | nil => exact charsSecond
  | plain plain _ inductionHypothesis => exact .plain plain inductionHypothesis
  | escape escape _ inductionHypothesis => exact .escape escape inductionHypothesis
  | unicode four hex _ inductionHypothesis =>
    rw [List.cons_append, List.cons_append, List.append_assoc]
    exact .unicode four hex inductionHypothesis

/-- A string with its quotation marks. -/
def StringText (text : List UInt8) : Prop := ∃ chars, Chars chars ∧ text = 0x22 :: (chars ++ [0x22])

/-- At least one digit, and nothing else. -/
def Digits (text : List UInt8) : Prop := text ≠ [] ∧ ∀ byte ∈ text, isDigit byte = true

/-- A whole number: without a zero in front of another digit. -/
def Whole (text : List UInt8) : Prop :=
  text = [0x30] ∨ ∃ first rest, isDigit first = true ∧ first ≠ 0x30 ∧
    (∀ byte ∈ rest, isDigit byte = true) ∧ text = first :: rest

def Fraction (text : List UInt8) : Prop :=
  text = [] ∨ ∃ digits, Digits digits ∧ text = 0x2E :: digits

def Exponent (text : List UInt8) : Prop :=
  text = [] ∨ ∃ mark sign digits, isMark mark = true ∧
    (sign = [] ∨ sign = [0x2B] ∨ sign = [0x2D]) ∧ Digits digits ∧ text = mark :: (sign ++ digits)

/-- A numeral without an exponent. -/
def Numeral (text : List UInt8) : Prop :=
  ∃ minus whole fraction, (minus = [] ∨ minus = [0x2D]) ∧ Whole whole ∧ Fraction fraction ∧
    text = minus ++ whole ++ fraction

def Number (text : List UInt8) : Prop :=
  ∃ numeral exponent, Numeral numeral ∧ Exponent exponent ∧ text = numeral ++ exponent

theorem Numeral.number {text : List UInt8} (numeral : Numeral text) : Number text :=
  ⟨text, [], numeral, Or.inl rfl, (List.append_nil _).symm⟩

/-! ### Renderings -/

/-- The digits of a positive number do not begin with a zero. -/
theorem digits_eq_cons {value : Nat} (positive : 0 < value) :
    ∃ first rest, digits value = first :: rest ∧ first ≠ 0x30 := by
  induction value using Nat.strong_induction_on with
  | _ value inductionHypothesis =>
  by_cases single : value < 10
  · have small : ∀ digit < 10, 0 < digit → digit.digitChar.toNat.toUInt8 ≠ 0x30 := by decide
    exact ⟨_, [], by rw [digits, Nat.toDigits_of_lt_base single]; rfl, small value single positive⟩
  · have more : 10 ≤ value := Nat.le_of_not_lt single
    obtain ⟨first, rest, front, nonzero⟩ := inductionHypothesis (value / 10)
      (Nat.div_lt_self positive (by decide)) (Nat.div_pos more (by decide))
    refine ⟨first, rest ++ [(value % 10).digitChar.toNat.toUInt8], ?_, nonzero⟩
    rw [digits, Nat.toDigits_of_base_le (by decide) more, List.map_append, ← digits, front]
    rfl

theorem whole_digits (value : Nat) : Whole (digits value) := by
  obtain rfl | positive := Nat.eq_zero_or_pos value
  · exact Or.inl rfl
  · obtain ⟨first, rest, split, nonzero⟩ := digits_eq_cons positive
    have inside : ∀ byte ∈ first :: rest, isDigit byte = true :=
      fun byte member => isDigit_of_mem_digits (split ▸ member)
    exact Or.inr ⟨first, rest, inside first List.mem_cons_self, nonzero,
      fun byte member => inside byte (List.mem_cons_of_mem _ member), split⟩

/-- A rendering with a fixed number of places is a numeral. -/
theorem numeral_fixed {places : Nat} (positive : 0 < places) (value : ℚ) :
    Numeral (fixed places value) := by
  have scale : 0 < 10 ^ places := Nat.pow_pos (by decide)
  have padded : Digits (fraction places (units places value % 10 ^ places)) := by
    refine ⟨List.ne_nil_of_length_pos ?_, fun byte member => ?_⟩
    · rwa [fraction_length positive (Nat.mod_lt _ scale)]
    · rcases List.mem_append.mp member with padding | digit
      · rw [List.eq_of_mem_replicate padding]
        decide
      · exact isDigit_of_mem_digits digit
  refine ⟨sign value, _, _, ?_, whole_digits _, Or.inr ⟨_, padded, rfl⟩, rfl⟩
  rw [sign]
  split
  · exact Or.inr rfl
  · exact Or.inl rfl

/-! ### Values -/

/-- What the grammar derives. -/
inductive Kind where
  | value
  | element
  | member
  | members
  | elements
  deriving DecidableEq

/-- `true`, `false` and `null`. -/
def literals : List (List UInt8) :=
  [[0x74, 0x72, 0x75, 0x65], [0x66, 0x61, 0x6C, 0x73, 0x65], [0x6E, 0x75, 0x6C, 0x6C]]

inductive Derives : Kind → List UInt8 → Prop where
  | literal {text : List UInt8} (literal : text ∈ literals) : Derives .value text
  | number {text : List UInt8} (number : Number text) : Derives .value text
  | string {text : List UInt8} (string : StringText text) : Derives .value text
  | emptyObject {ws : List UInt8} (space : Ws ws) : Derives .value (0x7B :: (ws ++ [0x7D]))
  | object {members : List UInt8} (inside : Derives .members members) :
      Derives .value (0x7B :: (members ++ [0x7D]))
  | emptyArray {ws : List UInt8} (space : Ws ws) : Derives .value (0x5B :: (ws ++ [0x5D]))
  | array {elements : List UInt8} (inside : Derives .elements elements) :
      Derives .value (0x5B :: (elements ++ [0x5D]))
  | element {before value after : List UInt8} (spaceBefore : Ws before)
      (inside : Derives .value value) (spaceAfter : Ws after) :
      Derives .element (before ++ value ++ after)
  | member {before name after element : List UInt8} (spaceBefore : Ws before)
      (string : StringText name) (spaceAfter : Ws after) (inside : Derives .element element) :
      Derives .member (before ++ name ++ after ++ 0x3A :: element)
  | oneMember {member : List UInt8} (inside : Derives .member member) : Derives .members member
  | moreMembers {members member : List UInt8} (before : Derives .members members)
      (inside : Derives .member member) : Derives .members (members ++ 0x2C :: member)
  | oneElement {element : List UInt8} (inside : Derives .element element) :
      Derives .elements element
  | moreElements {elements element : List UInt8} (before : Derives .elements elements)
      (inside : Derives .element element) : Derives .elements (elements ++ 0x2C :: element)

/-- Whitespace may follow an element, a member and a list of these. -/
theorem Derives.append_ws {kind : Kind} {text ws : List UInt8} (derives : Derives kind text)
    (padded : kind ≠ .value) (space : Ws ws) : Derives kind (text ++ ws) := by
  induction derives with
  | literal | number | string | emptyObject | object | emptyArray | array =>
    exact absurd rfl padded
  | element spaceBefore inside spaceAfter =>
    rw [List.append_assoc]
    exact .element spaceBefore inside (spaceAfter.append space)
  | member spaceBefore string spaceAfter _ inductionHypothesis =>
    rw [List.append_assoc, List.cons_append]
    exact .member spaceBefore string spaceAfter (inductionHypothesis (by decide))
  | oneMember _ inductionHypothesis => exact .oneMember (inductionHypothesis (by decide))
  | moreMembers before _ _ inductionHypothesis =>
    rw [List.append_assoc, List.cons_append]
    exact .moreMembers before (inductionHypothesis (by decide))
  | oneElement _ inductionHypothesis => exact .oneElement (inductionHypothesis (by decide))
  | moreElements before _ _ inductionHypothesis =>
    rw [List.append_assoc, List.cons_append]
    exact .moreElements before (inductionHypothesis (by decide))

/-! ### Object texts -/

/-- A text that is one object, with whitespace around it. -/
def ObjectText (text : List UInt8) : Prop :=
  ∃ before inner after, Ws before ∧ (Ws inner ∨ Derives .members inner) ∧ Ws after ∧
    text = before ++ 0x7B :: (inner ++ 0x7D :: after)

/-- A text that is one object with at least one member. -/
def MembersText (text : List UInt8) : Prop :=
  ∃ before members after, Ws before ∧ Derives .members members ∧ Ws after ∧
    text = before ++ 0x7B :: (members ++ 0x7D :: after)

theorem MembersText.objectText {text : List UInt8} (object : MembersText text) :
    ObjectText text := by
  obtain ⟨before, members, after, spaceBefore, derives, spaceAfter, split⟩ := object
  exact ⟨before, members, after, spaceBefore, Or.inr derives, spaceAfter, split⟩

/-- The last closing brace of an object text closes the object. -/
theorem closes_last {before members after front rest : List UInt8} (spaceAfter : Ws after)
    (fresh : (0x7D : UInt8) ∉ rest)
    (same : before ++ 0x7B :: (members ++ 0x7D :: after) = front ++ 0x7D :: rest) :
    front = before ++ 0x7B :: members ∧ rest = after := by
  have last : Search.LastAt 0x7D (front ++ 0x7D :: rest) front rest := ⟨rfl, fresh⟩
  have closing : Search.LastAt 0x7D (front ++ 0x7D :: rest) (before ++ 0x7B :: members) after := by
    refine ⟨?_, fun member => absurd (spaceAfter _ member) (by decide)⟩
    rw [← same]
    simp only [List.append_assoc, List.cons_append]
  exact last.unique closing

/-- A member inserted before the last closing brace, after a comma. -/
theorem MembersText.insert {front rest : List UInt8}
    (object : MembersText (front ++ 0x7D :: rest)) (fresh : (0x7D : UInt8) ∉ rest)
    {member : List UInt8} (derives : Derives .member member) :
    MembersText (front ++ 0x2C :: member ++ 0x7D :: rest) := by
  obtain ⟨before, members, after, spaceBefore, inside, spaceAfter, same⟩ := object
  obtain ⟨rfl, rfl⟩ := closes_last spaceAfter fresh same.symm
  refine ⟨before, members ++ 0x2C :: member, rest, spaceBefore, .moreMembers inside derives,
    spaceAfter, ?_⟩
  simp only [List.append_assoc, List.cons_append]

end Json
