/-
This file is a library about texts in UTF-8 as bytes.

The bytes below `0x80` stand for characters of their own and occur in no other
encoding. So a stretch of them may be exchanged for another one.
-/

import Mathlib.Data.List.Basic
import Mathlib.Tactic.Common

namespace Utf8

/-! ### Encodings -/

/-- The text is the encoding of some characters. -/
def Encoded (text : List UInt8) : Prop :=
  ∃ chars : List Char, text = chars.flatMap String.utf8EncodeChar

/-- Every byte stands for a character of its own. -/
def Ascii (text : List UInt8) : Prop := ∀ byte ∈ text, byte < 0x80

instance (text : List UInt8) : Decidable (Ascii text) := inferInstanceAs (Decidable (∀ _ ∈ _, _))

theorem encoded_nil : Encoded [] := ⟨[], rfl⟩

theorem Encoded.append {first second : List UInt8} (encodedFirst : Encoded first)
    (encodedSecond : Encoded second) : Encoded (first ++ second) := by
  obtain ⟨charsFirst, rfl⟩ := encodedFirst
  obtain ⟨charsSecond, rfl⟩ := encodedSecond
  exact ⟨charsFirst ++ charsSecond, List.flatMap_append.symm⟩

theorem Ascii.append {first second : List UInt8} (asciiFirst : Ascii first)
    (asciiSecond : Ascii second) : Ascii (first ++ second) :=
  List.forall_mem_append.mpr ⟨asciiFirst, asciiSecond⟩

theorem high_ofNat {value : Nat} (low : 0x80 ≤ value) (fits : value < 256) :
    0x80 ≤ UInt8.ofNat value := by
  rw [UInt8.le_iff_toNat_le, UInt8.toNat_ofNat', Nat.mod_eq_of_lt fits]
  exact low

/-- A character is one byte below `0x80`, or bytes from there on. -/
theorem utf8EncodeChar_cases (char : Char) :
    (∃ byte : UInt8, byte < 0x80 ∧ String.utf8EncodeChar char = [byte]) ∨
      ∀ byte ∈ String.utf8EncodeChar char, 0x80 ≤ byte := by
  rw [String.utf8EncodeChar]
  generalize char.val.toNat = value
  split
  · rename_i small
    refine Or.inl ⟨_, ?_, rfl⟩
    rw [UInt8.lt_iff_toNat_lt, UInt8.toNat_ofNat', Nat.mod_eq_of_lt (by omega)]
    exact Nat.lt_succ_of_le small
  · right
    split_ifs
    all_goals
      simp only [List.mem_cons, List.not_mem_nil, or_false, forall_eq_or_imp, forall_eq]
      repeat' apply And.intro
      all_goals exact high_ofNat (by omega) (by omega)

theorem encoded_singleton {byte : UInt8} (ascii : byte < 0x80) : Encoded [byte] := by
  refine ⟨[Char.ofUInt8 byte], ?_⟩
  have value : (Char.ofUInt8 byte).val.toNat = byte.toNat := rfl
  have small : byte.toNat ≤ 0x7F := Nat.le_of_lt_succ (UInt8.lt_iff_toNat_lt.mp ascii)
  rw [List.flatMap_singleton, String.utf8EncodeChar, value, if_pos small, UInt8.ofNat_toNat]

theorem Ascii.encoded {text : List UInt8} (ascii : Ascii text) : Encoded text := by
  induction text with
  | nil => exact encoded_nil
  | cons byte rest inductionHypothesis =>
    exact (encoded_singleton (ascii byte List.mem_cons_self)).append
      (inductionHypothesis fun other member => ascii other (List.mem_cons_of_mem _ member))

/-! ### Exchange -/

/-- A text may be cut at a byte that stands for a character of its own. -/
theorem Encoded.cut {before after : List UInt8} {byte : UInt8} (ascii : byte < 0x80)
    (encoded : Encoded (before ++ byte :: after)) : Encoded before ∧ Encoded after := by
  obtain ⟨chars, split⟩ := encoded
  induction chars generalizing before with
  | nil => simp at split
  | cons char chars inductionHypothesis =>
    rw [List.flatMap_cons] at split
    have here : Encoded (String.utf8EncodeChar char) := ⟨[char], (List.flatMap_singleton ..).symm⟩
    obtain ⟨more, whole, rest⟩ | ⟨more, inside, rest⟩ := List.append_eq_append_iff.mp split
    · cases more with
      | nil =>
        rw [List.append_nil] at whole
        rw [List.nil_append] at rest
        have atStart : [] ++ byte :: after = chars.flatMap String.utf8EncodeChar := rest
        exact ⟨whole ▸ here, (inductionHypothesis atStart).2⟩
      | cons first more =>
        obtain ⟨rfl, rfl⟩ := List.cons_eq_cons.mp rest
        have member : byte ∈ String.utf8EncodeChar char := by
          rw [whole]
          exact List.mem_append_right before List.mem_cons_self
        obtain ⟨only, -, single⟩ | high := utf8EncodeChar_cases char
        · -- the one byte of the character is the byte of the cut
          obtain ⟨rfl, rfl, rfl⟩ : before = [] ∧ byte = only ∧ more = [] := by
            rw [whole, List.append_eq_singleton_iff] at single
            simpa using single
          exact ⟨encoded_nil, chars, rfl⟩
        · exact absurd (high byte member) (UInt8.not_le.mpr ascii)
    · obtain ⟨encodedMore, encodedAfter⟩ := inductionHypothesis rest.symm
      exact ⟨inside ▸ here.append encodedMore, encodedAfter⟩

theorem Encoded.of_ascii_append {front rest : List UInt8} (ascii : Ascii front)
    (encoded : Encoded (front ++ rest)) : Encoded rest := by
  induction front with
  | nil => exact encoded
  | cons byte front inductionHypothesis =>
    have atStart : Encoded ([] ++ byte :: (front ++ rest)) := encoded
    exact inductionHypothesis (fun other member => ascii other (List.mem_cons_of_mem _ member))
      (atStart.cut (ascii byte List.mem_cons_self)).2

/-- A stretch of bytes that stand for characters may be exchanged for another one. -/
theorem Encoded.exchange (before after : List UInt8) {old new : List UInt8} (nonempty : old ≠ [])
    (asciiOld : Ascii old) (asciiNew : Ascii new) (encoded : Encoded (before ++ old ++ after)) :
    Encoded (before ++ new ++ after) := by
  obtain ⟨byte, rest, rfl⟩ := List.exists_cons_of_ne_nil nonempty
  rw [List.append_assoc, List.cons_append] at encoded
  obtain ⟨encodedBefore, encodedRest⟩ := encoded.cut (asciiOld byte List.mem_cons_self)
  have encodedAfter := encodedRest.of_ascii_append
    fun other member => asciiOld other (List.mem_cons_of_mem _ member)
  exact (encodedBefore.append asciiNew.encoded).append encodedAfter

end Utf8
