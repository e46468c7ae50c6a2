/-
This file is a library about texts in which the letters that a program has
written are marked, and about the words that these letters are in.

A word is a longest stretch of letters of one kind. `WordsAllowed` says that
every word with a letter that was written is allowed, whether all its letters
were written or some stood there before. Two texts may be joined where no word
runs across the joint, so a stretch may be replaced by an allowed text where a
word ends on both sides of it. A written letter that is in no word stays where
only words are replaced.
-/

import Mathlib.Data.List.Basic

namespace Marked

variable {Letter : Type}

/-- A text with a mark on every letter that was written. -/
abbrev Text (Letter : Type) := List (Letter × Bool)

def letters (text : Text Letter) : List Letter := text.map Prod.fst

/-- A text of which nothing was written. -/
def kept (text : List Letter) : Text Letter := text.map fun letter => (letter, false)

/-- A text that was written. -/
def written (text : List Letter) : Text Letter := text.map fun letter => (letter, true)

@[simp] theorem letters_kept (text : List Letter) : letters (kept text) = text := by
  rw [letters, kept, List.map_map]
  exact List.map_id text

@[simp] theorem letters_written (text : List Letter) : letters (written text) = text := by
  rw [letters, written, List.map_map]
  exact List.map_id text

@[simp] theorem letters_append (first second : Text Letter) :
    letters (first ++ second) = letters first ++ letters second := List.map_append

@[simp] theorem length_letters (text : Text Letter) : (letters text).length = text.length :=
  List.length_map _

theorem mem_written {letter : Letter} {text : List Letter} (member : letter ∈ text) :
    (letter, true) ∈ written text := List.mem_map_of_mem member

/-- The marked pieces of a text that is cut in three. -/
theorem exists_pieces {text : Text Letter} {front old back : List Letter}
    (split : letters text = front ++ old ++ back) :
    ∃ front' old' back', text = front' ++ old' ++ back' ∧ letters front' = front ∧
      letters old' = old ∧ letters back' = back := by
  obtain ⟨rest, back', rfl, splitRest, rfl⟩ := List.map_eq_append_iff.mp split
  obtain ⟨front', old', rfl, rfl, rfl⟩ := List.map_eq_append_iff.mp splitRest
  exact ⟨front', old', back', rfl, rfl, rfl, rfl⟩

/-! ### Replacing a stretch -/

/-- The text with `skip` letters from the place `start` on replaced. -/
def splice (start skip : Nat) (new text : Text Letter) : Text Letter :=
  text.take start ++ new ++ text.drop (start + skip)

theorem splice_append {start skip : Nat} {front old : Text Letter} (new back : Text Letter)
    (isFront : front.length = start) (isOld : old.length = skip) :
    splice start skip new (front ++ old ++ back) = front ++ new ++ back := by
  subst isFront isOld
  rw [splice, ← List.length_append, List.drop_left, List.append_assoc front old,
    List.take_left]

theorem letters_splice {text : Text Letter} {front old back : List Letter}
    (split : letters text = front ++ old ++ back) (new : Text Letter) :
    letters (splice front.length old.length new text) = front ++ letters new ++ back := by
  obtain ⟨front', old', back', rfl, rfl, rfl, rfl⟩ := exists_pieces split
  rw [splice_append new back' (length_letters _).symm (length_letters _).symm, letters_append,
    letters_append]

/-- A text of at most `size` letters. -/
def within (size : Nat) (text : Text Letter) : Option (Text Letter) :=
  if text.length ≤ size then some text else none

theorem within_eq_some_iff {size : Nat} {text result : Text Letter} :
    within size text = some result ↔ result = text ∧ text.length ≤ size := by
  rw [within]
  split
  · rename_i fits
    rw [Option.some_inj]
    exact ⟨fun same => ⟨same.symm, fits⟩, fun same => same.1.symm⟩
  · rename_i fitsNot
    exact ⟨fun impossible => (nomatch impossible), fun same => absurd same.2 fitsNot⟩

/-! ### Words -/

section

variable (inside : Letter → Bool)

/-- No word runs on beyond the end of the text. -/
def Ends (text : Text Letter) : Prop := ∀ last ∈ text.getLast?, inside last.1 = false

/-- No word begins before the text and runs into it. -/
def Begins (text : Text Letter) : Prop := ∀ head ∈ text.head?, inside head.1 = false

/-- Every written letter is in a word, and every word with a written letter is allowed. -/
structure WordsAllowed (allowed : List Letter → Prop) (text : Text Letter) : Prop where
  inWords : ∀ letter, (letter, true) ∈ text → inside letter = true
  words : ∀ front word back, text = front ++ word ++ back →
    (∀ letter ∈ word, inside letter.1 = true) → Ends inside front → Begins inside back →
    (∃ letter, (letter, true) ∈ word) → allowed (letters word)

end

section

variable {inside : Letter → Bool} {allowed : List Letter → Prop}

theorem ends_append {first second : Text Letter} (nonempty : second ≠ []) :
    Ends inside (first ++ second) ↔ Ends inside second := by
  rw [Ends, Ends, List.getLast?_append_of_ne_nil _ nonempty]

theorem begins_append {first second : Text Letter} (nonempty : first ≠ []) :
    Begins inside (first ++ second) ↔ Begins inside first := by
  rw [Begins, Begins, List.head?_append_of_ne_nil _ nonempty]

theorem ends_iff {text : Text Letter} :
    Ends inside text ↔ ∀ last ∈ (letters text).getLast?, inside last = false := by
  rw [Ends, letters, List.getLast?_map]
  cases text.getLast? <;> simp

theorem begins_iff {text : Text Letter} :
    Begins inside text ↔ ∀ head ∈ (letters text).head?, inside head = false := by
  rw [Begins, letters, List.head?_map]
  cases text.head? <;> simp

theorem ends_nil : Ends inside ([] : Text Letter) := fun _ impossible =>
  absurd impossible (Option.not_mem_none _)

theorem begins_nil : Begins inside ([] : Text Letter) := fun _ impossible =>
  absurd impossible (Option.not_mem_none _)

/-- A word at the end of a text does not end before it. -/
theorem not_ends {word : Text Letter} (nonempty : word ≠ [])
    (all : ∀ letter ∈ word, inside letter.1 = true) (front : Text Letter) :
    ¬ Ends inside (front ++ word) := by
  rw [ends_append nonempty]
  intro ends
  have outside := ends (word.getLast nonempty) (List.getLast?_eq_some_getLast nonempty)
  rw [all _ (List.getLast_mem nonempty)] at outside
  cases outside

/-- A word at the beginning of a text does not begin after it. -/
theorem not_begins {word : Text Letter} (nonempty : word ≠ [])
    (all : ∀ letter ∈ word, inside letter.1 = true) (back : Text Letter) :
    ¬ Begins inside (word ++ back) := by
  rw [begins_append nonempty]
  intro begins
  have outside := begins (word.head nonempty) (List.head?_eq_some_head nonempty)
  rw [all _ (List.head_mem nonempty)] at outside
  cases outside

theorem WordsAllowed.mono {allowed' : List Letter → Prop} {text : Text Letter}
    (isAllowed : WordsAllowed inside allowed text)
    (weaker : ∀ word, allowed word → allowed' word) : WordsAllowed inside allowed' text :=
  ⟨isAllowed.inWords, fun front word back split all ends begins hasWritten =>
    weaker _ (isAllowed.words front word back split all ends begins hasWritten)⟩

/-- Nothing is asked of a text of which nothing was written. -/
theorem wordsAllowed_kept (text : List Letter) : WordsAllowed inside allowed (kept text) := by
  have unwritten : ∀ letter, (letter, true) ∉ kept text := by simp [kept]
  refine ⟨fun letter member => absurd member (unwritten letter), ?_⟩
  rintro front word back split - - - ⟨letter, member⟩
  refine absurd ?_ (unwritten letter)
  rw [split]
  exact List.mem_append_left _ (List.mem_append_right _ member)

/-- An allowed word that was written. -/
theorem wordsAllowed_written {word : List Letter} (all : ∀ letter ∈ word, inside letter = true)
    (isAllowed : allowed word) : WordsAllowed inside allowed (written word) := by
  have inWord : ∀ letter ∈ written word, inside letter.1 = true := by
    intro letter member
    obtain ⟨plain, among, rfl⟩ := List.mem_map.mp member
    exact all plain among
  refine ⟨fun letter member => inWord _ member, ?_⟩
  intro front middle back split _ ends begins _
  rw [split] at inWord
  simp only [List.forall_mem_append] at inWord
  obtain ⟨⟨inFront, -⟩, inBack⟩ := inWord
  -- the text is one word, so nothing stands before or after it
  obtain rfl : front = [] := by
    by_contra nonempty
    exact not_ends nonempty inFront [] ends
  obtain rfl : back = [] := by
    by_contra nonempty
    refine not_begins nonempty inBack [] ?_
    rwa [List.append_nil]
  rw [List.nil_append, List.append_nil] at split
  rwa [← split, letters_written]

/-- Texts are joined where no word runs across the joint. -/
theorem WordsAllowed.append {first second : Text Letter}
    (isFirst : WordsAllowed inside allowed first) (isSecond : WordsAllowed inside allowed second)
    (apart : Ends inside first ∨ Begins inside second) :
    WordsAllowed inside allowed (first ++ second) := by
  refine ⟨fun letter member => ?_, ?_⟩
  · rcases List.mem_append.mp member with before | after
    · exact isFirst.inWords letter before
    · exact isSecond.inWords letter after
  intro front word back split all ends begins hasWritten
  rw [List.append_assoc] at split
  rcases List.append_eq_append_iff.mp split with ⟨more, rfl, rest⟩ | ⟨more, rfl, rest⟩
  · -- the word is in the second text
    refine isSecond.words more word back (by rw [rest, List.append_assoc]) all ?_ begins hasWritten
    by_cases empty : more = []
    · subst empty
      exact ends_nil
    · exact (ends_append empty).mp ends
  rcases List.append_eq_append_iff.mp rest with ⟨tail, whole, last⟩ | ⟨tail, whole, last⟩
  · -- the word is in the first text
    subst whole
    refine isFirst.words front word tail (List.append_assoc _ _ _).symm all ends ?_ hasWritten
    by_cases empty : tail = []
    · subst empty
      exact begins_nil
    · rw [last] at begins
      exact (begins_append empty).mp begins
  · -- the word would run across the joint
    subst whole last
    obtain ⟨inMore, inTail⟩ := List.forall_mem_append.mp all
    by_cases emptyMore : more = []
    · subst emptyMore
      exact isSecond.words [] tail back rfl inTail ends_nil begins hasWritten
    by_cases emptyTail : tail = []
    · subst emptyTail
      rw [List.append_nil] at hasWritten ⊢
      exact isFirst.words front more [] (List.append_nil _).symm inMore ends begins_nil hasWritten
    rcases apart with endsFirst | beginsSecond
    · exact absurd endsFirst (not_ends emptyMore inMore front)
    · exact absurd beginsSecond (not_begins emptyTail inTail back)

/-- Texts that are joined so are allowed if the whole is. -/
theorem WordsAllowed.of_append {first second : Text Letter}
    (isAllowed : WordsAllowed inside allowed (first ++ second))
    (apart : Ends inside first ∨ Begins inside second) :
    WordsAllowed inside allowed first ∧ WordsAllowed inside allowed second := by
  refine ⟨⟨fun letter member => isAllowed.inWords letter (List.mem_append_left _ member), ?_⟩,
    fun letter member => isAllowed.inWords letter (List.mem_append_right _ member), ?_⟩
  · rintro front word back rfl all ends begins ⟨letter, member⟩
    refine isAllowed.words front word (back ++ second) (List.append_assoc _ _ _) all ends ?_
      ⟨letter, member⟩
    by_cases empty : back = []
    · subst empty
      rw [List.append_nil] at apart
      exact apart.resolve_left (not_ends (List.ne_nil_of_mem member) all front)
    · exact (begins_append empty).mpr begins
  · rintro front word back rfl all ends begins ⟨letter, member⟩
    refine isAllowed.words (first ++ front) word back (by simp only [List.append_assoc]) all ?_
      begins ⟨letter, member⟩
    by_cases empty : front = []
    · subst empty
      rw [List.append_nil]
      exact apart.resolve_right (not_begins (List.ne_nil_of_mem member) all back)
    · exact (ends_append empty).mpr ends

/-- A stretch is replaced by an allowed text where a word ends before and after it. -/
theorem WordsAllowed.replace {front old new back : Text Letter}
    (isAllowed : WordsAllowed inside allowed (front ++ old ++ back))
    (isNew : WordsAllowed inside allowed new)
    (opens : Ends inside front ∨ Begins inside (old ++ back) ∧ Begins inside (new ++ back))
    (closes : Begins inside back) : WordsAllowed inside allowed (front ++ new ++ back) := by
  rw [List.append_assoc] at isAllowed ⊢
  obtain ⟨isFront, rest⟩ := isAllowed.of_append (opens.imp id And.left)
  have isBack := (rest.of_append (Or.inr closes)).2
  exact isFront.append (isNew.append isBack (Or.inr closes)) (opens.imp id And.right)

/-- Written letters that are in no word stay where words are replaced. -/
theorem mem_replace {front old back : Text Letter} {letter : Letter}
    (member : (letter, true) ∈ front ++ old ++ back) (outside : inside letter = false)
    (all : ∀ other ∈ letters old, inside other = true) (new : Text Letter) :
    (letter, true) ∈ front ++ new ++ back := by
  simp only [List.mem_append] at member ⊢
  rcases member with (before | replaced) | after
  · exact Or.inl (Or.inl before)
  · have inWord := all letter (List.mem_map_of_mem replaced)
    rw [outside] at inWord
    cases inWord
  · exact Or.inr after

end

end Marked
