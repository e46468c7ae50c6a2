/-
This file is a library about JSON texts as bytes: keys that are looked up.

A key in its quotation marks with its colon occurs in a text exactly where the
name of a member ends with it and the colon comes right behind the name. So its
first occurrence is at the first such member, at whatever depth
(`Places.firstAt`); and what is behind the colon there is a number, or goes on
with a byte no number has (`Derives.number_or_stops`).
-/

import ControllerBridge.Library.JsonPlaces

namespace Json

open Decimal

/-! ### Keys -/

/-- The name ends with the key, and the colon comes right behind it. -/
def Place.named (key : List UInt8) (place : Place) : Bool :=
  place.gap.isEmpty && key.dropLast.isSuffixOf place.name

theorem Place.named_iff {key : List UInt8} {place : Place} :
    place.named key = true ↔ place.gap = [] ∧ key.dropLast <:+ place.name := by
  rw [named, Bool.and_eq_true, List.isEmpty_iff, List.isSuffixOf_iff_suffix]

/-- The first of some places that a key names. -/
def lookup (key : List UInt8) (places : List Place) : Option Place :=
  places.find? (Place.named key)

/-- A key without its colon. -/
theorem Key.dropLast_eq {key : List UInt8} (isKey : Key key) :
    key = key.dropLast ++ [0x3A] ∧
      ∃ letters, (∀ byte ∈ letters, isWord byte = true) ∧
        key.dropLast = 0x22 :: (letters ++ [0x22]) := by
  obtain ⟨letters, -, words, rfl⟩ := isKey
  have colon : 0x22 :: (letters ++ [0x22, 0x3A]) = 0x22 :: (letters ++ [0x22]) ++ [0x3A] := by
    rw [List.cons_append, List.append_assoc]
    rfl
  rw [colon, List.dropLast_concat]
  exact ⟨rfl, letters, words, rfl⟩

/-- Up to the colon a key is read as a name. -/
theorem Key.run_dropLast {key : List UInt8} (isKey : Key key) {state : State}
    (awaits : state.AwaitsKey) : Json.run state key.dropLast = some ⟨.afterName, state.stack⟩ := by
  obtain ⟨-, letters, words, name⟩ := isKey.dropLast_eq
  obtain ⟨mode, stack⟩ := state
  obtain ⟨-, names⟩ := awaits
  have string : step ⟨mode, stack⟩ 0x22 = some ⟨.string true, stack⟩ := by
    simp only [List.mem_cons, List.not_mem_nil, or_false] at names
    rcases names with rfl | rfl | rfl <;> rfl
  rw [name, Json.run, string, Option.bind_some,
    run_append_of_run ((Chars.of_words words).run true stack)]
  rfl

/-- Where a key ends with a name, it is an end of this name. -/
theorem Key.suffix_name {key front before name : List UInt8} (isKey : Key key)
    (string : StringText name) (same : front ++ key.dropLast = before ++ name) :
    key.dropLast <:+ name := by
  have ends : key.dropLast <:+ before ++ name := ⟨front, same⟩
  rcases List.suffix_or_suffix_of_suffix ends (List.suffix_append before name) with
    inName | ⟨longer, split⟩
  · exact inName
  obtain ⟨-, letters, words, quoted⟩ := isKey.dropLast_eq
  obtain ⟨chars, -, rfl⟩ := string
  rw [quoted] at split ⊢
  cases longer with
  | nil => exact ⟨[], split.symm⟩
  | cons first longer =>
    -- the quotation mark that begins the name would be one of the letters
    rw [List.cons_append, List.cons.injEq, ← List.cons_append, ← List.append_assoc] at split
    have inLetters : (0x22 : UInt8) ∈ letters := by
      rw [← (List.append_inj' split.2 rfl).1]
      simp
    exact absurd (words _ inLetters) (by decide)

/-- Where a key occurs, it names a place. -/
theorem Places.exists_named {key text front rest : List UInt8} {places : List Place}
    (placed : Places .element text places) (isKey : Key key) (split : text = front ++ key ++ rest) :
    ∃ place ∈ places, place.named key = true ∧
      front ++ key.dropLast = place.before ++ place.name ∧
      rest = place.element ++ place.after := by
  obtain ⟨final, reads, -⟩ := placed.derives.reads .value List.mem_cons_self []
  rw [id, split, List.append_assoc] at reads
  obtain ⟨state, readsFront, reads⟩ := run_append_eq_some.mp reads
  obtain ⟨next, readsKey, -⟩ := run_append_eq_some.mp reads
  have start : Invariant ⟨.value, []⟩ [] := ws_nil
  have awaits := isKey.awaitsKey (start.run readsFront) readsKey
  have begins : front ++ key.dropLast <+: text := by
    refine ⟨0x3A :: rest, ?_⟩
    rw [split, List.append_assoc, ← List.singleton_append, ← List.append_assoc key.dropLast,
      ← isKey.dropLast_eq.1, List.append_assoc]
  obtain ⟨place, member, space, inGap, same⟩ := placed.names .value List.mem_cons_self [] _ _ begins
    ((run_append_of_run readsFront _).trans (isKey.run_dropLast awaits)) rfl
  have here := placed.spec.1 place member
  have noSpace : space = [] := by
    rcases List.eq_nil_or_concat space with empty | ⟨inner, last, rfl⟩
    · exact empty
    obtain ⟨-, letters, -, quoted⟩ := isKey.dropLast_eq
    rw [quoted, ← List.cons_append, List.concat_eq_append, ← List.append_assoc,
      ← List.append_assoc] at same
    have ends := List.singleton_inj.mp (List.append_inj' same rfl).2
    have ws := here.space last (inGap.subset (by simp))
    rw [← ends] at ws
    exact absurd ws (by decide)
  subst noSpace
  rw [List.append_nil] at same
  have behind : place.gap ++ 0x3A :: (place.element ++ place.after) = 0x3A :: rest := by
    have whole := here.split.symm.trans split
    rw [Place.text, List.append_assoc, ← same, isKey.dropLast_eq.1, List.append_assoc,
      List.append_assoc, List.dropLast_concat, List.append_assoc] at whole
    exact List.append_cancel_left (List.append_cancel_left whole)
  have noGap : place.gap = [] := by
    cases gap : place.gap with
    | nil => rfl
    | cons byte more =>
      rw [gap, List.cons_append, List.cons.injEq] at behind
      have ws := here.space byte (by rw [gap]; exact List.mem_cons_self)
      rw [behind.1] at ws
      exact absurd ws (by decide)
  refine ⟨place, member, Place.named_iff.mpr ⟨noGap, isKey.suffix_name here.string same⟩, same, ?_⟩
  rw [noGap, List.nil_append, List.cons.injEq] at behind
  exact behind.2.symm

/-- A key that names a place occurs there. -/
theorem Place.In.split_named {key text : List UInt8} {place : Place} (here : place.In text)
    (isKey : Key key) (named : place.named key = true) :
    ∃ front, text = front ++ key ++ (place.element ++ place.after) ∧
      front ++ key.dropLast = place.before ++ place.name := by
  obtain ⟨noGap, front, ends⟩ := Place.named_iff.mp named
  refine ⟨place.before ++ front, ?_, ?_⟩
  · rw [here.split, Place.text, noGap, ← ends, List.append_nil, isKey.dropLast_eq.1,
      List.dropLast_concat]
    simp only [List.append_assoc, List.singleton_append]
  · rw [← ends, List.append_assoc]

/-- The first occurrence of a key is at the first place it names, if it names one. -/
theorem Places.firstAt {key text : List UInt8} {places : List Place}
    (placed : Places .element text places) (isKey : Key key) :
    match lookup key places with
    | none => ¬ key <:+: text
    | some place => ∃ front, Search.FirstAt key text front (place.element ++ place.after) := by
  have nonempty : key ≠ [] := by
    obtain ⟨letters, -, -, rfl⟩ := isKey
    exact List.cons_ne_nil _ _
  cases found : lookup key places with
  | none =>
    rintro ⟨front, rest, occurs⟩
    obtain ⟨place, member, named, -, -⟩ := placed.exists_named isKey occurs.symm
    exact List.find?_eq_none.mp found place member named
  | some place =>
    obtain ⟨named, earlier, later, whole, unnamed⟩ := List.find?_eq_some_iff_append.mp found
    have member : place ∈ places := List.mem_of_find?_eq_some found
    obtain ⟨front, split, ends⟩ := (placed.spec.1 place member).split_named isKey named
    obtain ⟨first, rest, firstAt⟩ := Search.exists_firstAt nonempty ⟨front, _, split.symm⟩
    obtain ⟨other, inPlaces, otherNamed, otherEnds, rfl⟩ :=
      placed.exists_named isKey firstAt.split
    have notAfter : other.nameEnd ≤ place.nameEnd := by
      rw [Place.nameEnd, Place.nameEnd, ← ends, ← otherEnds, List.length_append,
        List.length_append]
      exact Nat.add_le_add_right (firstAt.length_le split) _
    have same : other = place := by
      rw [whole] at inPlaces
      rcases List.mem_append.mp inPlaces with before | here
      · have absent := unnamed other before
        rw [otherNamed] at absent
        cases absent
      rcases List.mem_cons.mp here with same | after
      · exact same
      have ordered := placed.spec.2
      rw [whole] at ordered
      have less := (List.pairwise_cons.mp (List.pairwise_append.mp ordered).2.1).1 other after
      exact absurd notAfter (Nat.not_le_of_lt less)
    subst same
    exact ⟨first, firstAt⟩

/-! ### Elements -/

/-- A space or a tab. -/
def isGap (byte : UInt8) : Bool := byte == 0x20 || byte == 0x09

/-- An element that is a number behind nothing but spaces and tabs. -/
def NumberElement (number element : List UInt8) : Prop :=
  ∃ blanks trailing, (∀ byte ∈ blanks, isGap byte = true) ∧ Number number ∧ Ws trailing ∧
    element = blanks ++ number ++ trailing

theorem Derives.begins {value : List UInt8} (derives : Derives .value value) :
    Number value ∨ ∃ byte rest, value = byte :: rest ∧ isNumberByte byte = false ∧
      isGap byte = false := by
  cases derives with
  | literal literal =>
    simp only [literals, List.mem_cons, List.not_mem_nil, or_false] at literal
    rcases literal with rfl | rfl | rfl <;> exact Or.inr ⟨_, _, rfl, by decide, by decide⟩
  | number number => exact Or.inl number
  | string string =>
    obtain ⟨chars, -, rfl⟩ := string
    exact Or.inr ⟨_, _, rfl, by decide, by decide⟩
  | emptyObject | object | emptyArray | array =>
    exact Or.inr ⟨_, _, rfl, by decide, by decide⟩

/-- Behind its spaces and tabs an element is a number, or goes on with a byte no number has. -/
theorem Derives.number_or_stops {element : List UInt8} (derives : Derives .element element) :
    (∃ number, NumberElement number element) ∨
      ∃ blanks byte rest, (∀ blank ∈ blanks, isGap blank = true) ∧ isNumberByte byte = false ∧
        isGap byte = false ∧ element = blanks ++ byte :: rest := by
  cases derives with
  | @element before value after spaceBefore inside spaceAfter =>
    have split : before.takeWhile isGap ++ before.dropWhile isGap = before :=
      List.takeWhile_append_dropWhile
    have blank : ∀ byte ∈ before.takeWhile isGap, isGap byte = true :=
      fun byte member => List.mem_takeWhile_imp member
    cases other : before.dropWhile isGap with
    | nil =>
      rw [other, List.append_nil] at split
      rw [split] at blank
      rcases inside.begins with number | ⟨byte, rest, rfl, noNumber, noGap⟩
      · exact Or.inl ⟨value, before, after, blank, number, spaceAfter, rfl⟩
      · refine Or.inr ⟨before, byte, rest ++ after, blank, noNumber, noGap, ?_⟩
        rw [List.append_assoc, List.cons_append]
    | cons byte rest =>
      have ws : isWs byte = true := by
        refine spaceBefore byte ?_
        rw [← split, other]
        exact List.mem_append_right _ List.mem_cons_self
      have noNumber : isNumberByte byte = false := by
        by_contra inNumber
        have delimiter := isDelimiter_of_isNumberByte ((Bool.not_eq_false _).mp inNumber)
        rw [isDelimiter, ws] at delimiter
        cases delimiter
      have noGap := Search.stops_dropWhile isGap before byte (by rw [other]; rfl)
      refine Or.inr ⟨_, byte, rest ++ value ++ after, blank, noNumber, noGap, ?_⟩
      have whole : before = before.takeWhile isGap ++ byte :: rest := by rw [← other, split]
      calc before ++ value ++ after
          = before.takeWhile isGap ++ byte :: rest ++ value ++ after := by rw [← whole]
        _ = before.takeWhile isGap ++ byte :: (rest ++ value ++ after) := by
          simp only [List.append_assoc, List.cons_append]

end Json
