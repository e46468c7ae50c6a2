/-
This file is a library about JSON texts as bytes: the members of an object.

`ObjectOf members text` says that a text is one object with these members, each
given by the texts of its name and its value, in order. Every object text has
one list of members (`objectText_iff`, `ObjectOf.unique`). Fields inserted
before the last closing brace come after the members there are; where there are
none, the comma in front of the first field leaves no object text at all.
-/

import ControllerBridge.Library.Literal

namespace Json

open Decimal

/-! ### Members -/

/-- The name of a member, in its quotation marks, and its value. -/
abbrev Member := List UInt8 × List UInt8

/-- A member with the whitespace around its name and its value. -/
def MemberOf (member : Member) (text : List UInt8) : Prop :=
  ∃ before after between trailing, Ws before ∧ StringText member.1 ∧ Ws after ∧ Ws between ∧
    Derives .value member.2 ∧ Ws trailing ∧
    text = before ++ member.1 ++ after ++ 0x3A :: (between ++ member.2 ++ trailing)

inductive MembersOf : List Member → List UInt8 → Prop where
  | one {member : Member} {text : List UInt8} (inside : MemberOf member text) :
      MembersOf [member] text
  | more {members : List Member} {member : Member} {front text : List UInt8}
      (before : MembersOf members front) (inside : MemberOf member text) :
      MembersOf (members ++ [member]) (front ++ 0x2C :: text)

/-- A text that is one object with the members, and whitespace around it. -/
def ObjectOf (members : List Member) (text : List UInt8) : Prop :=
  ∃ before inner after, Ws before ∧ (members = [] ∧ Ws inner ∨ MembersOf members inner) ∧
    Ws after ∧ text = before ++ 0x7B :: (inner ++ 0x7D :: after)

theorem derives_member_iff {text : List UInt8} :
    Derives .member text ↔ ∃ member, MemberOf member text := by
  constructor
  · intro derives
    cases derives with
    | member spaceBefore string spaceAfter inside =>
      cases inside with
      | element spaceValue value spaceEnd =>
        exact ⟨(_, _), _, _, _, _, spaceBefore, string, spaceAfter, spaceValue, value, spaceEnd,
          rfl⟩
  · rintro ⟨⟨name, value⟩, _, _, _, _, spaceBefore, string, spaceAfter, spaceValue, derives,
      spaceEnd, rfl⟩
    exact .member spaceBefore string spaceAfter (.element spaceValue derives spaceEnd)

theorem MembersOf.derives {members : List Member} {text : List UInt8}
    (inside : MembersOf members text) : Derives .members text := by
  induction inside with
  | one inside => exact .oneMember (derives_member_iff.mpr ⟨_, inside⟩)
  | more _ inside inductionHypothesis =>
    exact .moreMembers inductionHypothesis (derives_member_iff.mpr ⟨_, inside⟩)

theorem exists_membersOf {text : List UInt8} (derives : Derives .members text) :
    ∃ members, MembersOf members text := by
  generalize same : Kind.members = kind at derives
  induction derives with
  | oneMember inside =>
    obtain ⟨member, inside⟩ := derives_member_iff.mp inside
    exact ⟨[member], .one inside⟩
  | moreMembers _ inside inductionHypothesis _ =>
    obtain ⟨members, before⟩ := inductionHypothesis rfl
    obtain ⟨member, inside⟩ := derives_member_iff.mp inside
    exact ⟨members ++ [member], .more before inside⟩
  | _ => cases same

/-- Every object text has a list of members. -/
theorem objectText_iff {text : List UInt8} :
    ObjectText text ↔ ∃ members, ObjectOf members text := by
  constructor
  · rintro ⟨before, inner, after, spaceBefore, space | derives, spaceAfter, rfl⟩
    · exact ⟨[], before, inner, after, spaceBefore, Or.inl ⟨rfl, space⟩, spaceAfter, rfl⟩
    · obtain ⟨members, inside⟩ := exists_membersOf derives
      exact ⟨members, before, inner, after, spaceBefore, Or.inr inside, spaceAfter, rfl⟩
  · rintro ⟨members, before, inner, after, spaceBefore, inside, spaceAfter, rfl⟩
    exact ⟨before, inner, after, spaceBefore, inside.imp And.right MembersOf.derives, spaceAfter,
      rfl⟩

/-! ### Fields inserted before the closing brace -/

/-- Members written one after the other, each after a comma. -/
def fieldsText (members : List Member) : List UInt8 :=
  members.flatMap fun member => 0x2C :: (member.1 ++ 0x3A :: member.2)

/-- A member without any whitespace. -/
theorem memberOf_tight {member : Member} (string : StringText member.1)
    (value : Derives .value member.2) : MemberOf member (member.1 ++ 0x3A :: member.2) :=
  ⟨[], [], [], [], ws_nil, string, ws_nil, ws_nil, value, ws_nil, by simp⟩

/-- A field inserted before the last closing brace, where there is a member before it. -/
theorem ObjectOf.insert {members : List Member} {front rest : List UInt8}
    (object : ObjectOf members (front ++ 0x7D :: rest)) (nonempty : members ≠ [])
    (fresh : (0x7D : UInt8) ∉ rest) {member : Member} {text : List UInt8}
    (inside : MemberOf member text) :
    ObjectOf (members ++ [member]) (front ++ 0x2C :: text ++ 0x7D :: rest) := by
  obtain ⟨before, inner, after, spaceBefore, none | membersOf, spaceAfter, same⟩ := object
  · exact absurd none.1 nonempty
  · obtain ⟨rfl, rfl⟩ := closes_last spaceAfter fresh same.symm
    refine ⟨before, inner ++ 0x2C :: text, rest, spaceBefore, Or.inr (.more membersOf inside),
      spaceAfter, ?_⟩
    simp only [List.append_assoc, List.cons_append]

/-- Fields inserted before the last closing brace come after the members of the object. -/
theorem ObjectOf.insertFields {members new : List Member} {front rest : List UInt8}
    (object : ObjectOf members (front ++ 0x7D :: rest)) (nonempty : members ≠ [])
    (fresh : (0x7D : UInt8) ∉ rest)
    (proper : ∀ member ∈ new, StringText member.1 ∧ Derives .value member.2) :
    ObjectOf (members ++ new) (front ++ fieldsText new ++ 0x7D :: rest) := by
  induction new generalizing members front with
  | nil => rwa [List.append_nil, fieldsText, List.flatMap_nil, List.append_nil]
  | cons member new inductionHypothesis =>
    obtain ⟨string, value⟩ := proper member List.mem_cons_self
    have inserted := object.insert nonempty fresh (memberOf_tight string value)
    have whole := inductionHypothesis inserted
      (List.append_ne_nil_of_right_ne_nil _ (List.cons_ne_nil _ _))
      fun other inside => proper other (List.mem_cons_of_mem _ inside)
    rw [List.append_assoc, List.singleton_append, List.append_assoc front] at whole
    exact whole

/-- An object text is read to its end. -/
theorem ObjectText.run {text : List UInt8} (object : ObjectText text) :
    Json.run ⟨.value, []⟩ text = some ⟨.after, []⟩ := by
  obtain ⟨before, inner, after, spaceBefore, space | derives, spaceAfter, rfl⟩ := object
  · have opens : Json.run ⟨.value, []⟩ (before ++ 0x7B :: inner) =
        some ⟨.firstName, [.object]⟩ := by
      rw [run_append_of_run (run_ws rfl _ spaceBefore)]
      exact run_ws rfl _ space
    rw [← List.cons_append, ← List.append_assoc, run_append_of_run opens]
    exact run_ws rfl [] spaceAfter
  · exact (MembersText.run ⟨before, inner, after, spaceBefore, derives, spaceAfter, rfl⟩).1

/-- An object text with a quotation mark has a member. -/
theorem ObjectText.membersText {text : List UInt8} (object : ObjectText text)
    (quote : 0x22 ∈ text) : MembersText text := by
  obtain ⟨before, inner, after, spaceBefore, space | derives, spaceAfter, rfl⟩ := object
  · have absent : ∀ stretch, Ws stretch → (0x22 : UInt8) ∉ stretch :=
      fun _ ws member => absurd (ws _ member) (by decide)
    simp [absent before spaceBefore, absent inner space, absent after spaceAfter] at quote
  · exact ⟨before, inner, after, spaceBefore, derives, spaceAfter, rfl⟩

/-- Where an object text has a key, no object text has a key with a comma behind it. -/
theorem ObjectText.not_comma_after {before key rest newKey : List UInt8}
    (object : ObjectText (before ++ (key ++ rest))) (isKey : Key key) (isNewKey : Key newKey)
    (tail : List UInt8) : ¬ ObjectText (before ++ (newKey ++ 0x2C :: tail)) := by
  intro other
  obtain ⟨state, readsBefore, reads⟩ := run_append_eq_some.mp object.run
  obtain ⟨next, readsKey, -⟩ := run_append_eq_some.mp reads
  have start : Invariant ⟨.value, []⟩ [] := ws_nil
  have awaits := isKey.awaitsKey (start.run readsBefore) readsKey
  have stuck := other.run
  rw [run_append_of_run readsBefore, run_append_of_run (isNewKey.run awaits)] at stuck
  cases stuck

/-- After the opening brace of an empty object there is no comma. -/
theorem ObjectOf.not_objectText {front rest : List UInt8}
    (object : ObjectOf [] (front ++ 0x7D :: rest)) (fresh : (0x7D : UInt8) ∉ rest)
    (tail : List UInt8) : ¬ ObjectText (front ++ 0x2C :: tail) := by
  obtain ⟨before, inner, after, spaceBefore, ⟨-, space⟩ | membersOf, spaceAfter, same⟩ := object
  · obtain ⟨rfl, rfl⟩ := closes_last spaceAfter fresh same.symm
    intro object
    have opens : Json.run ⟨.value, []⟩ (before ++ 0x7B :: inner) =
        some ⟨.firstName, [.object]⟩ := by
      rw [run_append_of_run (run_ws rfl _ spaceBefore)]
      exact run_ws rfl _ space
    have reads := object.run
    rw [run_append_of_run opens] at reads
    cases reads
  · generalize none : ([] : List Member) = members at membersOf
    cases membersOf with
    | one => cases none
    | more => exact absurd none.symm (List.append_ne_nil_of_right_ne_nil _ (List.cons_ne_nil _ _))

/-! ### One list of members only -/

/-- The bytes of a number are those a number may have. -/
theorem Number.isNumberByte {text : List UInt8} (number : Number text) :
    ∀ byte ∈ text, Json.isNumberByte byte = true := by
  obtain ⟨literal, -, rfl⟩ := Decimal.number_iff.mp number
  exact literal.isNumberByte

/-- A value does not end with whitespace. -/
theorem Derives.isWs_getLast {text : List UInt8} (derives : Derives .value text) :
    ∀ last ∈ text.getLast?, isWs last = false := by
  have ended : ∀ (front : List UInt8) {byte : UInt8}, isWs byte = false →
      ∀ last ∈ (front ++ [byte]).getLast?, isWs last = false := by
    intro front byte nonspace last member
    rw [List.getLast?_concat, Option.mem_some_iff] at member
    exact member ▸ nonspace
  cases derives with
  | literal literal =>
    have all : ∀ text ∈ literals, ∀ last ∈ text.getLast?, isWs last = false := by
      decide +kernel
    exact all text literal
  | number number =>
    intro last member
    have other := isDelimiter_of_isNumberByte
      (number.isNumberByte last (List.mem_of_getLast? member))
    simp only [isDelimiter, Bool.or_eq_false_iff] at other
    exact other.1.1.1
  | string string =>
    obtain ⟨chars, -, rfl⟩ := string
    exact ended (0x22 :: chars) (by decide)
  | emptyObject => exact ended (0x7B :: _) (by decide)
  | object => exact ended (0x7B :: _) (by decide)
  | emptyArray => exact ended (0x5B :: _) (by decide)
  | array => exact ended (0x5B :: _) (by decide)

/-- Where nothing but whitespace is read, only whitespace has been read. -/
theorem ws_of_run {mode : Mode}
    (only : ∀ byte next, step ⟨mode, []⟩ byte = some next →
      isWs byte = true ∧ next = ⟨mode, []⟩)
    {text : List UInt8} {final : State} (reads : run ⟨mode, []⟩ text = some final) : Ws text := by
  induction text with
  | nil => exact ws_nil
  | cons byte rest inductionHypothesis =>
    rw [run, Option.bind_eq_some_iff] at reads
    obtain ⟨next, taken, later⟩ := reads
    obtain ⟨space, rfl⟩ := only byte next taken
    exact List.forall_mem_cons.mpr ⟨space, inductionHypothesis later⟩

theorem StringText.eq_nil_of_append {string rest : List UInt8} (isString : StringText string)
    (longer : StringText (string ++ rest)) : rest = [] := by
  obtain ⟨chars, rfl, reads⟩ := isString.run true []
  obtain ⟨chars', same, reads'⟩ := longer.run true []
  rw [List.cons_append, List.cons.injEq] at same
  obtain ⟨-, rfl⟩ := same
  rw [if_pos rfl] at reads reads'
  rw [run_append_of_run reads] at reads'
  have space : Ws rest := by
    refine ws_of_run ?_ reads'
    intro byte next taken
    simp only [step, List.head?_nil, reduceCtorEq, and_false, if_false] at taken
    split at taken
    · rename_i space
      exact ⟨space, (Option.some_inj.mp taken).symm⟩
    · cases taken
  obtain ⟨inside, -, split⟩ := longer
  rcases List.eq_nil_or_concat rest with empty | ⟨front, last, rfl⟩
  · exact empty
  · rw [List.concat_eq_append] at space split
    rw [← List.append_assoc, ← List.cons_append] at split
    have ends := (List.append_inj' split rfl).2
    rw [List.singleton_inj.mp ends] at space
    exact absurd (space 0x22 (List.mem_append_right _ (List.mem_singleton_self _))) (by decide)

theorem Derives.eq_nil_of_append {value rest : List UInt8} (isValue : Derives .value value)
    (longer : Derives .value (value ++ rest))
    (delimited : ∀ byte ∈ rest.head?, isDelimiter byte = true) : rest = [] := by
  cases rest with
  | nil => rfl
  | cons byte rest =>
    obtain ⟨first, tail, rfl, -, -, reads⟩ := isValue.reads
    obtain ⟨first', tail', same, -, -, reads'⟩ := longer.reads
    rw [List.cons_append, List.cons.injEq] at same
    obtain ⟨rfl, rfl⟩ := same
    obtain ⟨state, read, ends⟩ := reads []
    obtain ⟨state', read', -⟩ := reads' []
    simp only [run_append] at read'
    rw [← Option.bind_assoc, read, Option.bind_some, ends.run (delimited byte rfl)] at read'
    have space : Ws (byte :: rest) := by
      refine ws_of_run ?_ read'
      intro byte next taken
      simp only [step, afterValue] at taken
      split at taken
      · rename_i space
        exact ⟨space, (Option.some_inj.mp taken).symm⟩
      · cases taken
    rcases List.eq_nil_or_concat (byte :: rest) with empty | ⟨front, last, whole⟩
    · exact empty
    · rw [List.concat_eq_append] at whole
      rw [whole] at space longer
      have nonspace := longer.isWs_getLast last
        (by rw [← List.append_assoc, List.getLast?_concat]; rfl)
      rw [space last (List.mem_append_right _ (List.mem_singleton_self last))] at nonspace
      cases nonspace

/-- Two ways to cut a text agree if neither front goes beyond the other. -/
theorem append_unique {first second rest rest' : List UInt8}
    (same : first ++ rest = second ++ rest')
    (notLonger : ∀ more, second = first ++ more → rest = more ++ rest' → more = [])
    (notShorter : ∀ more, first = second ++ more → rest' = more ++ rest → more = []) :
    first = second ∧ rest = rest' := by
  rcases List.append_eq_append_iff.mp same with ⟨more, longer, split⟩ | ⟨more, longer, split⟩
  · obtain rfl := notLonger more longer split
    exact ⟨(longer.trans (List.append_nil first)).symm, split⟩
  · obtain rfl := notShorter more longer split
    exact ⟨longer.trans (List.append_nil second), split.symm⟩

theorem Ws.unique {first second rest rest' : List UInt8} (space : Ws first) (space' : Ws second)
    (stops : ∀ byte ∈ rest.head?, isWs byte = false)
    (stops' : ∀ byte ∈ rest'.head?, isWs byte = false) (same : first ++ rest = second ++ rest') :
    first = second ∧ rest = rest' :=
  Search.stretch_unique space space' stops stops' same

/-- The texts of two members agree where each is followed by a comma or nothing. -/
theorem MemberOf.unique {member member' : Member} {text text' rest rest' : List UInt8}
    (inside : MemberOf member text) (inside' : MemberOf member' text')
    (stops : ∀ byte ∈ rest.head?, byte = 0x2C) (stops' : ∀ byte ∈ rest'.head?, byte = 0x2C)
    (same : text ++ rest = text' ++ rest') : member = member' ∧ rest = rest' := by
  obtain ⟨name, value⟩ := member
  obtain ⟨name', value'⟩ := member'
  obtain ⟨before, after, between, trailing, spaceBefore, string, spaceAfter, spaceBetween, derives,
    spaceTrailing, rfl⟩ := inside
  obtain ⟨before', after', between', trailing', spaceBefore', string', spaceAfter', spaceBetween',
    derives', spaceTrailing', rfl⟩ := inside'
  simp only [List.append_assoc, List.cons_append] at same
  have quote : ∀ {name rest : List UInt8}, StringText name →
      ∀ byte ∈ (name ++ rest).head?, isWs byte = false := by
    rintro name rest ⟨chars, -, rfl⟩ byte ⟨⟩
    decide
  have colon : ∀ {rest : List UInt8}, ∀ byte ∈ (0x3A :: rest).head?, isWs byte = false := by
    rintro rest byte ⟨⟩
    decide
  have begins : ∀ {value rest : List UInt8}, Derives .value value →
      ∀ byte ∈ (value ++ rest).head?, isWs byte = false := by
    intro value rest derives byte member
    obtain ⟨first, tail, rfl, nonspace, -, -⟩ := derives.reads
    rw [List.cons_append, List.head?_cons, Option.mem_some_iff] at member
    exact member ▸ nonspace
  have comma : ∀ {rest : List UInt8}, (∀ byte ∈ rest.head?, byte = 0x2C) →
      ∀ byte ∈ rest.head?, isWs byte = false := by
    intro rest stops byte member
    rw [stops byte member]
    decide
  have delimited : ∀ {trailing rest more rest' : List UInt8}, Ws trailing →
      (∀ byte ∈ rest.head?, byte = 0x2C) → trailing ++ rest = more ++ rest' →
      ∀ byte ∈ more.head?, isDelimiter byte = true := by
    intro trailing rest more rest' space stops split byte member
    have here : (trailing ++ rest).head? = some byte := by
      rw [split, List.head?_append_of_ne_nil _ (List.ne_nil_of_mem (List.mem_of_head? member))]
      exact member
    cases trailing with
    | nil =>
      rw [stops byte here]
      decide
    | cons first trailing =>
      rw [List.cons_append, List.head?_cons, Option.some_inj] at here
      rw [← here, isDelimiter, space first List.mem_cons_self]
      rfl
  obtain ⟨-, fromName⟩ := spaceBefore.unique spaceBefore' (quote string) (quote string') same
  obtain ⟨sameName, fromSpace⟩ := append_unique fromName
    (fun more longer _ => string.eq_nil_of_append (longer ▸ string'))
    (fun more longer _ => string'.eq_nil_of_append (longer ▸ string))
  obtain ⟨-, fromColon⟩ := spaceAfter.unique spaceAfter' colon colon fromSpace
  rw [List.cons.injEq] at fromColon
  obtain ⟨-, fromValue⟩ :=
    spaceBetween.unique spaceBetween' (begins derives) (begins derives') fromColon.2
  obtain ⟨sameValue, fromEnd⟩ := append_unique fromValue
    (fun more longer split => derives.eq_nil_of_append (longer ▸ derives')
      (delimited spaceTrailing stops split))
    (fun more longer split => derives'.eq_nil_of_append (longer ▸ derives)
      (delimited spaceTrailing' stops' split))
  exact ⟨Prod.ext sameName sameValue,
    (spaceTrailing.unique spaceTrailing' (comma stops) (comma stops') fromEnd).2⟩

/-- The first of some members, and the others. -/
theorem MembersOf.uncons {members : List Member} {text : List UInt8}
    (inside : MembersOf members text) :
    ∃ member first, MemberOf member first ∧ (members = [member] ∧ text = first ∨
      ∃ others rest, members = member :: others ∧ text = first ++ 0x2C :: rest ∧
        MembersOf others rest) := by
  induction inside with
  | one inside => exact ⟨_, _, inside, Or.inl ⟨rfl, rfl⟩⟩
  | @more members member front text _ inside inductionHypothesis =>
    obtain ⟨head, first, insideFirst, ⟨alone, split⟩ | ⟨others, rest, rfl, rfl, before⟩⟩ :=
      inductionHypothesis
    · rw [alone, split]
      exact ⟨head, first, insideFirst, Or.inr ⟨[member], text, rfl, rfl, .one inside⟩⟩
    · refine ⟨head, first, insideFirst, Or.inr ⟨others ++ [member], rest ++ 0x2C :: text, rfl, ?_,
        .more before inside⟩⟩
      rw [List.append_assoc, List.cons_append]

theorem MembersOf.unique {members members' : List Member} {text : List UInt8}
    (inside : MembersOf members text) (inside' : MembersOf members' text) :
    members = members' := by
  have comma : ∀ {rest : List UInt8}, ∀ byte ∈ (0x2C :: rest).head?, byte = 0x2C := by
    rintro rest byte ⟨⟩
    rfl
  have nothing : ∀ byte ∈ ([] : List UInt8).head?, byte = 0x2C := fun _ impossible =>
    absurd impossible (Option.not_mem_none _)
  induction members generalizing members' text with
  | nil =>
    obtain ⟨member, first, -, ⟨impossible, -⟩ | ⟨others, rest, impossible, -⟩⟩ := inside.uncons <;>
      cases impossible
  | cons member members inductionHypothesis =>
    obtain ⟨head, first, insideFirst, alone | more⟩ := inside.uncons <;>
      obtain ⟨head', first', insideFirst', alone' | more'⟩ := inside'.uncons
    · obtain ⟨whole, rfl⟩ := alone
      obtain ⟨rfl, rfl⟩ := alone'
      rw [whole, (insideFirst.unique insideFirst' nothing nothing rfl).1]
    · obtain ⟨whole, rfl⟩ := alone
      obtain ⟨others', rest', rfl, split', before'⟩ := more'
      rw [← List.append_nil text] at split'
      cases (insideFirst.unique insideFirst' nothing comma split').2
    · obtain ⟨others, rest, whole, split, before⟩ := more
      obtain ⟨rfl, rfl⟩ := alone'
      rw [← List.append_nil text] at split
      cases (insideFirst'.unique insideFirst nothing comma split).2
    · obtain ⟨others, rest, whole, rfl, before⟩ := more
      obtain ⟨others', rest', rfl, split', before'⟩ := more'
      obtain ⟨rfl, same⟩ := insideFirst.unique insideFirst' comma comma split'
      rw [List.cons.injEq] at same whole
      obtain ⟨rfl, rfl⟩ := whole
      rw [inductionHypothesis before (same.2 ▸ before')]

theorem MembersOf.quote_mem {members : List Member} {text : List UInt8}
    (inside : MembersOf members text) : (0x22 : UInt8) ∈ text := by
  induction inside with
  | one inside =>
    obtain ⟨_, _, _, _, -, ⟨chars, -, name⟩, -, -, -, -, rfl⟩ := inside
    rw [name]
    simp
  | more _ _ inductionHypothesis => exact List.mem_append_left _ inductionHypothesis

/-- An object text has one list of members only. -/
theorem ObjectOf.unique {members members' : List Member} {text : List UInt8}
    (object : ObjectOf members text) (object' : ObjectOf members' text) : members = members' := by
  obtain ⟨before, inner, after, spaceBefore, inside, spaceAfter, rfl⟩ := object
  obtain ⟨before', inner', after', spaceBefore', inside', spaceAfter', same⟩ := object'
  have brace : ∀ {rest : List UInt8}, ∀ byte ∈ (0x7B :: rest).head?, isWs byte = false := by
    rintro rest byte ⟨⟩
    decide
  have fresh : (0x7D : UInt8) ∉ after' := fun member =>
    absurd (spaceAfter' _ member) (by decide)
  have split : before ++ 0x7B :: (inner ++ 0x7D :: after) =
      (before' ++ 0x7B :: inner') ++ 0x7D :: after' := by
    rw [same, List.append_assoc, List.cons_append]
  obtain ⟨opened, -⟩ := closes_last spaceAfter fresh split
  obtain ⟨-, sameInner⟩ := spaceBefore'.unique spaceBefore brace brace opened
  rw [List.cons.injEq] at sameInner
  obtain ⟨-, rfl⟩ := sameInner
  have nothing : Ws inner' → ∀ members, ¬ MembersOf members inner' := fun space members inside =>
    absurd (space _ inside.quote_mem) (by decide)
  rcases inside with ⟨rfl, space⟩ | inside <;> rcases inside' with ⟨rfl, space'⟩ | inside'
  · rfl
  · exact absurd inside' (nothing space _)
  · exact absurd inside (nothing space' _)
  · exact inside.unique inside'

end Json
