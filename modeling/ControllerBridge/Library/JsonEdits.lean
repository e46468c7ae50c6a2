/-
This file is a library about JSON texts as bytes: edits of an object.

`ObjectTree` is a text that is one object with at least one member, as a tree.
An `Edit` exchanges the first member that a key names, if it is a number, for one
with another number or for one with another name and fields behind it, or it puts
fields at the end of the object. Each edit comes with what it does to the text
(`ObjectTree.text_number`, `text_spread` and `text_extend`), so that a program
that splices texts can be compared with it. The members that no key of the edits
names are left as they are (`ObjectTree.edits_sublist`).
-/

import ControllerBridge.Library.JsonTree

namespace Json

open Decimal

/-! ### Fields -/

/-- A text that is a number. -/
abbrev NumberText := { text : List UInt8 // Number text }

/-- A key that may be looked up. -/
abbrev KeyText := { key : List UInt8 // Key key }

/-- A name with a number. -/
abbrev Field := { member : Member // StringText member.1 ∧ Number member.2 }

namespace Tree

/-- A field, with no whitespace but behind it. -/
def field (field : Field) (after : List UInt8) (ws : Ws after) : Tree .member :=
  member [] field.1.1 [] (element [] (number field.1.2 field.2.2) after ws_nil ws) ws_nil field.2.1
    ws_nil

/-- Fields behind members. -/
def extend (members : Tree .members) (fields : List Field) : Tree .members :=
  fields.foldl (fun members field => moreMembers members (Tree.field field [] ws_nil)) members

theorem text_field (field : Field) {after : List UInt8} (ws : Ws after) :
    (Tree.field field after ws).text = field.1.1 ++ 0x3A :: (field.1.2 ++ after) := by
  simp only [Tree.field, text, List.nil_append, List.append_nil]

theorem text_extend (members : Tree .members) (fields : List Field) :
    (members.extend fields).text = members.text ++ fieldsText (fields.map Subtype.val) := by
  unfold extend
  induction fields generalizing members with
  | nil => exact (List.append_nil _).symm
  | cons field fields inductionHypothesis =>
    rw [List.foldl_cons, inductionHypothesis, text, text_field, List.append_nil, List.map_cons,
      fieldsText, fieldsText, List.flatMap_cons, List.append_assoc]

theorem list_extend (members : Tree .members) (fields : List Field) :
    (members.extend fields).list =
      members.list ++ fields.map fun field => Tree.field field [] ws_nil := by
  unfold extend
  induction fields generalizing members with
  | nil => exact (List.append_nil _).symm
  | cons field fields inductionHypothesis =>
    rw [List.foldl_cons, inductionHypothesis, list, List.map_cons, List.append_assoc]
    rfl

end Tree

/-! ### Names -/

/-- Behind an escaped quotation mark there may be other letters. -/
theorem Chars.exchange {front letters other : List UInt8}
    (inside : Chars (front ++ 0x22 :: letters)) (chars : Chars other) :
    Chars (front ++ 0x22 :: other) := by
  generalize whole : front ++ 0x22 :: letters = text at inside
  induction inside generalizing front with
  | nil => exact absurd whole (List.append_ne_nil_of_right_ne_nil _ (List.cons_ne_nil _ _))
  | @plain byte rest plain _ inductionHypothesis =>
    cases front with
    | nil =>
      obtain ⟨rfl, -⟩ := List.cons_eq_cons.mp whole
      exact absurd plain (by decide)
    | cons first front =>
      obtain ⟨rfl, same⟩ := List.cons_eq_cons.mp whole
      exact .plain plain (inductionHypothesis same)
  | @escape byte rest escape _ inductionHypothesis =>
    cases front with
    | nil =>
      obtain ⟨impossible, -⟩ := List.cons_eq_cons.mp whole
      exact absurd impossible (by decide)
    | cons first front =>
      obtain ⟨rfl, same⟩ := List.cons_eq_cons.mp whole
      cases front with
      | nil => exact .escape (by decide) chars
      | cons second front =>
        obtain ⟨rfl, rest⟩ := List.cons_eq_cons.mp same
        exact .escape escape (inductionHypothesis rest)
  | @unicode digits rest four hex _ inductionHypothesis =>
    cases front with
    | nil =>
      obtain ⟨impossible, -⟩ := List.cons_eq_cons.mp whole
      exact absurd impossible (by decide)
    | cons first front =>
      obtain ⟨rfl, same⟩ := List.cons_eq_cons.mp whole
      cases front with
      | nil =>
        obtain ⟨impossible, -⟩ := List.cons_eq_cons.mp same
        exact absurd impossible (by decide)
      | cons second front =>
        obtain ⟨rfl, rest⟩ := List.cons_eq_cons.mp same
        rcases List.append_eq_append_iff.mp rest with ⟨more, rfl, behind⟩ | ⟨more, rfl, rfl⟩
        · cases more with
          | nil =>
            rw [List.append_nil] at four hex
            rw [List.cons_append, List.cons_append]
            exact .unicode four hex (@inductionHypothesis [] behind)
          | cons digit more =>
            obtain ⟨rfl, -⟩ := List.cons_eq_cons.mp behind
            exact absurd (hex 0x22 (by simp)) (by decide)
        · rw [List.cons_append, List.cons_append, List.append_assoc]
          exact .unicode four hex (inductionHypothesis rfl)

theorem KeyText.dropLast_append (key : KeyText) (rest : List UInt8) :
    key.1.dropLast ++ 0x3A :: rest = key.1 ++ rest := by
  rw [← List.singleton_append, ← List.append_assoc, ← key.2.dropLast_eq.1]

/-- The end of a name that is a key's may be another's. -/
theorem StringText.rename {front : List UInt8} {old new : KeyText}
    (isString : StringText (front ++ old.1.dropLast)) : StringText (front ++ new.1.dropLast) := by
  obtain ⟨-, letters, -, name⟩ := old.2.dropLast_eq
  obtain ⟨-, other, words, newName⟩ := new.2.dropLast_eq
  rw [name] at isString
  rw [newName]
  obtain ⟨chars, inside, quoted⟩ := isString
  cases front with
  | nil => exact ⟨other, .of_words words, rfl⟩
  | cons first front =>
    rw [List.cons_append, List.cons.injEq, ← List.cons_append, ← List.append_assoc] at quoted
    obtain ⟨rfl, rest⟩ := quoted
    rw [← (List.append_inj' rest rfl).1] at inside
    exact ⟨front ++ 0x22 :: other, inside.exchange (.of_words words), by simp⟩

/-! ### Members that are numbers -/

/-- A member that a key names, with a number behind nothing but spaces and tabs. -/
structure NumberMember (key : List UInt8) where
  before : List UInt8
  front : List UInt8
  space : List UInt8
  number : NumberText
  after : List UInt8
  wsBefore : Ws before
  isString : StringText (front ++ key.dropLast)
  gaps : ∀ byte ∈ space, isGap byte = true
  wsAfter : Ws after

theorem ws_of_gaps {space : List UInt8} (gaps : ∀ byte ∈ space, isGap byte = true) : Ws space := by
  intro byte inside
  have gap := gaps byte inside
  rw [isGap, Bool.or_eq_true, beq_iff_eq, beq_iff_eq] at gap
  rcases gap with rfl | rfl <;> decide

namespace NumberMember

variable {key : List UInt8}

def tree (inside : NumberMember key) : Tree .member :=
  .member inside.before (inside.front ++ key.dropLast) []
    (.element inside.space (.number inside.number.1 inside.number.2) inside.after
      (ws_of_gaps inside.gaps) inside.wsAfter)
    inside.wsBefore inside.isString ws_nil

/-- The member with another number. -/
def withNumber (new : NumberText) (inside : NumberMember key) : Tree .members :=
  .oneMember { inside with number := new }.tree

/-- The member under another name, and fields behind it. -/
def spread {old : KeyText} (new : KeyText) (fields : List Field) (last : Field)
    (inside : NumberMember old.1) : Tree .members :=
  .moreMembers
    ((Tree.oneMember (.member inside.before (inside.front ++ new.1.dropLast) []
      (.element [] (.number inside.number.1 inside.number.2) [] ws_nil ws_nil)
      inside.wsBefore inside.isString.rename ws_nil)).extend fields)
    (Tree.field last inside.after inside.wsAfter)

theorem text_withNumber (new : NumberText) (inside : NumberMember key) :
    (inside.withNumber new).text = inside.before ++ inside.front ++ key.dropLast ++
      0x3A :: (inside.space ++ (new.1 ++ inside.after)) := by
  simp [withNumber, tree, Tree.text]

theorem text_spread {old : KeyText} (new : KeyText) (fields : List Field) (last : Field)
    (inside : NumberMember old.1) :
    (inside.spread new fields last).text = inside.before ++ inside.front ++ new.1.dropLast ++
      0x3A :: (inside.number.1 ++ (fieldsText ((fields ++ [last]).map Subtype.val) ++
        inside.after)) := by
  simp [spread, Tree.text, Tree.text_extend, Tree.text_field, fieldsText]

end NumberMember

/-- A value is a number, or begins with a byte no number has. -/
theorem Tree.value_cases (value : Tree .value) :
    (∃ text isNumber, value = number text isNumber) ∨
      ∃ byte rest, value.text = byte :: rest ∧ isNumberByte byte = false ∧ isGap byte = false := by
  cases value with
  | literal text isLiteral =>
    simp only [literals, List.mem_cons, List.not_mem_nil, or_false] at isLiteral
    rcases isLiteral with rfl | rfl | rfl <;> exact Or.inr ⟨_, _, rfl, by decide, by decide⟩
  | number text isNumber => exact Or.inl ⟨text, isNumber, rfl⟩
  | string text isString =>
    obtain ⟨chars, -, rfl⟩ := isString
    exact Or.inr ⟨_, _, rfl, by decide, by decide⟩
  | emptyObject | object | emptyArray | array =>
    exact Or.inr ⟨_, _, rfl, by decide, by decide⟩

/-- What a name is of which a key is the end. -/
theorem take_suffix {key name : List UInt8} (ends : key <:+ name) :
    name.take (name.length - key.length) ++ key = name := by
  obtain ⟨front, rfl⟩ := ends
  rw [List.length_append, Nat.add_sub_cancel, List.take_left]

/-- The member as a number, if it is one. -/
def Tree.numberMember? {key : List UInt8} :
    (inside : Tree .member) → inside.place.named key = true → Option (NumberMember key)
  | member before name _ (element space (number text isNumber) after _ wsAfter) wsBefore isString _,
      named =>
    if gaps : space.all isGap = true then some {
      before, space, after, wsBefore, wsAfter
      gaps := List.all_eq_true.mp gaps
      front := name.take (name.length - key.dropLast.length)
      number := ⟨text, isNumber⟩
      isString := by
        have ends : key.dropLast <:+ name := (Place.named_iff.mp named).2
        rwa [take_suffix ends] }
    else none
  | _, _ => none

section

variable {key : List UInt8} {whole : Tree .member} {named : whole.place.named key = true}

theorem Tree.eq_of_numberMember? {inside : NumberMember key}
    (isNumber : whole.numberMember? named = some inside) : whole = inside.tree := by
  cases whole with
  | member before name gap value wsBefore isString wsGap =>
  cases value with
  | element space value after wsSpace wsAfter =>
  cases value with
  | number text isNumber' =>
    rw [numberMember?] at isNumber
    split at isNumber
    · obtain ⟨noGap, ends⟩ := Place.named_iff.mp named
      replace ends : key.dropLast <:+ name := ends
      cases noGap
      cases isNumber
      simp only [NumberMember.tree, take_suffix ends]
    · cases isNumber
  | _ => cases isNumber

/-- What a member begins with behind its colon that is no number. -/
theorem Tree.exists_noNumber (noNumber : whole.numberMember? named = none) :
    ∃ blanks byte rest, (∀ blank ∈ blanks, isGap blank = true) ∧ isNumberByte byte = false ∧
      isGap byte = false ∧ whole.place.element = blanks ++ byte :: rest := by
  cases whole with
  | member before name gap value wsBefore isString wsGap =>
  cases value with
  | element space value after wsSpace wsAfter =>
  by_cases gaps : ∀ byte ∈ space, isGap byte = true
  · rcases value.value_cases with ⟨text, isNumber, rfl⟩ | ⟨byte, rest, begins, noByte, noGap⟩
    · rw [numberMember?, dif_pos (List.all_eq_true.mpr gaps)] at noNumber
      cases noNumber
    · refine ⟨space, byte, rest ++ after, gaps, noByte, noGap, ?_⟩
      rw [place, text, begins, List.append_assoc, List.cons_append]
  · -- the whitespace goes on with a line break
    obtain ⟨byte, rest, other⟩ := List.exists_cons_of_ne_nil fun empty =>
      gaps (List.dropWhile_eq_nil_iff.mp empty)
    have split : space = space.takeWhile isGap ++ byte :: rest := by
      rw [← other, List.takeWhile_append_dropWhile]
    have ws : isWs byte = true := by
      refine wsSpace byte ?_
      rw [split]
      exact List.mem_append_right _ List.mem_cons_self
    refine ⟨space.takeWhile isGap, byte, rest ++ value.text ++ after, ?_, ?_, ?_, ?_⟩
    · exact fun blank member => List.mem_takeWhile_imp member
    · by_contra inNumber
      have delimiter := isDelimiter_of_isNumberByte ((Bool.not_eq_false _).mp inNumber)
      rw [isDelimiter, ws] at delimiter
      cases delimiter
    · exact Search.stops_dropWhile isGap space byte (by rw [other]; rfl)
    · rw [place, text]
      nth_rewrite 1 [split]
      simp only [List.append_assoc, List.cons_append]

end

/-- The exchange of a number; a member that is none stays. -/
def atNumber {key : List UInt8} (edit : NumberMember key → Tree .members) : Exchange key :=
  fun whole named => ((whole.numberMember? named).map edit).getD (.oneMember whole)

/-! ### Objects -/

/-- A text that is one object with at least one member. -/
structure ObjectTree where
  before : List UInt8
  members : Tree .members
  after : List UInt8
  wsBefore : Ws before
  wsAfter : Ws after

namespace ObjectTree

def element (object : ObjectTree) : Tree .element :=
  .element object.before (.object object.members) object.after object.wsBefore object.wsAfter

def text (object : ObjectTree) : List UInt8 := object.element.text

theorem text_eq (object : ObjectTree) :
    object.text = object.before ++ 0x7B :: (object.members.text ++ 0x7D :: object.after) := by
  simp [text, element, Tree.text]

/-- The object with a member exchanged. -/
def exchange {key : List UInt8} (new : Exchange key) (object : ObjectTree) : ObjectTree :=
  { object with members := (object.members.exchange new).getD object.members }

/-- The object with fields at its end. -/
def extend (fields : List Field) (object : ObjectTree) : ObjectTree :=
  { object with members := object.members.extend fields }

end ObjectTree

theorem membersText_iff {text : List UInt8} :
    MembersText text ↔ ∃ object : ObjectTree, object.text = text := by
  constructor
  · rintro ⟨before, inside, after, wsBefore, derives, wsAfter, rfl⟩
    obtain ⟨members, rfl⟩ := derives.exists_tree
    exact ⟨⟨before, members, after, wsBefore, wsAfter⟩, ObjectTree.text_eq _⟩
  · rintro ⟨object, rfl⟩
    exact ⟨object.before, object.members.text, object.after, object.wsBefore,
      object.members.placed.derives, object.wsAfter, object.text_eq⟩

/-! ### Members as they are read -/

namespace Tree

/-- A member as its name and its value. -/
def pair : Tree .member → Member
  | member _ name _ (element _ value _ _ _) _ _ _ => (name, value.text)

theorem memberOf_pair (inside : Tree .member) : MemberOf inside.pair inside.text := by
  cases inside with
  | member before name gap value wsBefore isString wsGap =>
  cases value with
  | element space value after wsSpace wsAfter =>
    exact ⟨before, gap, space, after, wsBefore, isString, wsGap, wsSpace, value.placed.derives,
      wsAfter, rfl⟩

theorem membersOf_list : ∀ members : Tree .members,
    MembersOf (members.list.map pair) members.text
  | oneMember inside => by
    rw [list, text]
    exact .one inside.memberOf_pair
  | moreMembers front last => by
    rw [list, text, List.map_append]
    exact .more front.membersOf_list last.memberOf_pair

end Tree

namespace ObjectTree

/-- The text of an object is read as its members only. -/
theorem objectOf_iff (object : ObjectTree) (members : List Member) :
    ObjectOf members object.text ↔ members = object.members.list.map Tree.pair := by
  have here : ObjectOf (object.members.list.map Tree.pair) object.text :=
    ⟨object.before, object.members.text, object.after, object.wsBefore,
      Or.inr object.members.membersOf_list, object.wsAfter, object.text_eq⟩
  constructor
  · exact fun read => read.unique here
  · rintro rfl
    exact here

/-- Fields at the end stand before the last closing brace of the text. -/
theorem text_extend (object : ObjectTree) (fields : List Field) {front rest : List UInt8}
    (last : Search.LastAt 0x7D object.text front rest) :
    (object.extend fields).text =
      front ++ fieldsText (fields.map Subtype.val) ++ 0x7D :: rest := by
  have same := object.text_eq.symm.trans last.split
  obtain ⟨rfl, rfl⟩ := closes_last object.wsAfter last.fresh same
  rw [text_eq, extend, Tree.text_extend]
  simp only [List.append_assoc, List.cons_append]

/-- The object is exchanged at the first member that a key names. -/
theorem exchange_cases (object : ObjectTree) {key : KeyText} (new : Exchange key.1) :
    (¬ key.1 <:+: object.text ∧ object.exchange new = object) ∨
      ∃ left right member front named,
        member.place.name = front ++ key.1.dropLast ∧
        Search.FirstAt key.1 object.text (left ++ member.place.before ++ front)
          (member.place.element ++ right) ∧ Delimited right ∧
        (object.exchange new).text = left ++ (new member named).text ++ right := by
  have first := object.element.placed.firstAt key.2
  have exchanges := object.element.exchangesAt new
  have inside : object.element.exchange new = (object.members.exchange new).map fun members =>
      { object with members }.element := by
    rw [element, Tree.exchange, Tree.exchange, Option.map_map]
    rfl
  cases found : lookup key.1 object.element.places with
  | none =>
    rw [found] at first exchanges
    rw [ExchangesAt, inside, Option.map_eq_none_iff] at exchanges
    rw [exchange, exchanges]
    exact Or.inl ⟨first, rfl⟩
  | some place =>
    have here := object.element.placed.spec.1 place (List.mem_of_find?_eq_some found)
    rw [found] at first exchanges
    obtain ⟨left, right, member, named, tree, rfl, exchanged, splice⟩ := exchanges
    obtain ⟨begins, firstAt⟩ := first
    obtain ⟨front, name⟩ := (Place.named_iff.mp named).2
    have ends : member.place.after = [] := by cases member; rfl
    have behind : (member.place.inside left right).after = right := by
      rw [Place.inside, ends, List.nil_append]
    have delimited := here.delimited
    rw [behind] at firstAt delimited
    have same : begins = left ++ member.place.before ++ front := by
      obtain ⟨front', split, whole⟩ :=
        here.split_named key.2 (show Place.named _ _ = true from named)
      rw [behind] at split
      have cut := firstAt.split.symm.trans split
      rw [List.append_assoc, List.append_assoc, List.append_left_inj] at cut
      rw [cut]
      refine List.append_cancel_right (whole.trans ?_)
      rw [List.append_assoc, name]
      rfl
    refine Or.inr ⟨left, right, member, front, named, name.symm, same ▸ firstAt, delimited, ?_⟩
    rw [inside, Option.map_eq_some_iff] at exchanged
    obtain ⟨members, exchanged, rfl⟩ := exchanged
    rw [exchange, exchanged]
    exact splice

end ObjectTree

/-! ### Numbers that are found -/

/-- The cut of a text at the first place of a key, with a number behind it: it may go on with no
byte of a number. -/
structure NumberAt (key text before blanks span after : List UInt8) : Prop where
  first : Search.FirstAt key text before (blanks ++ (span ++ after))
  gaps : ∀ byte ∈ blanks, isGap byte = true
  numeric : ∀ byte ∈ span, isNumberByte byte = true
  nonempty : span ≠ []
  stops : ∀ byte ∈ after.head?, isNumberByte byte = false

theorem isGap_of_isNumberByte {byte : UInt8} (number : isNumberByte byte = true) :
    isGap byte = false := by
  by_contra gap
  have ws := ws_of_gaps (List.forall_mem_singleton.mpr ((Bool.not_eq_false _).mp gap)) byte
    (List.mem_singleton_self byte)
  have delimiter := isDelimiter_of_isNumberByte number
  rw [isDelimiter, ws] at delimiter
  cases delimiter

section

variable {object : ObjectTree} {key : KeyText} {before blanks span after : List UInt8}

/-- A number that is found is a member's, which is exchanged. -/
theorem NumberAt.exists_member (found : NumberAt key.1 object.text before blanks span after)
    (edit : NumberMember key.1 → Tree .members) :
    ∃ left inside right, before = left ++ inside.before ++ inside.front ∧ blanks = inside.space ∧
      span = inside.number.1 ∧ after = inside.after ++ right ∧
      (object.exchange (atNumber edit)).text = left ++ (edit inside).text ++ right := by
  obtain ⟨first, rest, filled⟩ := List.exists_cons_of_ne_nil found.nonempty
  have startsSpan : ∀ byte ∈ (span ++ after).head?, isGap byte = false := by
    rw [filled]
    rintro _ ⟨⟩
    exact isGap_of_isNumberByte (found.numeric _ (filled ▸ List.mem_cons_self))
  rcases object.exchange_cases (atNumber edit) with
    ⟨absent, -⟩ | ⟨left, right, whole, front, named, name, firstAt, delimited, text⟩
  · exact absurd found.first.infix absent
  obtain ⟨same, behind⟩ := found.first.unique firstAt
  cases isNumber : whole.numberMember? named with
  | none =>
    obtain ⟨blanks', byte, more, gaps', noByte, noGap, begins⟩ := Tree.exists_noNumber isNumber
    rw [begins, List.append_assoc, List.cons_append] at behind
    have cut := (Search.stretch_unique found.gaps gaps' startsSpan
      (by rintro _ ⟨⟩; exact noGap) behind).2
    rw [filled, List.cons_append, List.cons.injEq] at cut
    have number := found.numeric first (filled ▸ List.mem_cons_self)
    rw [cut.1, noByte] at number
    cases number
  | some inside =>
    obtain rfl := Tree.eq_of_numberMember? isNumber
    have numeric := inside.number.2.isNumberByte
    have startsNumber : ∀ byte ∈ (inside.number.1 ++ (inside.after ++ right)).head?,
        isGap byte = false := by
      obtain ⟨head, tail, number⟩ :=
        List.exists_cons_of_ne_nil (ne_nil_of_number inside.number.2)
      rw [number]
      rintro _ ⟨⟩
      exact isGap_of_isNumberByte (numeric _ (number ▸ List.mem_cons_self))
    have stops : ∀ byte ∈ (inside.after ++ right).head?, isNumberByte byte = false := by
      intro byte head
      by_contra number
      have delimiter := inside.wsAfter.delimited.append delimited byte head
      rw [isDelimiter_of_isNumberByte ((Bool.not_eq_false _).mp number)] at delimiter
      cases delimiter
    have whole : inside.tree.place.element ++ right =
        inside.space ++ (inside.number.1 ++ (inside.after ++ right)) := by
      simp [NumberMember.tree, Tree.place, Tree.text]
    rw [whole] at behind
    obtain ⟨rfl, later⟩ :=
      Search.stretch_unique found.gaps inside.gaps startsSpan startsNumber behind
    obtain ⟨rfl, rfl⟩ := Search.stretch_unique found.numeric numeric found.stops stops later
    have fronts : front = inside.front := List.append_cancel_right name.symm
    rw [atNumber, isNumber] at text
    exact ⟨left, inside, right, fronts ▸ same, rfl, rfl, rfl, text⟩

end

/-! ### Edits -/

/-- An edit of an object. -/
inductive Edit where
  | number (key : KeyText) (new : NumberText)
  | spread (old new : KeyText) (fields : List Field) (last : Field)
  | extend (fields : List Field)

/-- The keys an edit looks up. -/
def Edit.keys : Edit → List (List UInt8)
  | number key _ => [key.1]
  | spread old _ _ _ => [old.1]
  | extend _ => []

namespace ObjectTree

def edit (object : ObjectTree) : Edit → ObjectTree
  | .number key new =>
    object.exchange (atNumber fun inside : NumberMember key.1 => inside.withNumber new)
  | .spread old new fields last =>
    object.exchange (atNumber fun inside : NumberMember old.1 => inside.spread new fields last)
  | .extend fields => object.extend fields

/-- One edit after the other. -/
def edits (object : ObjectTree) (edits : List Edit) : ObjectTree := edits.foldl edit object

variable {object : ObjectTree} {before blanks span after : List UInt8}

theorem text_number {key : KeyText} (found : NumberAt key.1 object.text before blanks span after)
    (new : NumberText) : (object.edit (.number key new)).text =
      before ++ key.1 ++ blanks ++ new.1 ++ after := by
  obtain ⟨left, inside, right, rfl, rfl, rfl, rfl, text⟩ :=
    found.exists_member (NumberMember.withNumber new)
  rw [edit, text, NumberMember.text_withNumber]
  simp only [List.append_assoc, key.dropLast_append]

theorem text_spread {old : KeyText} (found : NumberAt old.1 object.text before blanks span after)
    (new : KeyText) (fields : List Field) (last : Field) :
    (object.edit (.spread old new fields last)).text =
      before ++ new.1 ++ span ++ fieldsText ((fields ++ [last]).map Subtype.val) ++ after := by
  obtain ⟨left, inside, right, rfl, rfl, rfl, rfl, text⟩ :=
    found.exists_member (NumberMember.spread new fields last)
  rw [edit, text, NumberMember.text_spread]
  simp only [List.append_assoc, new.dropLast_append]

/-- An edit at a key that is not there changes nothing. -/
theorem exchange_of_absent {key : KeyText} (absent : ¬ key.1 <:+: object.text)
    (new : Exchange key.1) : object.exchange new = object := by
  rcases object.exchange_cases new with ⟨-, same⟩ | ⟨_, _, _, _, _, -, first, -, -⟩
  · exact same
  · exact absurd first.infix absent

theorem edits_append (object : ObjectTree) (first second : List Edit) :
    object.edits (first ++ second) = (object.edits first).edits second :=
  List.foldl_append

/-- Edits leave what stands around the object. -/
theorem edits_around (object : ObjectTree) (edits : List Edit) :
    (object.edits edits).before = object.before ∧ (object.edits edits).after = object.after := by
  induction edits generalizing object with
  | nil => exact ⟨rfl, rfl⟩
  | cons edit edits inductionHypothesis =>
    have first : (object.edit edit).before = object.before ∧
        (object.edit edit).after = object.after := by
      cases edit <;> exact ⟨rfl, rfl⟩
    obtain ⟨before, after⟩ := inductionHypothesis (object.edit edit)
    exact ⟨before.trans first.1, after.trans first.2⟩

variable {keys : List (List UInt8)}

/-- An edit leaves the members as they are that none of its keys names. -/
theorem edit_sublist (object : ObjectTree) {edit : Edit} (among : edit.keys ⊆ keys) :
    (object.members.list.filter (Tree.free keys)).Sublist
      ((object.edit edit).members.list.filter (Tree.free keys)) := by
  have exchanged : ∀ {key : List UInt8} (new : Exchange key), key ∈ keys →
      (object.members.list.filter (Tree.free keys)).Sublist
        ((object.exchange new).members.list.filter (Tree.free keys)) := by
    intro key new inside
    rw [exchange]
    cases exchanged : object.members.exchange new with
    | none => exact List.Sublist.refl _
    | some members => exact Tree.exchange_sublist inside exchanged
  cases edit with
  | number key new => exact exchanged _ (among (List.mem_singleton_self _))
  | spread old new fields last => exact exchanged _ (among (List.mem_singleton_self _))
  | extend fields =>
    rw [ObjectTree.edit, extend, Tree.list_extend, List.filter_append]
    exact List.sublist_append_left _ _

/-- Edits leave the members as they are that none of their keys names. -/
theorem edits_sublist (object : ObjectTree) {edits : List Edit}
    (among : ∀ edit ∈ edits, edit.keys ⊆ keys) :
    (object.members.list.filter (Tree.free keys)).Sublist
      ((object.edits edits).members.list.filter (Tree.free keys)) := by
  induction edits generalizing object with
  | nil => exact List.Sublist.refl _
  | cons edit edits inductionHypothesis =>
    have first := object.edit_sublist (among edit List.mem_cons_self)
    exact first.trans (inductionHypothesis _ fun other inside =>
      among other (List.mem_cons_of_mem _ inside))

end ObjectTree

end Json
