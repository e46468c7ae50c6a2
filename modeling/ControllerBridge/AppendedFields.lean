/-
This file settles what the appended fields make of the members of an object.

The fields go before the last closing brace, and that brace closes the object
itself, whatever is nested in it. Their text begins with a comma, which is right
behind a member. In an object without members it is not, and there the result of
a call that does not fail is no object text at all.
-/

import ControllerBridge.Exact
import ControllerBridge.Library.JsonMembers

namespace ControllerBridge

open Region Search

/-! ### The text of the fields -/

/-- A name in its quotation marks. -/
def nameText (name : List UInt8) : List UInt8 := 0x22 :: (name ++ [0x22])

theorem stringText_nameText {name : List UInt8}
    (plain : ∀ byte ∈ name, Json.isPlain byte = true) : Json.StringText (nameText name) := by
  refine ⟨name, ?_, rfl⟩
  induction name with
  | nil => exact .nil
  | cons byte name inductionHypothesis =>
    exact .plain (plain byte List.mem_cons_self)
      (inductionHypothesis fun other member => plain other (List.mem_cons_of_mem _ member))

/-- Names with numerals for their values. -/
theorem proper_fields {new : List Json.Member}
    (names : ∀ member ∈ new, ∃ name, (∀ byte ∈ name, Json.isPlain byte = true) ∧
      member.1 = nameText name)
    (numerals : ∀ member ∈ new, Json.Numeral member.2) :
    ∀ member ∈ new, Json.StringText member.1 ∧ Json.Derives .value member.2 := by
  intro member inside
  obtain ⟨name, plain, same⟩ := names member inside
  exact ⟨same ▸ stringText_nameText plain, .number (numerals member inside).number⟩

section

variable {Double : Type} (libc : Libc Double)

theorem fieldText_eq (key : List UInt8) {value : Double} {rendering : List UInt8}
    (printed : libc.printf 6 value = some rendering) :
    fieldText libc key value = some (Json.fieldsText [(nameText key, rendering)]) := by
  have comma : ascii ",\"" = [0x2C, 0x22] := by decide
  have colon : ascii "\":" = [0x22, 0x3A] := by decide
  rw [fieldText, printed, comma, colon]
  simp [Json.fieldsText, nameText]

/-- The names of the motor fields. -/
def motorNames : List (List UInt8) :=
  [ascii "motor_1_pos", ascii "motor_2_pos", ascii "motor_3_pos", ascii "motor_4_insertion_pos"]

theorem isPlain_motorNames : ∀ name ∈ motorNames, ∀ byte ∈ name, Json.isPlain byte = true := by
  decide +kernel

/-- The members the motor fields are. -/
def motorMembers (renderings : List (List UInt8)) : List Json.Member :=
  (motorNames.map nameText).zip renderings

theorem motorFields_eq {m1 m2 m3 m4 : Double} {r1 r2 r3 r4 : List UInt8}
    (printed1 : libc.printf 6 m1 = some r1) (printed2 : libc.printf 6 m2 = some r2)
    (printed3 : libc.printf 6 m3 = some r3) (printed4 : libc.printf 6 m4 = some r4) :
    motorFields libc m1 m2 m3 m4 =
      some (Json.fieldsText (motorMembers [r1, r2, r3, r4])) := by
  have name1 : ascii ",\"motor_1_pos\":" = 0x2C :: (nameText (ascii "motor_1_pos") ++ [0x3A]) := by
    decide
  have name2 : ascii ",\"motor_2_pos\":" = 0x2C :: (nameText (ascii "motor_2_pos") ++ [0x3A]) := by
    decide
  have name3 : ascii ",\"motor_3_pos\":" = 0x2C :: (nameText (ascii "motor_3_pos") ++ [0x3A]) := by
    decide
  have name4 : ascii ",\"motor_4_insertion_pos\":" =
      0x2C :: (nameText (ascii "motor_4_insertion_pos") ++ [0x3A]) := by
    decide
  rw [motorFields, printed1, printed2, printed3, printed4, name1, name2, name3, name4]
  simp [Json.fieldsText, motorMembers, motorNames]

end

/-! ### A call -/

/-- What a caller relies on: a result that is not negative is the length of an object text whose
list of members is the old one with the new one behind it, and with the result `-1` the text is as
it was. -/
def Appends {capacity : Nat} (members new : List Json.Member) (buffer : Buffer capacity)
    (length : Nat) (call : Checked (Int × Buffer capacity)) : Prop :=
  ∃ returned after, call = .ok (returned, after) ∧
    (0 ≤ returned → ∀ list, Json.ObjectOf list (after.text returned.toNat) ↔
      list = members ++ new) ∧
    (returned = -1 → after.text length = buffer.text length)

/-- Fields fit the local buffer they are rendered in, and the capacity. -/
def HasRoom (capacity length size : Nat) (fields : List UInt8) : Prop :=
  fields.length < size ∧ length + fields.length ≤ capacity

variable {capacity : Nat} {buffer : Buffer capacity} {length : Nat} {members new : List Json.Member}

/-- The result of a call whose fields have no room. -/
theorem insert_without_room {size : Nat} {fields text : List UInt8} (same : text.length = length)
    (noRoom : ¬ HasRoom capacity length size fields) :
    ((fitting size (some fields)).bind fun fields => insertText capacity fields text) = none := by
  cases fits : fitting size (some fields) with
  | none => rfl
  | some fields' =>
    obtain ⟨whole, short⟩ := fitting_eq_some_iff.mp fits
    obtain rfl := Option.some_inj.mp whole
    rw [Option.bind_some]
    by_contra inserts
    obtain ⟨result, inserted⟩ := Option.ne_none_iff_exists'.mp inserts
    rw [insertText, Option.bind_eq_some_iff] at inserted
    obtain ⟨⟨before, after⟩, cut, kept⟩ := inserted
    have split := congrArg List.length (cutLast_eq_some_iff.mp cut).split
    have total := (within_eq_some_iff.mp kept).2
    simp only [List.length_append, List.length_cons] at split total
    exact noRoom ⟨short, by omega⟩

/-- The result of a call whose fields have room: they stand before the brace that closes the
object. -/
theorem insert_with_room {size : Nat} {fields text : List UInt8} (same : text.length = length)
    (object : Json.ObjectOf members text) (room : HasRoom capacity length size fields) :
    ∃ front rest, text = front ++ 0x7D :: rest ∧ (0x7D : UInt8) ∉ rest ∧
      (front ++ fields ++ 0x7D :: rest).length ≤ capacity ∧
      ((fitting size (some fields)).bind fun fields => insertText capacity fields text) =
        some (front ++ fields ++ 0x7D :: rest) := by
  cases cut : cutLast closingBrace text with
  | none =>
    obtain ⟨before, inner, after, -, -, -, rfl⟩ := object
    exact absurd (by simp [closingBrace]) (cutLast_eq_none_iff.mp cut)
  | some pieces =>
    obtain ⟨front, rest⟩ := pieces
    have last := cutLast_eq_some_iff.mp cut
    have total : (front ++ fields ++ 0x7D :: rest).length ≤ capacity := by
      have split := congrArg List.length last.split
      have fits := room.2
      simp only [List.length_append, List.length_cons] at split ⊢
      omega
    refine ⟨front, rest, last.split, last.fresh, total, ?_⟩
    rw [fitting_eq_some_iff.mpr ⟨rfl, room.1⟩, Option.bind_some, insertText, cut,
      Option.bind_some]
    exact within_eq_some_iff.mpr ⟨rfl, total⟩

/-- A call does what its caller relies on exactly when there is a member before the new ones, or
the fields have no room. -/
theorem appends_iff (small : capacity ≤ intMax) (bound : length ≤ capacity)
    (object : Json.ObjectOf members (buffer.text length)) (nonempty : new ≠ [])
    (proper : ∀ member ∈ new, Json.StringText member.1 ∧ Json.Derives .value member.2)
    {size : Nat} {result : Option (List UInt8)}
    (inserts : result = (fitting size (some (Json.fieldsText new))).bind fun fields =>
      insertText capacity fields (buffer.text length)) :
    Appends members new buffer length (.ok (intResult result, putResult buffer result)) ↔
      members ≠ [] ∨ ¬ HasRoom capacity length size (Json.fieldsText new) := by
  have same := buffer.text_length bound
  by_cases room : HasRoom capacity length size (Json.fieldsText new)
  · rw [or_iff_left (not_not_intro room)]
    obtain ⟨front, rest, split, fresh, total, inserted⟩ := insert_with_room same object room
    rw [inserted] at inserts
    subst inserts
    have returned := toInt_of_le (total.trans small)
    have text := buffer.text_put total
    rw [split] at object
    constructor
    · rintro ⟨returned', after, call, appended, -⟩ none
      rw [Except.ok.injEq, Prod.mk.injEq, intResult, returned] at call
      obtain ⟨rfl, rfl⟩ := call
      have objectOf := (appended (Int.natCast_nonneg _) _).mpr rfl
      rw [Int.toNat_natCast, putResult, text] at objectOf
      obtain ⟨⟨name, value⟩, others, rfl⟩ := List.exists_cons_of_ne_nil nonempty
      subst none
      rw [Json.fieldsText, List.flatMap_cons] at objectOf
      simp only [List.append_assoc, List.cons_append] at objectOf
      exact object.not_objectText fresh _ (Json.objectText_iff.mpr ⟨_, objectOf⟩)
    · intro membersSome
      refine ⟨_, _, rfl, fun _ list => ?_, fun failed => ?_⟩
      · have whole := object.insertFields membersSome fresh proper
        rw [intResult, returned, Int.toNat_natCast, putResult, text]
        exact ⟨fun other => other.unique whole, fun same => same ▸ whole⟩
      · rw [intResult, returned] at failed
        omega
  · rw [insert_without_room same room] at inserts
    subst inserts
    refine iff_of_true ⟨-1, buffer, rfl, fun impossible => ?_, fun _ => rfl⟩ (Or.inr room)
    exact absurd impossible (by decide)

/-- On a buffer with an object text, with names that need no escapes and numbers that are rendered
as numerals, both functions append their members, or fail and leave the text, exactly when the
object has a member already or the fields have no room. -/
theorem append_members_iff {Double : Type} (libc : Libc Double) (small : capacity ≤ intMax)
    (bound : length ≤ capacity) (object : Json.ObjectOf members (buffer.text length)) :
    (∀ key value rendering, (∀ byte ∈ key, Json.isPlain byte = true) →
        libc.printf 6 value = some rendering → Json.Numeral rendering →
        (Appends members [(nameText key, rendering)] buffer length
            (bridgeAppendField libc buffer length key value) ↔
          members ≠ [] ∨
            ¬ HasRoom capacity length 128 (Json.fieldsText [(nameText key, rendering)]))) ∧
      ∀ m1 m2 m3 m4 r1 r2 r3 r4, libc.printf 6 m1 = some r1 → libc.printf 6 m2 = some r2 →
        libc.printf 6 m3 = some r3 → libc.printf 6 m4 = some r4 →
        (∀ rendering ∈ [r1, r2, r3, r4], Json.Numeral rendering) →
        (Appends members (motorMembers [r1, r2, r3, r4]) buffer length
            (bridgeAppendMotorFields libc buffer length m1 m2 m3 m4) ↔
          members ≠ [] ∨
            ¬ HasRoom capacity length 192 (Json.fieldsText (motorMembers [r1, r2, r3, r4]))) := by
  constructor
  · intro key value rendering plain printed numeral
    rw [bridgeAppendField_eq libc buffer bound]
    refine appends_iff small bound object (List.cons_ne_nil _ _) (proper_fields ?_ ?_) ?_
    · exact List.forall_mem_singleton.mpr ⟨key, plain, rfl⟩
    · exact List.forall_mem_singleton.mpr numeral
    · rw [appendFieldText, fieldText_eq libc key printed]
  · intro m1 m2 m3 m4 r1 r2 r3 r4 printed1 printed2 printed3 printed4 numerals
    rw [bridgeAppendMotorFields_eq libc buffer bound]
    have nonempty : motorMembers [r1, r2, r3, r4] ≠ [] := List.cons_ne_nil _ _
    refine appends_iff small bound object nonempty (proper_fields ?_ ?_) ?_
    · intro member inside
      obtain ⟨name, known, same⟩ := List.mem_map.mp (List.of_mem_zip inside).1
      exact ⟨name, isPlain_motorNames name known, same.symm⟩
    · exact fun member inside => numerals member.2 (List.of_mem_zip inside).2
    · rw [appendMotorText, motorFields_eq libc printed1 printed2 printed3 printed4]

/-- A buffer with an object of one member, and one with an empty object. -/
def exampleObject : Buffer 200 := (Buffer.zeroed 200).put (ascii "\x7b\"a\": 1\x7d ")

def emptyObject : Buffer 200 := (Buffer.zeroed 200).put (ascii "\x7b\x7d")

theorem exampleObject_objectOf :
    Json.ObjectOf [(nameText (ascii "a"), ascii "1")] (exampleObject.text 9) := by
  have digit : Json.Numeral (ascii "1") :=
    ⟨[], ascii "1", [], Or.inl rfl, Or.inr ⟨0x31, [], by decide, by decide, nofun, rfl⟩,
      Or.inl rfl, rfl⟩
  have space : Json.Ws (ascii " ") := Json.ws_singleton (by decide)
  exact ⟨[], ascii "\"a\": 1", ascii " ", Json.ws_nil, Or.inr (.one ⟨[], [], ascii " ", [],
    Json.ws_nil, stringText_nameText (by decide +kernel), Json.ws_nil, space, .number digit.number,
    Json.ws_nil, by decide⟩), space, by decide +kernel⟩

theorem emptyObject_objectOf : Json.ObjectOf [] (emptyObject.text 2) :=
  ⟨[], [], [], Json.ws_nil, Or.inl ⟨rfl, Json.ws_nil⟩, Json.ws_nil, by decide +kernel⟩

theorem exampleObject_append_members_iff :
    (Appends [(nameText (ascii "a"), ascii "1")] [(nameText (ascii "k"), ascii "1.000000")]
        exampleObject 9 (bridgeAppendField exactLibc exampleObject 9 (ascii "k") 1) ↔
      [(nameText (ascii "a"), ascii "1")] ≠ [] ∨
        ¬ HasRoom 200 9 128 (Json.fieldsText [(nameText (ascii "k"), ascii "1.000000")])) := by
  have printed : exactLibc.printf 6 1 = some (ascii "1.000000") := by decide +kernel
  exact (append_members_iff exactLibc (by decide) (by decide) exampleObject_objectOf).1
    (ascii "k") 1 _ (by decide +kernel) printed
    (Option.some_inj.mp printed ▸ Json.numeral_fixed (by decide) 1)

/-- Into an object without members a field goes behind a comma of its own. -/
theorem emptyObject_not_appends :
    Json.ObjectOf [] (emptyObject.text 2) ∧
      ¬ Appends [] [(nameText (ascii "k"), ascii "1.000000")] emptyObject 2
        (bridgeAppendField exactLibc emptyObject 2 (ascii "k") 1) := by
  refine ⟨emptyObject_objectOf, ?_⟩
  have printed : exactLibc.printf 6 1 = some (ascii "1.000000") := by decide +kernel
  have numeral : Json.Numeral (ascii "1.000000") :=
    Option.some_inj.mp printed ▸ Json.numeral_fixed (by decide) 1
  rw [bridgeAppendField_eq exactLibc emptyObject (by decide),
    appends_iff (by decide) (by decide) emptyObject_objectOf (List.cons_ne_nil _ _)
      (proper_fields (List.forall_mem_singleton.mpr ⟨ascii "k", by decide +kernel, rfl⟩)
        (List.forall_mem_singleton.mpr numeral))
      (by rw [appendFieldText, fieldText_eq exactLibc (ascii "k") printed])]
  rintro (nonempty | noRoom)
  · exact nonempty rfl
  · exact noRoom ⟨by decide +kernel, by decide +kernel⟩

end ControllerBridge
