/-
This file is a library about JSON texts as bytes: what the machine reads.

Every derivation is read to a state that ends a value (`Derives.run`), so the
machine and the grammar agree on the object texts (`membersText_iff`). A key in
its quotation marks with its colon is read in one way only, as the end of a name,
and a numeric stretch after it as a number; so another key and other numbers may
stand there (`MembersText.splice`).
-/

import ControllerBridge.Library.JsonMachine

namespace Json

open Decimal

/-! ### What is derived is read -/

/-- The machine has read a value: it is after it, or in a number that may end. -/
def Ends (stack : List Container) (state : State) : Prop :=
  state = ⟨.after, stack⟩ ∨ ∃ phase, phase.complete = true ∧ state = ⟨.number phase, stack⟩

/-- The bytes that may follow a value. -/
def isDelimiter (byte : UInt8) : Bool :=
  isWs byte || byte == 0x2C || byte == 0x7D || byte == 0x5D

theorem isDigit_of_mem_delimiters {byte : UInt8} (delimiter : isDelimiter byte = true) :
    isDigit byte = false ∧ isMark byte = false ∧ byte ≠ 0x2E := by
  simp only [isDelimiter, isWs, Bool.or_eq_true, beq_iff_eq] at delimiter
  rcases delimiter with (((((rfl | rfl) | rfl) | rfl) | rfl) | rfl) | rfl <;> decide

/-- A number that may end does, with a byte that does not continue it. -/
theorem Ends.step {stack : List Container} {state : State} (ends : Ends stack state)
    {byte : UInt8} (delimiter : isDelimiter byte = true) :
    step state byte = afterValue stack byte := by
  obtain rfl | ⟨phase, complete, rfl⟩ := ends
  · rfl
  · obtain ⟨digit, mark, point⟩ := isDigit_of_mem_delimiters delimiter
    have stops : phase.next byte = none := by
      cases phase with
      | minus | point | mark | sign => cases complete
      | zero | whole | fraction | exponent => simp [Phase.next, digit, mark, point]
    unfold Json.step
    dsimp only
    rw [stops, complete]
    rfl

theorem Ends.run {stack : List Container} {state : State} (ends : Ends stack state)
    {byte : UInt8} (delimiter : isDelimiter byte = true) (rest : List UInt8) :
    run state (byte :: rest) = run ⟨.after, stack⟩ (byte :: rest) := by
  rw [Json.run, Json.run, ends.step delimiter]
  rfl

/-- The modes in which whitespace is passed over. -/
def Mode.skips : Mode → Bool
  | .value | .firstElement | .firstName | .name | .afterName | .after => true
  | .string _ | .escape _ | .hex _ _ | .number _ | .literal _ => false

theorem run_ws {mode : Mode} (skips : mode.skips = true) (stack : List Container)
    {space : List UInt8} (ws : Ws space) : run ⟨mode, stack⟩ space = some ⟨mode, stack⟩ := by
  induction space with
  | nil => rfl
  | cons byte rest inductionHypothesis =>
    have here : step ⟨mode, stack⟩ byte = some ⟨mode, stack⟩ := by
      have isSpace := ws byte List.mem_cons_self
      cases mode with
      | value | firstElement | firstName | name | afterName => simp [step, isSpace]
      | after => simp [step, afterValue, isSpace]
      | string | escape | hex | number | literal => cases skips
    rw [run, here]
    exact inductionHypothesis fun other member => ws other (List.mem_cons_of_mem _ member)

theorem Ends.run_ws {stack : List Container} {state : State} (ends : Ends stack state)
    {space : List UInt8} (ws : Ws space) :
    ∃ next, Json.run state space = some next ∧ Ends stack next := by
  cases space with
  | nil => exact ⟨state, rfl, ends⟩
  | cons byte rest =>
    have delimiter : isDelimiter byte = true := by
      rw [isDelimiter, ws byte List.mem_cons_self]
      rfl
    exact ⟨_, (ends.run delimiter rest).trans (Json.run_ws rfl stack ws), Or.inl rfl⟩

theorem run_hex (isName : Bool) (stack : List Container) {digits : List UInt8} {more : Nat}
    (count : digits.length = more + 1) (hex : ∀ digit ∈ digits, isHex digit = true) :
    run ⟨.hex isName more, stack⟩ digits = some ⟨.string isName, stack⟩ := by
  induction digits generalizing more with
  | nil => cases count
  | cons digit digits inductionHypothesis =>
    have here := hex digit List.mem_cons_self
    rw [List.length_cons, Nat.add_right_cancel_iff] at count
    cases more with
    | zero =>
      obtain rfl := List.eq_nil_of_length_eq_zero count
      simp [run, step, here]
    | succ more =>
      have later := inductionHypothesis count fun other member =>
        hex other (List.mem_cons_of_mem _ member)
      simp [run, step, here, later]

/-- The text of a string is read in the string. -/
theorem Chars.run {chars : List UInt8} (inside : Chars chars) (isName : Bool)
    (stack : List Container) :
    run ⟨.string isName, stack⟩ chars = some ⟨.string isName, stack⟩ := by
  induction inside with
  | nil => rfl
  | @plain byte rest plain _ inductionHypothesis =>
    have ordinary : byte ≠ 0x22 ∧ byte ≠ 0x5C := by
      constructor <;>
      · rintro rfl
        exact absurd plain (by decide)
    simp [Json.run, step, inString, ordinary.1, ordinary.2, plain, inductionHypothesis]
  | escape escape _ inductionHypothesis =>
    simp [Json.run, step, inString, escape, inductionHypothesis]
  | unicode four hex _ inductionHypothesis =>
    have digits := run_hex isName stack four hex
    simp [Json.run, step, inString, isEscape, run_append, digits, inductionHypothesis]

/-- A string is read to its end. -/
theorem StringText.run {text : List UInt8} (string : StringText text) (isName : Bool)
    (stack : List Container) :
    ∃ chars, text = 0x22 :: chars ∧ Json.run ⟨.string isName, stack⟩ chars =
      some ⟨if isName then .afterName else .after, stack⟩ := by
  obtain ⟨chars, inside, rfl⟩ := string
  refine ⟨_, rfl, ?_⟩
  rw [run_append_of_run (inside.run isName stack)]
  rfl

/-! ### Numbers -/

theorem run_digits {phase : Phase} (counts : phase = .whole ∨ phase = .fraction ∨ phase = .exponent)
    (stack : List Container) {digits : List UInt8} (inside : ∀ byte ∈ digits, isDigit byte = true) :
    run ⟨.number phase, stack⟩ digits = some ⟨.number phase, stack⟩ := by
  induction digits with
  | nil => rfl
  | cons digit digits inductionHypothesis =>
    have here := inside digit List.mem_cons_self
    have later := inductionHypothesis fun byte member => inside byte (List.mem_cons_of_mem _ member)
    rcases counts with rfl | rfl | rfl <;> simp [run, step, Phase.next, here, later]

/-- A digit does not begin or end anything else. -/
theorem ne_of_isDigit {byte : UInt8} (digit : isDigit byte = true) :
    isWs byte = false ∧ byte ≠ 0x5D ∧ byte ≠ 0x7B ∧ byte ≠ 0x5B ∧ byte ≠ 0x22 ∧ byte ≠ 0x2D ∧
      byte ≠ 0x2B ∧ byte ≠ 0x2E := by
  refine ⟨?_, ?_⟩
  · rw [Bool.eq_false_iff]
    intro space
    simp only [isWs, Bool.or_eq_true, beq_iff_eq] at space
    rcases space with ((rfl | rfl) | rfl) | rfl <;> exact absurd digit (by decide)
  · refine ⟨?_, ?_, ?_, ?_, ?_, ?_, ?_⟩ <;>
    · rintro rfl
      exact absurd digit (by decide)

/-- A whole number, after a minus. -/
theorem Whole.run {text : List UInt8} (whole : Whole text) (stack : List Container) :
    ∃ phase, (phase = .zero ∨ phase = .whole) ∧
      Json.run ⟨.number .minus, stack⟩ text = some ⟨.number phase, stack⟩ := by
  obtain rfl | ⟨first, rest, digit, zero, digits, rfl⟩ := whole
  · exact ⟨.zero, Or.inl rfl, rfl⟩
  · refine ⟨.whole, Or.inr rfl, ?_⟩
    have later := run_digits (Or.inl rfl) stack digits
    simp [Json.run, step, Phase.next, zero, digit, later]

theorem Fraction.run {text : List UInt8} (fraction : Fraction text) (stack : List Container)
    {phase : Phase} (whole : phase = .zero ∨ phase = .whole) :
    ∃ next, (next = .zero ∨ next = .whole ∨ next = .fraction) ∧
      Json.run ⟨.number phase, stack⟩ text = some ⟨.number next, stack⟩ := by
  obtain rfl | ⟨digits, ⟨nonempty, inside⟩, rfl⟩ := fraction
  · exact ⟨phase, whole.imp_right Or.inl, rfl⟩
  · refine ⟨.fraction, Or.inr (Or.inr rfl), ?_⟩
    obtain ⟨first, rest, rfl⟩ := List.exists_cons_of_ne_nil nonempty
    have here := inside first List.mem_cons_self
    have later := run_digits (Or.inr (Or.inl rfl)) stack
      fun byte member => inside byte (List.mem_cons_of_mem _ member)
    have noDigit : isDigit 0x2E = false := by decide
    rcases whole with rfl | rfl <;> simp [Json.run, step, Phase.next, here, later, noDigit]

theorem isMark_ne {byte : UInt8} (mark : isMark byte = true) :
    byte ≠ 0x2E ∧ isDigit byte = false := by
  simp only [isMark, Bool.or_eq_true, beq_iff_eq] at mark
  rcases mark with rfl | rfl <;> decide

theorem Exponent.run {text : List UInt8} (exponent : Exponent text) (stack : List Container)
    {phase : Phase} (before : phase = .zero ∨ phase = .whole ∨ phase = .fraction) :
    ∃ next, next.complete = true ∧
      Json.run ⟨.number phase, stack⟩ text = some ⟨.number next, stack⟩ := by
  obtain rfl | ⟨mark, sign, digits, isMark, inSign, ⟨nonempty, inside⟩, rfl⟩ := exponent
  · refine ⟨phase, ?_, rfl⟩
    rcases before with rfl | rfl | rfl <;> rfl
  · refine ⟨.exponent, rfl, ?_⟩
    obtain ⟨first, rest, rfl⟩ := List.exists_cons_of_ne_nil nonempty
    have here := inside first List.mem_cons_self
    have ordinary := ne_of_isDigit here
    have later := run_digits (Or.inr (Or.inr rfl)) stack
      fun byte member => inside byte (List.mem_cons_of_mem _ member)
    obtain ⟨point, digit⟩ := isMark_ne isMark
    rcases before with rfl | rfl | rfl <;> rcases inSign with rfl | rfl | rfl <;>
      simp [Json.run, step, Phase.next, here, later, isMark, point, digit, ordinary.2]

/-- A number after a minus, or without one. -/
theorem Number.run {text : List UInt8} (number : Number text) (stack : List Container) :
    ∃ byte rest phase, text = byte :: rest ∧ (byte = 0x2D ∨ isDigit byte = true) ∧
      phase.complete = true ∧
      ((beginValue stack byte).bind fun next => Json.run next rest) =
        some ⟨.number phase, stack⟩ := by
  obtain ⟨numeral, exponent, ⟨minus, whole, fraction, sign, inWhole, inFraction, rfl⟩,
    inExponent, rfl⟩ := number
  obtain ⟨phase1, isPhase1, run1⟩ := inWhole.run stack
  obtain ⟨phase2, isPhase2, run2⟩ := inFraction.run stack isPhase1
  obtain ⟨phase3, complete, run3⟩ := inExponent.run stack isPhase2
  have whole' : Json.run ⟨.number .minus, stack⟩ (whole ++ (fraction ++ exponent)) =
      some ⟨.number phase3, stack⟩ := by
    rw [run_append_of_run run1, run_append_of_run run2, run3]
  rcases sign with rfl | rfl
  · obtain ⟨byte, rest, begins, digit⟩ : ∃ byte rest, whole = byte :: rest ∧
        isDigit byte = true := by
      obtain rfl | ⟨first, rest, digit, -, -, rfl⟩ := inWhole
      · exact ⟨0x30, [], rfl, by decide⟩
      · exact ⟨first, rest, rfl, digit⟩
    subst begins
    refine ⟨byte, rest ++ (fraction ++ exponent), phase3, by simp, Or.inr digit, complete, ?_⟩
    rw [← whole', List.cons_append, Json.run]
    refine congrArg (Option.bind · _) ?_
    obtain ⟨-, -, brace, bracket, quote, minus, -⟩ := ne_of_isDigit digit
    by_cases zero : byte = 0x30
    · subst zero
      rfl
    · simp [beginValue, step, Phase.next, brace, bracket, quote, minus, zero, digit]
  · exact ⟨0x2D, _, phase3, by simp, Or.inl rfl, complete, whole'⟩

/-! ### Derivations -/

/-- A value is read to its end, from its first byte on. -/
def ReadsValue (text : List UInt8) : Prop :=
  ∃ byte rest, text = byte :: rest ∧ isWs byte = false ∧ byte ≠ 0x5D ∧
    ∀ stack, ∃ state, ((beginValue stack byte).bind fun next => run next rest) = some state ∧
      Ends stack state

/-- A text is read to the end of a value in one of some modes, inside some containers. -/
def ReadsFrom (modes : List Mode) (inside : List Container → List Container)
    (text : List UInt8) : Prop :=
  ∀ mode ∈ modes, ∀ stack, ∃ state, run ⟨mode, inside stack⟩ text = some state ∧
    Ends (inside stack) state

/-- How a derivation of each kind is read. -/
def Kind.Reads : Kind → List UInt8 → Prop
  | .value => ReadsValue
  | .element => ReadsFrom [.value, .firstElement] id
  | .member => ReadsFrom [.firstName, .name] (.object :: ·)
  | .members => ReadsFrom [.firstName] (.object :: ·)
  | .elements => ReadsFrom [.firstElement] (.array :: ·)

theorem readsValue_literal {text : List UInt8} (literal : text ∈ literals) : ReadsValue text := by
  simp only [literals, List.mem_cons, List.not_mem_nil, or_false] at literal
  rcases literal with rfl | rfl | rfl <;>
    exact ⟨_, _, rfl, by decide, by decide, fun stack => ⟨_, rfl, Or.inl rfl⟩⟩

theorem readsValue_number {text : List UInt8} (number : Number text) : ReadsValue text := by
  obtain ⟨byte, rest, -, begins, first, -, -⟩ := number.run []
  refine ⟨byte, rest, begins, ?_, ?_, fun stack => ?_⟩
  · obtain rfl | digit := first
    · decide
    · exact (ne_of_isDigit digit).1
  · obtain rfl | digit := first
    · decide
    · exact (ne_of_isDigit digit).2.1
  · obtain ⟨byte', rest', phase, begins', -, complete, reads⟩ := number.run stack
    obtain ⟨rfl, rfl⟩ := List.cons_eq_cons.mp (begins.symm.trans begins')
    exact ⟨_, reads, Or.inr ⟨phase, complete, rfl⟩⟩

theorem readsValue_string {text : List UInt8} (string : StringText text) : ReadsValue text := by
  obtain ⟨chars, rfl, -⟩ := string.run false []
  refine ⟨0x22, chars, rfl, by decide, by decide, fun stack => ⟨⟨.after, stack⟩, ?_, Or.inl rfl⟩⟩
  obtain ⟨chars', same, reads⟩ := string.run false stack
  obtain ⟨-, rfl⟩ := List.cons_eq_cons.mp same
  exact reads

/-- A container with nothing but whitespace, or read to the end of its last value. -/
theorem readsValue_container {brace closing : UInt8} (container : Container) (mode : Mode)
    (opens : ∀ stack, beginValue stack brace = some ⟨mode, container :: stack⟩)
    (nonspace : isWs brace = false ∧ brace ≠ 0x5D)
    {text : List UInt8}
    (closes : ∀ stack, run ⟨mode, container :: stack⟩ (text ++ [closing]) =
      some ⟨.after, stack⟩) :
    ReadsValue (brace :: (text ++ [closing])) := by
  refine ⟨brace, _, rfl, nonspace.1, nonspace.2, fun stack =>
    ⟨⟨.after, stack⟩, ?_, Or.inl rfl⟩⟩
  rw [opens, Option.bind_some, closes]

theorem readsFrom_element {before value after : List UInt8} (spaceBefore : Ws before)
    (inside : ReadsValue value) (spaceAfter : Ws after) :
    ReadsFrom [.value, .firstElement] id (before ++ value ++ after) := by
  obtain ⟨byte, rest, rfl, nonspace, bracket, reads⟩ := inside
  intro mode member stack
  obtain ⟨state, read, ends⟩ := reads stack
  obtain ⟨final, readAfter, endsAfter⟩ := ends.run_ws spaceAfter
  refine ⟨final, ?_, endsAfter⟩
  have skips : mode.skips = true ∧ step ⟨mode, stack⟩ byte = beginValue stack byte := by
    simp only [List.mem_cons, List.not_mem_nil, or_false] at member
    rcases member with rfl | rfl
    · exact ⟨rfl, by simp [step, nonspace]⟩
    · exact ⟨rfl, by simp [step, nonspace, bracket]⟩
  have whole : ((beginValue stack byte).bind fun next => run next (rest ++ after)) =
      some final := by
    simp only [run_append]
    rw [← Option.bind_assoc, read, Option.bind_some, readAfter]
  rw [List.append_assoc, id, run_append_of_run (run_ws skips.1 stack spaceBefore), List.cons_append,
    run, skips.2, whole]

/-- A name with its colon is read to the place of a value. -/
theorem run_member {before name space : List UInt8} (spaceBefore : Ws before)
    (string : StringText name) (spaceAfter : Ws space) {mode : Mode}
    (names : mode ∈ [Mode.firstName, .name]) (stack : List Container) :
    run ⟨mode, .object :: stack⟩ (before ++ name ++ space ++ [0x3A]) =
      some ⟨.value, .object :: stack⟩ := by
  obtain ⟨chars, rfl, reads⟩ := string.run true (.object :: stack)
  rw [if_pos rfl] at reads
  have skips : mode.skips = true ∧
      step ⟨mode, .object :: stack⟩ 0x22 = some ⟨.string true, .object :: stack⟩ := by
    simp only [List.mem_cons, List.not_mem_nil, or_false] at names
    rcases names with rfl | rfl <;> exact ⟨rfl, rfl⟩
  rw [List.append_assoc, List.append_assoc,
    run_append_of_run (run_ws skips.1 _ spaceBefore), List.cons_append, run, skips.2,
    Option.bind_some, run_append_of_run reads,
    run_append_of_run (run_ws rfl _ spaceAfter)]
  rfl

theorem readsFrom_member {before name space element : List UInt8} (spaceBefore : Ws before)
    (string : StringText name) (spaceAfter : Ws space)
    (inside : ReadsFrom [.value, .firstElement] id element) :
    ReadsFrom [.firstName, .name] (.object :: ·) (before ++ name ++ space ++ 0x3A :: element) := by
  intro mode names stack
  obtain ⟨state, reads, ends⟩ := inside .value List.mem_cons_self (.object :: stack)
  refine ⟨state, ?_, ends⟩
  rw [← List.singleton_append, ← List.append_assoc,
    run_append_of_run (run_member spaceBefore string spaceAfter names stack)]
  exact reads

/-- After the comma of a list the next of its items is read. -/
theorem readsFrom_more {first next : List Mode} {mode : Mode} {container : Container}
    {items item : List UInt8} (before : ReadsFrom first (container :: ·) items)
    (comma : ∀ stack, afterValue (container :: stack) 0x2C = some ⟨mode, container :: stack⟩)
    (continues : mode ∈ next) (inside : ReadsFrom next (container :: ·) item) :
    ReadsFrom first (container :: ·) (items ++ 0x2C :: item) := by
  intro start member stack
  obtain ⟨state, reads, ends⟩ := before start member stack
  obtain ⟨final, readsItem, endsItem⟩ := inside mode continues stack
  refine ⟨final, ?_, endsItem⟩
  rw [run_append_of_run reads, run, ends.step (by decide), comma, Option.bind_some, readsItem]

/-- Every derivation is read. -/
theorem Derives.reads {kind : Kind} {text : List UInt8} (derives : Derives kind text) :
    kind.Reads text := by
  induction derives with
  | literal literal => exact readsValue_literal literal
  | number number => exact readsValue_number number
  | string string => exact readsValue_string string
  | emptyObject space =>
    refine readsValue_container .object .firstName (fun stack => rfl) (by decide) fun stack => ?_
    rw [run_append_of_run (run_ws rfl _ space)]
    rfl
  | object _ inductionHypothesis =>
    refine readsValue_container .object .firstName (fun stack => rfl) (by decide) fun stack => ?_
    obtain ⟨state, reads, ends⟩ := inductionHypothesis .firstName List.mem_cons_self stack
    rw [run_append_of_run reads, ends.run (by decide)]
    rfl
  | emptyArray space =>
    refine readsValue_container .array .firstElement (fun stack => rfl) (by decide) fun stack => ?_
    rw [run_append_of_run (run_ws rfl _ space)]
    rfl
  | array _ inductionHypothesis =>
    refine readsValue_container .array .firstElement (fun stack => rfl) (by decide) fun stack => ?_
    obtain ⟨state, reads, ends⟩ := inductionHypothesis .firstElement List.mem_cons_self stack
    rw [run_append_of_run reads, ends.run (by decide)]
    rfl
  | element spaceBefore _ spaceAfter inductionHypothesis =>
    exact readsFrom_element spaceBefore inductionHypothesis spaceAfter
  | member spaceBefore string spaceAfter _ inductionHypothesis =>
    exact readsFrom_member spaceBefore string spaceAfter inductionHypothesis
  | oneMember _ inductionHypothesis =>
    intro mode member stack
    exact inductionHypothesis mode (List.mem_append_left [Mode.name] member) stack
  | moreMembers _ _ membersHypothesis memberHypothesis =>
    exact readsFrom_more membersHypothesis (fun stack => rfl) (by decide) memberHypothesis
  | oneElement _ inductionHypothesis =>
    intro mode member stack
    exact inductionHypothesis mode (List.mem_cons_of_mem _ member) (.array :: stack)
  | moreElements _ _ elementsHypothesis elementHypothesis =>
    have continues : Mode.value ∈ [Mode.value, .firstElement] := List.mem_cons_self
    refine readsFrom_more elementsHypothesis (fun stack => rfl) continues
      fun mode member stack => ?_
    exact elementHypothesis mode member (.array :: stack)

/-! ### Object texts -/

/-- An object is what a value that begins with a brace is. -/
theorem Derives.object_cases {rest : List UInt8} (derives : Derives .value (0x7B :: rest)) :
    ∃ inner, (Ws inner ∨ Derives .members inner) ∧ rest = inner ++ [0x7D] := by
  generalize same : 0x7B :: rest = value at derives
  cases derives with
  | literal literal =>
    subst same
    simp [literals] at literal
  | number number =>
    obtain ⟨byte, _, _, begins, first, -, -⟩ := number.run []
    obtain ⟨rfl, -⟩ := List.cons_eq_cons.mp (same.trans begins)
    exact absurd first (by decide)
  | string string =>
    obtain ⟨chars, -, rfl⟩ := string
    cases same
  | emptyObject space =>
    obtain ⟨-, rfl⟩ := List.cons_eq_cons.mp same
    exact ⟨_, Or.inl space, rfl⟩
  | object inside =>
    obtain ⟨-, rfl⟩ := List.cons_eq_cons.mp same
    exact ⟨_, Or.inr inside, rfl⟩
  | emptyArray | array => cases same

/-- The first byte of a text that is not whitespace. -/
def opening (text : List UInt8) : Option UInt8 := (text.dropWhile isWs).head?

theorem opening_append {front : List UInt8} (nonspace : ¬ Ws front) (rest : List UInt8) :
    opening (front ++ rest) = opening front := by
  have left : front.dropWhile isWs ≠ [] := fun empty =>
    nonspace (List.dropWhile_eq_nil_iff.mp empty)
  rw [opening, opening, List.dropWhile_append, if_neg (by simpa using left),
    List.head?_append_of_ne_nil _ left]

theorem opening_ws {space : List UInt8} (ws : Ws space) {byte : UInt8}
    (nonspace : isWs byte = false) (rest : List UInt8) :
    opening (space ++ byte :: rest) = some byte := by
  rw [opening, List.dropWhile_append_of_pos ws, List.dropWhile_cons_of_neg (by simp [nonspace])]
  rfl

theorem MembersText.run {text : List UInt8} (object : MembersText text) :
    Json.run ⟨.value, []⟩ text = some ⟨.after, []⟩ ∧ opening text = some 0x7B := by
  obtain ⟨before, members, after, spaceBefore, derives, spaceAfter, rfl⟩ := object
  obtain ⟨state, reads, ends⟩ := derives.reads .firstName List.mem_cons_self []
  refine ⟨?_, opening_ws spaceBefore (by decide) _⟩
  have opens : Json.run ⟨.value, []⟩ (before ++ [0x7B]) = some ⟨.firstName, [.object]⟩ := by
    rw [run_append_of_run (run_ws rfl _ spaceBefore)]
    rfl
  rw [← List.singleton_append, ← List.append_assoc, run_append_of_run opens,
    run_append_of_run reads, ends.run (by decide)]
  exact run_ws rfl [] spaceAfter

/-- The object texts with a member, by the machine. -/
theorem membersText_of_run {text : List UInt8}
    (reads : run ⟨.value, []⟩ text = some ⟨.after, []⟩) (opens : opening text = some 0x7B)
    (quote : 0x22 ∈ text) : MembersText text := by
  have start : Invariant ⟨.value, []⟩ [] := ws_nil
  have element : Derives .element text := start.run reads
  cases element with
  | @element before value after spaceBefore inside spaceAfter =>
  obtain ⟨byte, rest, rfl, nonspace, -, -⟩ := inside.reads
  rw [List.append_assoc, List.cons_append, opening_ws spaceBefore nonspace,
    Option.some_inj] at opens
  subst opens
  obtain ⟨inner, space | members, rfl⟩ := inside.object_cases
  · have absent : ∀ stretch, Ws stretch → (0x22 : UInt8) ∉ stretch :=
      fun _ ws member => absurd (ws _ member) (by decide)
    simp [absent before spaceBefore, absent inner space, absent after spaceAfter] at quote
  · refine ⟨before, inner, after, spaceBefore, members, spaceAfter, ?_⟩
    simp only [List.append_assoc, List.cons_append, List.nil_append]

/-! ### Keys -/

/-- The bytes of the names in keys: digits, small letters and the underscore. -/
def isWord (byte : UInt8) : Bool :=
  isDigit byte || (0x61 ≤ byte && byte ≤ 0x7A) || byte == 0x5F

/-- A name in quotation marks, with its colon. -/
def Key (text : List UInt8) : Prop :=
  ∃ letters, letters ≠ [] ∧ (∀ byte ∈ letters, isWord byte = true) ∧
    text = 0x22 :: (letters ++ [0x22, 0x3A])

theorem isPlain_of_isWord {byte : UInt8} (word : isWord byte = true) :
    isPlain byte = true ∧ isDelimiter byte = false ∧ byte ≠ 0x3A := by
  have low : 0x20 ≤ byte := by
    simp only [isWord, isDigit, Bool.or_eq_true, Bool.and_eq_true, decide_eq_true_eq,
      beq_iff_eq] at word
    rcases word with (digit | letter) | rfl
    · exact UInt8.le_trans (show 0x20 ≤ 0x30 by decide) digit.1
    · exact UInt8.le_trans (show 0x20 ≤ 0x61 by decide) letter.1
    · decide
  have different : ∀ other, isWord other = false → byte ≠ other := by
    rintro other fails rfl
    rw [word] at fails
    cases fails
  refine ⟨?_, ?_, different _ (by decide)⟩
  · simp [isPlain, low, different 0x22 (by decide), different 0x5C (by decide)]
  · simp [isDelimiter, isWs, different 0x20 (by decide), different 0x09 (by decide),
      different 0x0A (by decide), different 0x0D (by decide), different 0x2C (by decide),
      different 0x7D (by decide), different 0x5D (by decide)]

theorem Chars.of_words {letters : List UInt8} (words : ∀ byte ∈ letters, isWord byte = true) :
    Chars letters := by
  induction letters with
  | nil => exact .nil
  | cons letter letters inductionHypothesis =>
    exact .plain (isPlain_of_isWord (words letter List.mem_cons_self)).1
      (inductionHypothesis fun byte member => words byte (List.mem_cons_of_mem _ member))

/-- After a value come only delimiters. -/
theorem afterValue_eq_none {byte : UInt8} (other : isDelimiter byte = false)
    (stack : List Container) : afterValue stack byte = none := by
  simp only [isDelimiter, Bool.or_eq_false_iff, beq_eq_false_iff_ne] at other
  obtain ⟨⟨⟨nonspace, comma⟩, brace⟩, bracket⟩ := other
  rcases stack with _ | ⟨container, rest⟩
  · simp [afterValue, nonspace]
  · cases container <;> simp [afterValue, nonspace, comma, brace, bracket]

/-- The machine is in an object, where a quotation mark begins a name or, after a backslash, goes
on with one. -/
def State.AwaitsKey (state : State) : Prop :=
  state.stack.head? = some .object ∧ state.mode ∈ [.firstName, .name, .escape true]

/-- The letters of a key with what ends it, inside a string. -/
theorem run_letters {letters : List UInt8} (words : ∀ byte ∈ letters, isWord byte = true)
    (isName : Bool) (stack : List Container) :
    run ⟨.string isName, stack⟩ (letters ++ [0x22, 0x3A]) =
      if isName = true ∧ stack.head? = some .object then some ⟨.value, stack⟩ else none := by
  rw [run_append_of_run ((Chars.of_words words).run isName stack)]
  cases isName with
  | true =>
    have colon : isWs 0x3A = false := by decide
    simp [run, step, inString, colon]
  | false =>
    have colon := afterValue_eq_none (show isDelimiter 0x3A = false by decide) stack
    simp [run, step, inString, colon]

/-- After a string has ended there are no letters. -/
theorem run_letters_outside {letters : List UInt8} (nonempty : letters ≠ [])
    (words : ∀ byte ∈ letters, isWord byte = true) {mode : Mode}
    (outside : mode = .after ∨ mode = .afterName) (stack : List Container) (rest : List UInt8) :
    run ⟨mode, stack⟩ (letters ++ rest) = none := by
  obtain ⟨letter, letters, rfl⟩ := List.exists_cons_of_ne_nil nonempty
  obtain ⟨-, delimiter, colon⟩ := isPlain_of_isWord (words letter List.mem_cons_self)
  have nonspace : isWs letter = false := by
    simp only [isDelimiter, Bool.or_eq_false_iff] at delimiter
    exact delimiter.1.1.1
  rw [List.cons_append, run]
  obtain rfl | rfl := outside
  · rw [show step ⟨.after, stack⟩ letter = none from afterValue_eq_none delimiter stack]
    rfl
  · simp [step, nonspace, colon]

theorem Key.run {key : List UInt8} (isKey : Key key) {state : State}
    (awaits : state.AwaitsKey) : Json.run state key = some ⟨.value, state.stack⟩ := by
  obtain ⟨letters, -, words, rfl⟩ := isKey
  obtain ⟨mode, stack⟩ := state
  obtain ⟨object, names⟩ := awaits
  have string : step ⟨mode, stack⟩ 0x22 = some ⟨.string true, stack⟩ := by
    simp only [List.mem_cons, List.not_mem_nil, or_false] at names
    rcases names with rfl | rfl | rfl <;> rfl
  rw [Json.run, string, Option.bind_some, run_letters words, if_pos ⟨rfl, object⟩]

/-- A key is read in one way only: as the end of a name and its colon. -/
theorem Key.awaitsKey {key : List UInt8} (isKey : Key key) {state next : State}
    {text : List UInt8} (invariant : Invariant state text)
    (reads : Json.run state key = some next) : state.AwaitsKey := by
  obtain ⟨letters, nonempty, words, rfl⟩ := isKey
  obtain ⟨mode, stack⟩ := state
  rw [Json.run] at reads
  -- the quotation mark begins a string, ends one or is refused
  have refused : step ⟨mode, stack⟩ 0x22 = none → State.AwaitsKey ⟨mode, stack⟩ := by
    intro stuck
    rw [stuck] at reads
    cases reads
  have begins : ∀ isName, step ⟨mode, stack⟩ 0x22 = some ⟨.string isName, stack⟩ →
      isName = true ∧ stack.head? = some .object := by
    intro isName string
    rw [string, Option.bind_some, run_letters words] at reads
    by_contra other
    rw [if_neg other] at reads
    cases reads
  cases mode with
  | value | firstElement => exact absurd (begins false rfl).1 Bool.false_ne_true
  | firstName | name => exact ⟨(begins true rfl).2, by simp⟩
  | string isName =>
    have ends : step ⟨.string isName, stack⟩ 0x22 =
      some ⟨if isName then .afterName else .after, stack⟩ := rfl
    have outside := run_letters_outside nonempty words
      (show (if isName then Mode.afterName else .after) = .after ∨
        (if isName then Mode.afterName else .after) = .afterName by cases isName <;> simp)
      stack [0x22, 0x3A]
    rw [ends, Option.bind_some, outside] at reads
    cases reads
  | escape isName =>
    obtain ⟨rfl, object⟩ := begins isName rfl
    exact ⟨object, by simp⟩
  | hex | afterName => exact refused rfl
  | number phase =>
    have stops : phase.next 0x22 = none := by cases phase <;> rfl
    refine refused ?_
    simp [step, stops, afterValue_eq_none (show isDelimiter 0x22 = false by decide)]
  | literal rest =>
    obtain ⟨_, read, -, inside, -⟩ := invariant
    have noQuote : ∀ text ∈ literals, (0x22 : UInt8) ∉ text := by decide
    refine refused ?_
    cases rest with
    | nil => rfl
    | cons head tail =>
      have different : 0x22 ≠ head := by
        rintro rfl
        exact noQuote _ inside (List.mem_append_right read List.mem_cons_self)
      simp [step, different]
  | after => exact refused (afterValue_eq_none (by decide) stack)

/-! ### Numbers in their place -/

/-- The bytes a number may have. -/
def isNumberByte (byte : UInt8) : Bool :=
  isDigit byte || isMark byte || byte == 0x2E || byte == 0x2B || byte == 0x2D

theorem isDelimiter_of_isNumberByte {byte : UInt8} (inNumber : isNumberByte byte = true) :
    isDelimiter byte = false := by
  rw [Bool.eq_false_iff]
  intro delimiter
  simp only [isDelimiter, isWs, Bool.or_eq_true, beq_iff_eq] at delimiter
  rcases delimiter with (((((rfl | rfl) | rfl) | rfl) | rfl) | rfl) | rfl <;>
    exact absurd inNumber (by decide)

theorem Phase.isNumberByte_of_next {phase next : Phase} {byte : UInt8}
    (continues : phase.next byte = some next) : isNumberByte byte = true := by
  by_contra other
  have zero : byte ≠ 0x30 := by
    rintro rfl
    exact other (by decide)
  simp only [isNumberByte, Bool.or_eq_true, beq_iff_eq, not_or, Bool.not_eq_true] at other
  obtain ⟨⟨⟨⟨digit, mark⟩, point⟩, plus⟩, minus⟩ := other
  cases phase <;> simp [Phase.next, zero, digit, mark, point, plus, minus] at continues

/-- A stretch of a number's bytes inside a number is more of it. -/
theorem NumberTo.run {phase : Phase} {read span : List UInt8} {stack : List Container}
    {final : State} (numberTo : NumberTo phase read)
    (inNumber : ∀ byte ∈ span, isNumberByte byte = true)
    (reads : Json.run ⟨.number phase, stack⟩ span = some final) :
    ∃ last, final = ⟨.number last, stack⟩ ∧ NumberTo last (read ++ span) := by
  induction span generalizing phase read with
  | nil =>
    cases reads
    exact ⟨phase, rfl, (List.append_nil read).symm ▸ numberTo⟩
  | cons byte span inductionHypothesis =>
    have delimiter := isDelimiter_of_isNumberByte (inNumber byte List.mem_cons_self)
    rw [Json.run, Option.bind_eq_some_iff] at reads
    obtain ⟨next, taken, later⟩ := reads
    cases continues : phase.next byte with
    | none => simp [step, continues, afterValue_eq_none delimiter] at taken
    | some phase' =>
      simp only [step, continues, Option.some_inj] at taken
      subst taken
      have rest := inductionHypothesis (numberTo.next continues)
        (fun other member => inNumber other (List.mem_cons_of_mem _ member)) later
      rwa [List.append_assoc] at rest

theorem numberTo_of_beginValue {stack : List Container} {byte : UInt8} {next : State}
    (inNumber : isNumberByte byte = true) (taken : beginValue stack byte = some next) :
    ∃ phase, next = ⟨.number phase, stack⟩ ∧ NumberTo phase [byte] := by
  have different : ∀ other, isNumberByte other = false → byte ≠ other := by
    rintro other fails rfl
    rw [inNumber] at fails
    cases fails
  rw [beginValue, if_neg (different _ (by decide)), if_neg (different _ (by decide)),
    if_neg (different _ (by decide))] at taken
  split at taken
  · rename_i minus
    cases taken
    exact ⟨.minus, rfl, minus ▸ rfl⟩
  split at taken
  · rename_i zero
    cases taken
    exact ⟨.zero, rfl, [], Or.inl rfl, zero ▸ rfl⟩
  split at taken
  · rename_i zero digit
    cases taken
    exact ⟨.whole, rfl, [], byte, [], Or.inl rfl, digit, zero, List.forall_mem_nil _, rfl⟩
  · rw [if_neg (different _ (by decide)), if_neg (different _ (by decide)),
      if_neg (different _ (by decide))] at taken
    cases taken

/-- A whole stretch of a number's bytes where a value begins is a number, and what follows is
read after it. -/
theorem number_of_run {stack : List Container} {span after : List UInt8} (nonempty : span ≠ [])
    (inNumber : ∀ byte ∈ span, isNumberByte byte = true)
    (stops : ∀ byte ∈ after.head?, isNumberByte byte = false)
    (reads : run ⟨.value, stack⟩ (span ++ after) = some ⟨.after, []⟩) :
    Number span ∧ run ⟨.after, stack⟩ after = some ⟨.after, []⟩ := by
  obtain ⟨byte, rest, rfl⟩ := List.exists_cons_of_ne_nil nonempty
  have isNumber := inNumber byte List.mem_cons_self
  obtain ⟨middle, readsSpan, readsAfter⟩ := run_append_eq_some.mp reads
  rw [run, Option.bind_eq_some_iff] at readsSpan
  obtain ⟨next, taken, later⟩ := readsSpan
  have nonspace : isWs byte = false := by
    have other := isDelimiter_of_isNumberByte isNumber
    simp only [isDelimiter, Bool.or_eq_false_iff] at other
    exact other.1.1.1
  simp only [step, nonspace, Bool.false_eq_true, if_false] at taken
  obtain ⟨phase, rfl, numberTo⟩ := numberTo_of_beginValue isNumber taken
  obtain ⟨last, rfl, whole⟩ := numberTo.run
    (fun other member => inNumber other (List.mem_cons_of_mem _ member)) later
  cases after with
  | nil => cases readsAfter
  | cons next after =>
    have continues : last.next next = none := by
      by_contra continues
      obtain ⟨phase', here⟩ := Option.ne_none_iff_exists'.mp continues
      have other := stops next rfl
      rw [Phase.isNumberByte_of_next here] at other
      cases other
    cases complete : last.complete with
    | false => simp [run, step, continues, complete] at readsAfter
    | true =>
      refine ⟨whole.number complete, ?_⟩
      simpa [run, step, continues, complete] using readsAfter

theorem Number.ends {text : List UInt8} (number : Number text) (stack : List Container) :
    ∃ state, Json.run ⟨.value, stack⟩ text = some state ∧ Ends stack state := by
  have element := readsFrom_element ws_nil (readsValue_number number) ws_nil
  rw [List.nil_append, List.append_nil] at element
  exact element .value List.mem_cons_self stack

/-! ### Fields -/

/-- Members with a number each, every one after a comma. -/
inductive Fields : List UInt8 → Prop where
  | nil : Fields []
  | cons {key number rest : List UInt8} (isKey : Key key) (isNumber : Number number)
      (fields : Fields rest) : Fields (0x2C :: (key ++ number ++ rest))

theorem Fields.run {fields : List UInt8} (isFields : Fields fields) {stack : List Container}
    {state : State} (ends : Ends (.object :: stack) state) :
    ∃ final, Json.run state fields = some final ∧ Ends (.object :: stack) final := by
  induction isFields generalizing state with
  | nil => exact ⟨state, rfl, ends⟩
  | cons isKey isNumber _ inductionHypothesis =>
    obtain ⟨middle, readsNumber, endsNumber⟩ := isNumber.ends (.object :: stack)
    obtain ⟨final, reads, endsFields⟩ := inductionHypothesis endsNumber
    have comma : step ⟨.after, .object :: stack⟩ 0x2C = some ⟨.name, .object :: stack⟩ := rfl
    refine ⟨final, ?_, endsFields⟩
    rw [ends.run (by decide), Json.run, comma, Option.bind_some, List.append_assoc,
      run_append_of_run (isKey.run ⟨rfl, by simp⟩), run_append_of_run readsNumber, reads]

/-- A state that ends a value goes on like the one after it. -/
theorem Ends.run_of_after {stack : List Container} {state : State} (ends : Ends stack state)
    {after : List UInt8} (inside : stack ≠ [])
    (reads : Json.run ⟨.after, stack⟩ after = some ⟨.after, []⟩) :
    Json.run state after = some ⟨.after, []⟩ := by
  cases after with
  | nil =>
    cases reads
    exact absurd rfl inside
  | cons byte rest =>
    cases delimiter : isDelimiter byte with
    | true => rw [ends.run delimiter, reads]
    | false =>
      rw [Json.run, show Json.step ⟨.after, stack⟩ byte = none from
        afterValue_eq_none delimiter stack] at reads
      cases reads

/-- In an object text a key and the number after it may be exchanged for another key and number,
and fields may be added. -/
theorem MembersText.exchange
    {before key blanks span after newKey newBlanks number fields : List UInt8}
    (object : MembersText (before ++ key ++ blanks ++ span ++ after)) (isKey : Key key)
    (space : Ws blanks) (nonempty : span ≠ [])
    (inNumber : ∀ byte ∈ span, isNumberByte byte = true)
    (stops : ∀ byte ∈ after.head?, isNumberByte byte = false)
    (isNewKey : Key newKey) (newSpace : Ws newBlanks) (isNumber : Number span → Number number)
    (isFields : Fields fields) :
    MembersText (before ++ newKey ++ newBlanks ++ number ++ fields ++ after) := by
  obtain ⟨reads, opens⟩ := object.run
  simp only [List.append_assoc] at reads opens
  obtain ⟨state, readsBefore, readsKey⟩ := run_append_eq_some.mp reads
  obtain ⟨next, readsKey, readsRest⟩ := run_append_eq_some.mp readsKey
  have start : Invariant ⟨.value, []⟩ [] := ws_nil
  have awaits := isKey.awaitsKey (start.run readsBefore) readsKey
  rw [isKey.run awaits, Option.some_inj] at readsKey
  subst readsKey
  rw [run_append_of_run (run_ws rfl _ space)] at readsRest
  obtain ⟨spanNumber, readsAfter⟩ := number_of_run nonempty inNumber stops readsRest
  obtain ⟨stack, nested⟩ : ∃ stack, state.stack = .object :: stack := by
    have head := awaits.1
    cases inside : state.stack with
    | nil => rw [inside] at head; cases head
    | cons container stack =>
      rw [inside, List.head?_cons, Option.some_inj] at head
      exact ⟨stack, head ▸ rfl⟩
  have nonspace : ¬ Ws before := by
    intro space
    rw [run_ws rfl [] space, Option.some_inj] at readsBefore
    rw [← readsBefore] at nested
    cases nested
  obtain ⟨numbered, readsNumber, endsNumber⟩ := (isNumber spanNumber).ends state.stack
  rw [nested] at readsNumber endsNumber readsAfter
  obtain ⟨final, readsFields, endsFields⟩ := isFields.run endsNumber
  simp only [List.append_assoc]
  refine membersText_of_run ?_ ?_ ?_
  · rw [run_append_of_run readsBefore, run_append_of_run (isNewKey.run awaits),
      run_append_of_run (run_ws rfl _ newSpace), nested, run_append_of_run readsNumber,
      run_append_of_run readsFields,
      endsFields.run_of_after (List.cons_ne_nil _ _) readsAfter]
  · rw [opening_append nonspace, ← opens, opening_append nonspace]
  · obtain ⟨letters, -, -, rfl⟩ := isNewKey
    simp

/-- Fields may be inserted before the last closing brace of an object text. -/
theorem MembersText.insertFields {front rest fields : List UInt8} (isFields : Fields fields)
    (object : MembersText (front ++ 0x7D :: rest)) (fresh : (0x7D : UInt8) ∉ rest) :
    MembersText (front ++ fields ++ 0x7D :: rest) := by
  induction isFields generalizing front with
  | nil => rwa [List.append_nil]
  | @cons key number fields isKey isNumber _ inductionHypothesis =>
    obtain ⟨letters, -, words, rfl⟩ := isKey
    have name : StringText (0x22 :: (letters ++ [0x22])) := ⟨letters, .of_words words, rfl⟩
    have element := Derives.element ws_nil (.number isNumber) ws_nil
    have member := Derives.member ws_nil name ws_nil element
    have inserted := inductionHypothesis (object.insert fresh member)
    simpa only [List.append_assoc, List.cons_append, List.nil_append, List.append_nil]
      using inserted

end Json
