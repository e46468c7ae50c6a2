/-
This file is a library about JSON texts as bytes: a machine that reads them.

The machine reads one byte after the other. Its state is what it is in the middle
of and the containers that are open. What it accepts is derived by the grammar:
an invariant describes the text read so far (`Invariant`), every step keeps it
(`Invariant.step`), and so does every run. What one reads of a stretch depends on
the state before it only, so two stretches that lead from one state to the same
state may be exchanged in any text.
-/

import ControllerBridge.Library.Json

namespace Json

open Decimal

/-! ### The machine -/

inductive Container where
  | object
  | array
  deriving DecidableEq

/-- How far a number has been read. -/
inductive Phase where
  | minus
  | zero
  | whole
  | point
  | fraction
  | mark
  | sign
  | exponent
  deriving DecidableEq

/-- The phase after one more byte, if the byte continues the number. -/
def Phase.next : Phase → UInt8 → Option Phase
  | .minus, byte => if byte = 0x30 then some .zero else if isDigit byte then some .whole else none
  | .zero, byte => if byte = 0x2E then some .point else if isMark byte then some .mark else none
  | .whole, byte =>
    if isDigit byte then some .whole
    else if byte = 0x2E then some .point
    else if isMark byte then some .mark
    else none
  | .point, byte => if isDigit byte then some .fraction else none
  | .fraction, byte =>
    if isDigit byte then some .fraction else if isMark byte then some .mark else none
  | .mark, byte =>
    if byte = 0x2B ∨ byte = 0x2D then some .sign
    else if isDigit byte then some .exponent
    else none
  | .sign, byte => if isDigit byte then some .exponent else none
  | .exponent, byte => if isDigit byte then some .exponent else none

/-- The number may end here. -/
def Phase.complete : Phase → Bool
  | .zero | .whole | .fraction | .exponent => true
  | .minus | .point | .mark | .sign => false

/-- What the machine is in the middle of; a string may be the name of a member. -/
inductive Mode where
  | value
  | firstElement
  | firstName
  | name
  | string (isName : Bool)
  | escape (isName : Bool)
  | hex (isName : Bool) (more : Nat)
  | afterName
  | number (phase : Phase)
  | literal (rest : List UInt8)
  | after
  deriving DecidableEq

structure State where
  mode : Mode
  stack : List Container
  deriving DecidableEq

/-- The first byte of a value. -/
def beginValue (stack : List Container) (byte : UInt8) : Option State :=
  if byte = 0x7B then some ⟨.firstName, .object :: stack⟩
  else if byte = 0x5B then some ⟨.firstElement, .array :: stack⟩
  else if byte = 0x22 then some ⟨.string false, stack⟩
  else if byte = 0x2D then some ⟨.number .minus, stack⟩
  else if byte = 0x30 then some ⟨.number .zero, stack⟩
  else if isDigit byte then some ⟨.number .whole, stack⟩
  else if byte = 0x74 then some ⟨.literal [0x72, 0x75, 0x65], stack⟩
  else if byte = 0x66 then some ⟨.literal [0x61, 0x6C, 0x73, 0x65], stack⟩
  else if byte = 0x6E then some ⟨.literal [0x75, 0x6C, 0x6C], stack⟩
  else none

/-- A byte after a value. -/
def afterValue (stack : List Container) (byte : UInt8) : Option State :=
  if isWs byte then some ⟨.after, stack⟩
  else match stack with
    | [] => none
    | .object :: rest =>
      if byte = 0x2C then some ⟨.name, stack⟩
      else if byte = 0x7D then some ⟨.after, rest⟩
      else none
    | .array :: rest =>
      if byte = 0x2C then some ⟨.value, stack⟩
      else if byte = 0x5D then some ⟨.after, rest⟩
      else none

/-- A byte of a string. -/
def inString (isName : Bool) (stack : List Container) (byte : UInt8) : Option State :=
  if byte = 0x22 then some ⟨if isName then .afterName else .after, stack⟩
  else if byte = 0x5C then some ⟨.escape isName, stack⟩
  else if isPlain byte then some ⟨.string isName, stack⟩
  else none

def step (state : State) (byte : UInt8) : Option State :=
  match state.mode with
  | .value =>
    if isWs byte then some ⟨.value, state.stack⟩ else beginValue state.stack byte
  | .firstElement =>
    if isWs byte then some ⟨.firstElement, state.stack⟩
    else if byte = 0x5D then afterValue state.stack byte
    else beginValue state.stack byte
  | .firstName =>
    if isWs byte then some ⟨.firstName, state.stack⟩
    else if byte = 0x7D then afterValue state.stack byte
    else if byte = 0x22 then some ⟨.string true, state.stack⟩
    else none
  | .name =>
    if isWs byte then some ⟨.name, state.stack⟩
    else if byte = 0x22 then some ⟨.string true, state.stack⟩
    else none
  | .string isName => inString isName state.stack byte
  | .escape isName =>
    if isEscape byte then some ⟨.string isName, state.stack⟩
    else if byte = 0x75 then some ⟨.hex isName 3, state.stack⟩
    else none
  | .hex isName more =>
    if isHex byte then
      match more with
      | 0 => some ⟨.string isName, state.stack⟩
      | more + 1 => some ⟨.hex isName more, state.stack⟩
    else none
  | .afterName =>
    if isWs byte then some ⟨.afterName, state.stack⟩
    else if byte = 0x3A ∧ state.stack.head? = some .object then some ⟨.value, state.stack⟩
    else none
  | .number phase =>
    match phase.next byte with
    | some next => some ⟨.number next, state.stack⟩
    | none => if phase.complete then afterValue state.stack byte else none
  | .literal rest =>
    match rest with
    | [] => none
    | head :: tail =>
      if byte = head then some ⟨if tail = [] then .after else .literal tail, state.stack⟩ else none
  | .after => afterValue state.stack byte

/-- The machine reads a text. -/
def run : State → List UInt8 → Option State
  | state, [] => some state
  | state, byte :: rest => (step state byte).bind fun next => run next rest

theorem run_append (state : State) (first second : List UInt8) :
    run state (first ++ second) = (run state first).bind fun next => run next second := by
  induction first generalizing state with
  | nil => rfl
  | cons byte rest inductionHypothesis =>
    rw [List.cons_append, run, run, Option.bind_assoc]
    exact congrArg _ (funext inductionHypothesis)

theorem run_append_eq_some {state final : State} {first second : List UInt8} :
    run state (first ++ second) = some final ↔
      ∃ next, run state first = some next ∧ run next second = some final := by
  rw [run_append, Option.bind_eq_some_iff]

theorem run_append_of_run {state next : State} {first : List UInt8}
    (reads : run state first = some next) (second : List UInt8) :
    run state (first ++ second) = run next second := by
  rw [run_append, reads, Option.bind_some]

/-! ### What has been read -/

/-- Nothing of a list, or some of it with a comma. -/
def Part (kind : Kind) (text : List UInt8) : Prop :=
  text = [] ∨ ∃ items, Derives kind items ∧ text = items ++ [0x2C]

/-- The text read up to a place where a value may begin. -/
def Before : List Container → List UInt8 → Prop
  | [], text => Ws text
  | .object :: rest, text =>
    ∃ out part spaceName name spaceColon space, Before rest out ∧ Part .members part ∧
      Ws spaceName ∧ StringText name ∧ Ws spaceColon ∧ Ws space ∧
      text = out ++ 0x7B :: (part ++ spaceName ++ name ++ spaceColon ++ 0x3A :: space)
  | .array :: rest, text =>
    ∃ out part space, Before rest out ∧ Part .elements part ∧ Ws space ∧
      text = out ++ 0x5B :: (part ++ space)

/-- The text read up to a place where a name may begin. -/
def BeforeName (stack : List Container) (text : List UInt8) : Prop :=
  ∃ rest out part space, stack = .object :: rest ∧ Before rest out ∧ Part .members part ∧
    Ws space ∧ text = out ++ 0x7B :: (part ++ space)

/-- The text read up to a place where a string begins. -/
def BeforeString : Bool → List Container → List UInt8 → Prop
  | false => Before
  | true => BeforeName

/-- The text read with a value at its end. -/
def After : List Container → List UInt8 → Prop
  | [], text => Derives .element text
  | .object :: rest, text =>
    ∃ out members, Before rest out ∧ Derives .members members ∧ text = out ++ 0x7B :: members
  | .array :: rest, text =>
    ∃ out elements, Before rest out ∧ Derives .elements elements ∧ text = out ++ 0x5B :: elements

/-- What has been read of a number. -/
def NumberTo : Phase → List UInt8 → Prop
  | .minus, text => text = [0x2D]
  | .zero, text => ∃ minus, (minus = [] ∨ minus = [0x2D]) ∧ text = minus ++ [0x30]
  | .whole, text =>
    ∃ minus first rest, (minus = [] ∨ minus = [0x2D]) ∧ isDigit first = true ∧ first ≠ 0x30 ∧
      (∀ byte ∈ rest, isDigit byte = true) ∧ text = minus ++ first :: rest
  | .point, text =>
    ∃ minus whole, (minus = [] ∨ minus = [0x2D]) ∧ Whole whole ∧ text = minus ++ whole ++ [0x2E]
  | .fraction, text =>
    ∃ minus whole digits, (minus = [] ∨ minus = [0x2D]) ∧ Whole whole ∧ Digits digits ∧
      text = minus ++ whole ++ 0x2E :: digits
  | .mark, text => ∃ numeral mark, Numeral numeral ∧ isMark mark = true ∧ text = numeral ++ [mark]
  | .sign, text =>
    ∃ numeral mark sign, Numeral numeral ∧ isMark mark = true ∧ (sign = 0x2B ∨ sign = 0x2D) ∧
      text = numeral ++ [mark, sign]
  | .exponent, text =>
    ∃ numeral mark sign digits, Numeral numeral ∧ isMark mark = true ∧
      (sign = [] ∨ sign = [0x2B] ∨ sign = [0x2D]) ∧ Digits digits ∧
      text = numeral ++ mark :: (sign ++ digits)

/-- What has been read when the machine is in a state. -/
def Invariant (state : State) (text : List UInt8) : Prop :=
  match state.mode with
  | .value => Before state.stack text
  | .firstElement =>
    ∃ rest out space, state.stack = .array :: rest ∧ Before rest out ∧ Ws space ∧
      text = out ++ 0x5B :: space
  | .firstName =>
    ∃ rest out space, state.stack = .object :: rest ∧ Before rest out ∧ Ws space ∧
      text = out ++ 0x7B :: space
  | .name => BeforeName state.stack text
  | .string isName =>
    ∃ front chars, BeforeString isName state.stack front ∧ Chars chars ∧
      text = front ++ 0x22 :: chars
  | .escape isName =>
    ∃ front chars, BeforeString isName state.stack front ∧ Chars chars ∧
      text = front ++ 0x22 :: (chars ++ [0x5C])
  | .hex isName more =>
    ∃ front chars digits, BeforeString isName state.stack front ∧ Chars chars ∧
      digits.length + more = 3 ∧ (∀ digit ∈ digits, isHex digit = true) ∧
      text = front ++ 0x22 :: (chars ++ 0x5C :: 0x75 :: digits)
  | .afterName =>
    ∃ front name space, BeforeName state.stack front ∧ StringText name ∧ Ws space ∧
      text = front ++ name ++ space
  | .number phase => ∃ front read, Before state.stack front ∧ NumberTo phase read ∧
      text = front ++ read
  | .literal rest => ∃ front read, Before state.stack front ∧ read ++ rest ∈ literals ∧
      text = front ++ read
  | .after => After state.stack text

/-! ### The invariant, byte by byte -/

theorem Before.append_ws {stack : List Container} {text space : List UInt8}
    (before : Before stack text) (ws : Ws space) : Before stack (text ++ space) := by
  cases stack with
  | nil => exact Ws.append before ws
  | cons container rest =>
    cases container with
    | object =>
      obtain ⟨out, part, spaceName, name, spaceColon, space', outside, inPart, wsName, string,
        wsColon, ws', rfl⟩ := before
      refine ⟨out, part, spaceName, name, spaceColon, space' ++ space, outside, inPart, wsName,
        string, wsColon, ws'.append ws, ?_⟩
      simp only [List.append_assoc, List.cons_append]
    | array =>
      obtain ⟨out, part, space', outside, inPart, ws', rfl⟩ := before
      refine ⟨out, part, space' ++ space, outside, inPart, ws'.append ws, ?_⟩
      simp only [List.append_assoc, List.cons_append]

theorem After.append_ws {stack : List Container} {text space : List UInt8}
    (after : After stack text) (ws : Ws space) : After stack (text ++ space) := by
  cases stack with
  | nil => exact Derives.append_ws after (by decide) ws
  | cons container rest =>
    cases container with
    | object =>
      obtain ⟨out, members, outside, derives, rfl⟩ := after
      refine ⟨out, members ++ space, outside, derives.append_ws (by decide) ws, ?_⟩
      rw [List.append_assoc, List.cons_append]
    | array =>
      obtain ⟨out, elements, outside, derives, rfl⟩ := after
      refine ⟨out, elements ++ space, outside, derives.append_ws (by decide) ws, ?_⟩
      rw [List.append_assoc, List.cons_append]

theorem Part.members {part member : List UInt8} (inPart : Part .members part)
    (derives : Derives .member member) : Derives .members (part ++ member) := by
  rcases inPart with rfl | ⟨items, before, rfl⟩
  · exact .oneMember derives
  · rw [List.append_assoc]
    exact .moreMembers before derives

theorem Part.elements {part element : List UInt8} (inPart : Part .elements part)
    (derives : Derives .element element) : Derives .elements (part ++ element) := by
  rcases inPart with rfl | ⟨items, before, rfl⟩
  · exact .oneElement derives
  · rw [List.append_assoc]
    exact .moreElements before derives

/-- A value where one may begin. -/
theorem Before.value {stack : List Container} {text value : List UInt8}
    (before : Before stack text) (derives : Derives .value value) :
    After stack (text ++ value) := by
  cases stack with
  | nil =>
    have element := Derives.element before derives ws_nil
    rwa [List.append_nil] at element
  | cons container rest =>
    cases container with
    | object =>
      obtain ⟨out, part, spaceName, name, spaceColon, space, outside, inPart, wsName, string,
        wsColon, ws, rfl⟩ := before
      refine ⟨out, _, outside, inPart.members
        (.member wsName string wsColon (.element ws derives ws_nil)), ?_⟩
      simp only [List.append_assoc, List.cons_append, List.append_nil]
    | array =>
      obtain ⟨out, part, space, outside, inPart, ws, rfl⟩ := before
      refine ⟨out, _, outside, inPart.elements (.element ws derives ws_nil), ?_⟩
      simp only [List.append_assoc, List.cons_append, List.append_nil]

theorem BeforeName.append_ws {stack : List Container} {text space : List UInt8}
    (before : BeforeName stack text) (ws : Ws space) : BeforeName stack (text ++ space) := by
  obtain ⟨rest, out, part, space', rfl, outside, inPart, ws', rfl⟩ := before
  refine ⟨rest, out, part, space' ++ space, rfl, outside, inPart, ws'.append ws, ?_⟩
  simp only [List.append_assoc, List.cons_append]

/-- A name with its colon where a name may begin. -/
theorem BeforeName.colon {stack : List Container} {front name space : List UInt8}
    (before : BeforeName stack front) (string : StringText name) (ws : Ws space) :
    Before stack (front ++ name ++ space ++ [0x3A]) := by
  obtain ⟨rest, out, part, space', rfl, outside, inPart, ws', rfl⟩ := before
  refine ⟨out, part, space', name, space, [], outside, inPart, ws', string, ws, ws_nil, ?_⟩
  simp only [List.append_assoc, List.cons_append]

theorem invariant_afterValue {stack : List Container} {text : List UInt8} {byte : UInt8}
    {next : State} (after : After stack text) (taken : afterValue stack byte = some next) :
    Invariant next (text ++ [byte]) := by
  unfold afterValue at taken
  split at taken
  · rename_i space
    cases taken
    exact after.append_ws (ws_singleton space)
  · cases stack with
    | nil => cases taken
    | cons container rest =>
      cases container with
      | object =>
        obtain ⟨out, members, outside, derives, rfl⟩ := after
        dsimp only at taken
        split at taken
        · rename_i comma
          cases taken
          subst comma
          refine ⟨rest, out, members ++ [0x2C], [], rfl, outside,
            Or.inr ⟨members, derives, rfl⟩, ws_nil, ?_⟩
          simp only [List.append_assoc, List.cons_append, List.append_nil]
        · split at taken
          · rename_i brace
            cases taken
            subst brace
            have closed := outside.value (.object derives)
            rwa [← List.cons_append, ← List.append_assoc] at closed
          · cases taken
      | array =>
        obtain ⟨out, elements, outside, derives, rfl⟩ := after
        dsimp only at taken
        split at taken
        · rename_i comma
          cases taken
          subst comma
          refine ⟨out, elements ++ [0x2C], [], outside, Or.inr ⟨elements, derives, rfl⟩, ws_nil,
            ?_⟩
          simp only [List.append_assoc, List.cons_append, List.append_nil]
        · split at taken
          · rename_i bracket
            cases taken
            subst bracket
            have closed := outside.value (.array derives)
            rwa [← List.cons_append, ← List.append_assoc] at closed
          · cases taken

theorem invariant_beginValue {stack : List Container} {text : List UInt8} {byte : UInt8}
    {next : State} (before : Before stack text) (taken : beginValue stack byte = some next) :
    Invariant next (text ++ [byte]) := by
  rw [beginValue] at taken
  split at taken
  · rename_i brace
    cases taken
    subst brace
    exact ⟨stack, text, [], rfl, before, ws_nil, rfl⟩
  split at taken
  · rename_i bracket
    cases taken
    subst bracket
    exact ⟨stack, text, [], rfl, before, ws_nil, rfl⟩
  split at taken
  · rename_i quote
    cases taken
    subst quote
    exact ⟨text, [], before, .nil, rfl⟩
  split at taken
  · rename_i minus
    cases taken
    subst minus
    exact ⟨text, [0x2D], before, rfl, rfl⟩
  split at taken
  · rename_i zero
    cases taken
    subst zero
    exact ⟨text, [0x30], before, ⟨[], Or.inl rfl, rfl⟩, rfl⟩
  split at taken
  · rename_i zero digit
    cases taken
    exact ⟨text, [byte], before, ⟨[], byte, [], Or.inl rfl, digit, zero, nofun, rfl⟩, rfl⟩
  split at taken
  · rename_i letter
    cases taken
    subst letter
    exact ⟨text, [0x74], before, by decide, rfl⟩
  split at taken
  · rename_i letter
    cases taken
    subst letter
    exact ⟨text, [0x66], before, by decide, rfl⟩
  split at taken
  · rename_i letter
    cases taken
    subst letter
    exact ⟨text, [0x6E], before, by decide, rfl⟩
  · cases taken

/-- The end of a string is a value, or the name of a member. -/
theorem invariant_inString {isName : Bool} {stack : List Container} {front chars : List UInt8}
    {byte : UInt8} {next : State} (before : BeforeString isName stack front)
    (inside : Chars chars) (taken : inString isName stack byte = some next) :
    Invariant next (front ++ 0x22 :: chars ++ [byte]) := by
  rw [inString] at taken
  split at taken
  · rename_i quote
    cases taken
    subst quote
    have string : StringText (0x22 :: (chars ++ [0x22])) := ⟨chars, inside, rfl⟩
    cases isName with
    | true =>
      refine ⟨front, _, [], before, string, ws_nil, ?_⟩
      simp only [List.append_assoc, List.cons_append, List.append_nil]
    | false =>
      have ended := Before.value before (.string string)
      rwa [← List.cons_append, ← List.append_assoc] at ended
  split at taken
  · rename_i backslash
    cases taken
    subst backslash
    refine ⟨front, chars, before, inside, ?_⟩
    simp only [List.append_assoc, List.cons_append]
  split at taken
  · rename_i plain
    cases taken
    refine ⟨front, chars ++ [byte], before, inside.append (.plain plain .nil), ?_⟩
    simp only [List.append_assoc, List.cons_append]
  · cases taken

theorem digits_concat {digits : List UInt8} {byte : UInt8} (inside : Digits digits)
    (digit : isDigit byte = true) : Digits (digits ++ [byte]) :=
  ⟨List.append_ne_nil_of_left_ne_nil inside.1 _,
    List.forall_mem_append.mpr ⟨inside.2, List.forall_mem_singleton.mpr digit⟩⟩

theorem digits_singleton {byte : UInt8} (digit : isDigit byte = true) : Digits [byte] :=
  ⟨List.cons_ne_nil _ _, List.forall_mem_singleton.mpr digit⟩

/-- Where an exponent mark may follow, the number read so far has no exponent. -/
theorem NumberTo.numeral {phase : Phase} {text : List UInt8} (read : NumberTo phase text)
    (ends : phase = .zero ∨ phase = .whole ∨ phase = .fraction) : Numeral text := by
  obtain rfl | rfl | rfl := ends
  · obtain ⟨minus, sign, rfl⟩ := read
    exact ⟨minus, [0x30], [], sign, Or.inl rfl, Or.inl rfl, (List.append_nil _).symm⟩
  · obtain ⟨minus, first, rest, sign, digit, zero, digits, rfl⟩ := read
    exact ⟨minus, first :: rest, [], sign, Or.inr ⟨first, rest, digit, zero, digits, rfl⟩,
      Or.inl rfl, (List.append_nil _).symm⟩
  · obtain ⟨minus, whole, digits, sign, inWhole, inDigits, rfl⟩ := read
    exact ⟨minus, whole, 0x2E :: digits, sign, inWhole, Or.inr ⟨digits, inDigits, rfl⟩, rfl⟩

/-- A number that is complete. -/
theorem NumberTo.number {phase : Phase} {text : List UInt8} (read : NumberTo phase text)
    (complete : phase.complete = true) : Number text := by
  cases phase with
  | zero => exact (read.numeral (Or.inl rfl)).number
  | whole => exact (read.numeral (Or.inr (Or.inl rfl))).number
  | fraction => exact (read.numeral (Or.inr (Or.inr rfl))).number
  | exponent =>
    obtain ⟨numeral, mark, sign, digits, inNumeral, isMark, inSign, inDigits, rfl⟩ := read
    exact ⟨numeral, _, inNumeral, Or.inr ⟨mark, sign, digits, isMark, inSign, inDigits, rfl⟩, rfl⟩
  | minus | point | mark | sign => cases complete

/-- A byte that continues a number. -/
theorem NumberTo.next {phase next : Phase} {text : List UInt8} {byte : UInt8}
    (read : NumberTo phase text) (continues : phase.next byte = some next) :
    NumberTo next (text ++ [byte]) := by
  cases phase with
  | minus =>
    cases read
    rw [Phase.next] at continues
    split at continues
    · rename_i zero
      cases continues
      subst zero
      exact ⟨[0x2D], Or.inr rfl, rfl⟩
    split at continues
    · rename_i zero digit
      cases continues
      exact ⟨[0x2D], byte, [], Or.inr rfl, digit, zero, nofun, rfl⟩
    · cases continues
  | zero =>
    have numeral := read.numeral (Or.inl rfl)
    obtain ⟨minus, sign, rfl⟩ := read
    rw [Phase.next] at continues
    split at continues
    · rename_i point
      cases continues
      subst point
      exact ⟨minus, [0x30], sign, Or.inl rfl, rfl⟩
    split at continues
    · rename_i mark
      cases continues
      exact ⟨_, byte, numeral, mark, rfl⟩
    · cases continues
  | whole =>
    have numeral := read.numeral (Or.inr (Or.inl rfl))
    obtain ⟨minus, first, rest, sign, firstDigit, zero, digits, rfl⟩ := read
    have whole : Whole (first :: rest) := Or.inr ⟨first, rest, firstDigit, zero, digits, rfl⟩
    rw [Phase.next] at continues
    split at continues
    · rename_i digit
      cases continues
      have allDigits := List.forall_mem_append.mpr ⟨digits, List.forall_mem_singleton.mpr digit⟩
      refine ⟨minus, first, rest ++ [byte], sign, firstDigit, zero, allDigits, ?_⟩
      rw [List.append_assoc, List.cons_append]
    split at continues
    · rename_i point
      cases continues
      subst point
      exact ⟨minus, first :: rest, sign, whole, rfl⟩
    split at continues
    · rename_i mark
      cases continues
      exact ⟨_, byte, numeral, mark, rfl⟩
    · cases continues
  | point =>
    obtain ⟨minus, whole, sign, inWhole, rfl⟩ := read
    rw [Phase.next] at continues
    split at continues
    · rename_i digit
      cases continues
      exact ⟨minus, whole, [byte], sign, inWhole, digits_singleton digit, by
        rw [List.append_assoc]; rfl⟩
    · cases continues
  | fraction =>
    have numeral := read.numeral (Or.inr (Or.inr rfl))
    obtain ⟨minus, whole, digits, sign, inWhole, inDigits, rfl⟩ := read
    rw [Phase.next] at continues
    split at continues
    · rename_i digit
      cases continues
      refine ⟨minus, whole, digits ++ [byte], sign, inWhole, digits_concat inDigits digit, ?_⟩
      rw [List.append_assoc, List.cons_append]
    split at continues
    · rename_i mark
      cases continues
      exact ⟨_, byte, numeral, mark, rfl⟩
    · cases continues
  | mark =>
    obtain ⟨numeral, mark, inNumeral, isMark, rfl⟩ := read
    rw [Phase.next] at continues
    split at continues
    · rename_i sign
      cases continues
      exact ⟨numeral, mark, byte, inNumeral, isMark, sign, by rw [List.append_assoc]; rfl⟩
    split at continues
    · rename_i digit
      cases continues
      exact ⟨numeral, mark, [], [byte], inNumeral, isMark, Or.inl rfl, digits_singleton digit, by
        rw [List.append_assoc]; rfl⟩
    · cases continues
  | sign =>
    obtain ⟨numeral, mark, sign, inNumeral, isMark, inSign, rfl⟩ := read
    rw [Phase.next] at continues
    split at continues
    · rename_i digit
      cases continues
      refine ⟨numeral, mark, [sign], [byte], inNumeral, isMark, Or.inr ?_,
        digits_singleton digit, by rw [List.append_assoc]; rfl⟩
      exact inSign.imp (congrArg fun byte => [byte]) (congrArg fun byte => [byte])
    · cases continues
  | exponent =>
    obtain ⟨numeral, mark, sign, digits, inNumeral, isMark, inSign, inDigits, rfl⟩ := read
    rw [Phase.next] at continues
    split at continues
    · rename_i digit
      cases continues
      refine ⟨numeral, mark, sign, digits ++ [byte], inNumeral, isMark, inSign,
        digits_concat inDigits digit, ?_⟩
      rw [List.append_assoc, List.cons_append, List.append_assoc]
    · cases continues

/-- Every step of the machine keeps the invariant. -/
theorem Invariant.step {state next : State} {text : List UInt8} {byte : UInt8}
    (invariant : Invariant state text) (taken : step state byte = some next) :
    Invariant next (text ++ [byte]) := by
  obtain ⟨mode, stack⟩ := state
  cases mode with
  | value =>
    unfold Json.step at taken
    dsimp only at taken
    split at taken
    · rename_i space
      cases taken
      exact Before.append_ws invariant (ws_singleton space)
    · exact invariant_beginValue invariant taken
  | firstElement =>
    obtain ⟨rest, out, space, rfl, outside, ws, rfl⟩ := invariant
    unfold Json.step at taken
    dsimp only at taken
    split at taken
    · rename_i isSpace
      cases taken
      exact ⟨rest, out, space ++ [byte], rfl, outside, ws.append (ws_singleton isSpace), by
        rw [List.append_assoc, List.cons_append]⟩
    split at taken
    · rename_i bracket
      subst bracket
      cases taken
      have closed := outside.value (.emptyArray ws)
      rwa [← List.cons_append, ← List.append_assoc] at closed
    · refine invariant_beginValue ?_ taken
      exact ⟨out, [], space, outside, Or.inl rfl, ws, rfl⟩
  | firstName =>
    obtain ⟨rest, out, space, rfl, outside, ws, rfl⟩ := invariant
    unfold Json.step at taken
    dsimp only at taken
    split at taken
    · rename_i isSpace
      cases taken
      exact ⟨rest, out, space ++ [byte], rfl, outside, ws.append (ws_singleton isSpace), by
        rw [List.append_assoc, List.cons_append]⟩
    split at taken
    · rename_i brace
      subst brace
      cases taken
      have closed := outside.value (.emptyObject ws)
      rwa [← List.cons_append, ← List.append_assoc] at closed
    split at taken
    · rename_i quote
      cases taken
      subst quote
      exact ⟨_, [], ⟨rest, out, [], space, rfl, outside, Or.inl rfl, ws, rfl⟩, .nil, rfl⟩
    · cases taken
  | name =>
    unfold Json.step at taken
    dsimp only at taken
    split at taken
    · rename_i space
      cases taken
      exact BeforeName.append_ws invariant (ws_singleton space)
    split at taken
    · rename_i quote
      cases taken
      subst quote
      exact ⟨text, [], invariant, .nil, rfl⟩
    · cases taken
  | string isName =>
    obtain ⟨front, chars, before, inside, rfl⟩ := invariant
    exact invariant_inString before inside taken
  | escape isName =>
    obtain ⟨front, chars, before, inside, rfl⟩ := invariant
    unfold Json.step at taken
    dsimp only at taken
    split at taken
    · rename_i escape
      cases taken
      refine ⟨front, chars ++ [0x5C, byte], before, inside.append (.escape escape .nil), ?_⟩
      simp only [List.append_assoc, List.cons_append, List.nil_append]
    split at taken
    · rename_i letter
      cases taken
      subst letter
      refine ⟨front, chars, [], before, inside, rfl, nofun, ?_⟩
      simp only [List.append_assoc, List.cons_append, List.nil_append]
    · cases taken
  | hex isName more =>
    obtain ⟨front, chars, digits, before, inside, count, allHex, rfl⟩ := invariant
    unfold Json.step at taken
    dsimp only at taken
    split at taken
    · rename_i hex
      have hexNext := List.forall_mem_append.mpr ⟨allHex, List.forall_mem_singleton.mpr hex⟩
      split at taken
      · cases taken
        refine ⟨front, chars ++ 0x5C :: 0x75 :: (digits ++ [byte] ++ []), before,
          inside.append (.unicode ?_ hexNext .nil), ?_⟩
        · rw [List.length_append, List.length_singleton]
          omega
        · simp only [List.append_assoc, List.cons_append, List.append_nil]
      · cases taken
        refine ⟨front, chars, digits ++ [byte], before, inside, ?_, hexNext, ?_⟩
        · rw [List.length_append, List.length_singleton]
          omega
        · simp only [List.append_assoc, List.cons_append]
    · cases taken
  | afterName =>
    obtain ⟨front, name, space, before, string, ws, rfl⟩ := invariant
    unfold Json.step at taken
    dsimp only at taken
    split at taken
    · rename_i isSpace
      cases taken
      exact ⟨front, name, space ++ [byte], before, string, ws.append (ws_singleton isSpace), by
        rw [List.append_assoc]⟩
    split at taken
    · rename_i colon
      cases taken
      rw [colon.1]
      exact before.colon string ws
    · cases taken
  | number phase =>
    obtain ⟨front, read, before, numberTo, rfl⟩ := invariant
    unfold Json.step at taken
    dsimp only at taken
    split at taken
    · rename_i next continues
      cases taken
      exact ⟨front, read ++ [byte], before, numberTo.next continues, List.append_assoc ..⟩
    · split at taken
      · rename_i complete
        exact invariant_afterValue (before.value (.number (numberTo.number complete))) taken
      · cases taken
  | literal rest =>
    obtain ⟨front, read, before, inside, rfl⟩ := invariant
    unfold Json.step at taken
    dsimp only at taken
    split at taken
    · cases taken
    · rename_i head tail
      split at taken
      · rename_i same
        cases taken
        subst same
        rw [List.append_assoc]
        by_cases last : tail = []
        · rw [if_pos last]
          subst last
          exact before.value (.literal inside)
        · rw [if_neg last]
          refine ⟨front, read ++ [byte], before, ?_, rfl⟩
          rwa [List.append_assoc]
      · cases taken
  | after => exact invariant_afterValue invariant taken

theorem Invariant.run {state final : State} {text rest : List UInt8}
    (invariant : Invariant state text) (reads : run state rest = some final) :
    Invariant final (text ++ rest) := by
  induction rest generalizing state text with
  | nil =>
    cases reads
    rwa [List.append_nil]
  | cons byte rest inductionHypothesis =>
    rw [Json.run, Option.bind_eq_some_iff] at reads
    obtain ⟨next, taken, later⟩ := reads
    have whole := inductionHypothesis (invariant.step taken) later
    rwa [List.append_assoc] at whole

end Json
