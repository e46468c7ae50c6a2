/-
This file is a library about JSON texts as bytes: the members at any depth.

`Places kind text places` is the grammar with the places of all members, nested
ones included, in the order in which they stand in the text (`Places.spec`). The
machine is behind a name at these places and nowhere else in the text
(`Places.names`).
-/

import ControllerBridge.Library.JsonMembers

namespace Json

open Decimal

/-! ### Places -/

/-- A member in a text: what stands before its name, the name in its quotation marks, the
whitespace up to the colon, the element behind the colon, and what stands after it. -/
structure Place where
  before : List UInt8
  name : List UInt8
  gap : List UInt8
  element : List UInt8
  after : List UInt8

namespace Place

def text (place : Place) : List UInt8 :=
  place.before ++ place.name ++ place.gap ++ 0x3A :: (place.element ++ place.after)

/-- The place in a longer text. -/
def inside (left right : List UInt8) (place : Place) : Place :=
  { place with before := left ++ place.before, after := place.after ++ right }

theorem text_inside (left right : List UInt8) (place : Place) :
    (place.inside left right).text = left ++ place.text ++ right := by
  simp only [text, inside, List.append_assoc, List.cons_append]

/-- Where the name ends. -/
def nameEnd (place : Place) : Nat := (place.before ++ place.name).length

theorem nameEnd_inside (left right : List UInt8) (place : Place) :
    (place.inside left right).nameEnd = left.length + place.nameEnd := by
  simp only [nameEnd, inside, List.length_append, Nat.add_assoc]

theorem nameEnd_lt (place : Place) : place.nameEnd < place.text.length := by
  simp only [nameEnd, text, List.length_append, List.length_cons]
  omega

end Place

/-- The grammar, with the places of the members in a text from the first to the last. -/
inductive Places : Kind → List UInt8 → List Place → Prop where
  | literal {text : List UInt8} (literal : text ∈ literals) : Places .value text []
  | number {text : List UInt8} (number : Number text) : Places .value text []
  | string {text : List UInt8} (string : StringText text) : Places .value text []
  | emptyObject {ws : List UInt8} (space : Ws ws) : Places .value (0x7B :: (ws ++ [0x7D])) []
  | object {members : List UInt8} {places : List Place}
      (inside : Places .members members places) :
      Places .value (0x7B :: (members ++ [0x7D])) (places.map (Place.inside [0x7B] [0x7D]))
  | emptyArray {ws : List UInt8} (space : Ws ws) : Places .value (0x5B :: (ws ++ [0x5D])) []
  | array {elements : List UInt8} {places : List Place}
      (inside : Places .elements elements places) :
      Places .value (0x5B :: (elements ++ [0x5D])) (places.map (Place.inside [0x5B] [0x5D]))
  | element {before value after : List UInt8} {places : List Place} (spaceBefore : Ws before)
      (inside : Places .value value places) (spaceAfter : Ws after) :
      Places .element (before ++ value ++ after) (places.map (Place.inside before after))
  | member {before name gap element : List UInt8} {places : List Place} (spaceBefore : Ws before)
      (string : StringText name) (spaceGap : Ws gap) (inside : Places .element element places) :
      Places .member (before ++ name ++ gap ++ 0x3A :: element)
        (⟨before, name, gap, element, []⟩ ::
          places.map (Place.inside (before ++ name ++ gap ++ [0x3A]) []))
  | oneMember {member : List UInt8} {places : List Place} (inside : Places .member member places) :
      Places .members member places
  | moreMembers {members member : List UInt8} {places more : List Place}
      (before : Places .members members places) (inside : Places .member member more) :
      Places .members (members ++ 0x2C :: member)
        (places.map (Place.inside [] (0x2C :: member)) ++
          more.map (Place.inside (members ++ [0x2C]) []))
  | oneElement {element : List UInt8} {places : List Place}
      (inside : Places .element element places) : Places .elements element places
  | moreElements {elements element : List UInt8} {places more : List Place}
      (before : Places .elements elements places) (inside : Places .element element more) :
      Places .elements (elements ++ 0x2C :: element)
        (places.map (Place.inside [] (0x2C :: element)) ++
          more.map (Place.inside (elements ++ [0x2C]) []))

theorem Places.derives {kind : Kind} {text : List UInt8} {places : List Place}
    (placed : Places kind text places) : Derives kind text := by
  induction placed with
  | literal literal => exact .literal literal
  | number number => exact .number number
  | string string => exact .string string
  | emptyObject space => exact .emptyObject space
  | object _ inductionHypothesis => exact .object inductionHypothesis
  | emptyArray space => exact .emptyArray space
  | array _ inductionHypothesis => exact .array inductionHypothesis
  | element spaceBefore _ spaceAfter inductionHypothesis =>
    exact .element spaceBefore inductionHypothesis spaceAfter
  | member spaceBefore string spaceGap _ inductionHypothesis =>
    exact .member spaceBefore string spaceGap inductionHypothesis
  | oneMember _ inductionHypothesis => exact .oneMember inductionHypothesis
  | moreMembers _ _ before inside => exact .moreMembers before inside
  | oneElement _ inductionHypothesis => exact .oneElement inductionHypothesis
  | moreElements _ _ before inside => exact .moreElements before inside

theorem Derives.exists_places {kind : Kind} {text : List UInt8} (derives : Derives kind text) :
    ∃ places, Places kind text places := by
  induction derives with
  | literal literal => exact ⟨_, .literal literal⟩
  | number number => exact ⟨_, .number number⟩
  | string string => exact ⟨_, .string string⟩
  | emptyObject space => exact ⟨_, .emptyObject space⟩
  | object _ inductionHypothesis =>
    obtain ⟨places, inside⟩ := inductionHypothesis
    exact ⟨_, .object inside⟩
  | emptyArray space => exact ⟨_, .emptyArray space⟩
  | array _ inductionHypothesis =>
    obtain ⟨places, inside⟩ := inductionHypothesis
    exact ⟨_, .array inside⟩
  | element spaceBefore _ spaceAfter inductionHypothesis =>
    obtain ⟨places, inside⟩ := inductionHypothesis
    exact ⟨_, .element spaceBefore inside spaceAfter⟩
  | member spaceBefore string spaceGap _ inductionHypothesis =>
    obtain ⟨places, inside⟩ := inductionHypothesis
    exact ⟨_, .member spaceBefore string spaceGap inside⟩
  | oneMember _ inductionHypothesis =>
    obtain ⟨places, inside⟩ := inductionHypothesis
    exact ⟨_, .oneMember inside⟩
  | moreMembers _ _ membersHypothesis memberHypothesis =>
    obtain ⟨places, before⟩ := membersHypothesis
    obtain ⟨more, inside⟩ := memberHypothesis
    exact ⟨_, .moreMembers before inside⟩
  | oneElement _ inductionHypothesis =>
    obtain ⟨places, inside⟩ := inductionHypothesis
    exact ⟨_, .oneElement inside⟩
  | moreElements _ _ elementsHypothesis elementHypothesis =>
    obtain ⟨places, before⟩ := elementsHypothesis
    obtain ⟨more, inside⟩ := elementHypothesis
    exact ⟨_, .moreElements before inside⟩

/-- An object text is an element, and so has places. -/
theorem ObjectText.exists_places {text : List UInt8} (object : ObjectText text) :
    ∃ places, Places .element text places := by
  obtain ⟨before, inner, after, spaceBefore, inside, spaceAfter, rfl⟩ := object
  have value : Derives .value (0x7B :: (inner ++ [0x7D])) := inside.elim .emptyObject .object
  have element := Derives.element spaceBefore value spaceAfter
  rw [List.append_assoc, List.cons_append, List.append_assoc, List.singleton_append] at element
  exact element.exists_places

/-! ### What a place holds -/

/-- A text that begins with a byte that may follow a value, or is at its end. -/
def Delimited (text : List UInt8) : Prop := ∀ byte ∈ text.head?, isDelimiter byte = true

theorem delimited_nil : Delimited [] :=
  fun _ impossible => absurd impossible (Option.not_mem_none _)

theorem delimited_cons {byte : UInt8} (delimiter : isDelimiter byte = true) (rest : List UInt8) :
    Delimited (byte :: rest) := by
  rintro _ ⟨⟩
  exact delimiter

theorem Ws.delimited {space : List UInt8} (ws : Ws space) : Delimited space := by
  intro byte member
  rw [isDelimiter, ws byte (List.mem_of_head? member)]
  rfl

theorem Delimited.append {first second : List UInt8} (delimited : Delimited first)
    (delimitedSecond : Delimited second) : Delimited (first ++ second) := by
  cases first with
  | nil => exact delimitedSecond
  | cons byte rest => exact delimited_cons (delimited byte rfl) _

/-- A place in a text, where a name and an element are. -/
structure Place.In (place : Place) (text : List UInt8) : Prop where
  split : text = place.text
  string : StringText place.name
  space : Ws place.gap
  element : Derives .element place.element
  delimited : Delimited place.after

theorem Place.In.inside {place : Place} {text : List UInt8} (here : place.In text)
    (left : List UInt8) {right : List UInt8} (delimited : Delimited right) :
    (place.inside left right).In (left ++ text ++ right) :=
  ⟨by rw [place.text_inside, ← here.split], here.string, here.space, here.element,
    here.delimited.append delimited⟩

/-- The places in a stretch of a text, in order of where their names end. -/
def Ordered (places : List Place) : Prop := places.Pairwise fun first second =>
  first.nameEnd < second.nameEnd

theorem Ordered.inside {places : List Place} (ordered : Ordered places)
    (left right : List UInt8) : Ordered (places.map (Place.inside left right)) := by
  refine List.pairwise_map.mpr (ordered.imp fun {first second} less => ?_)
  rw [first.nameEnd_inside, second.nameEnd_inside]
  exact Nat.add_lt_add_left less _

theorem forall_inside {places : List Place} {text : List UInt8}
    (holds : ∀ place ∈ places, place.In text) (left : List UInt8) {right : List UInt8}
    (delimited : Delimited right) :
    ∀ place ∈ places.map (Place.inside left right), place.In (left ++ text ++ right) := by
  intro place member
  obtain ⟨place, within, rfl⟩ := List.mem_map.mp member
  exact (holds place within).inside left delimited

/-- The places of two stretches with a comma between them. -/
theorem ordered_more {places more : List Place} {items item : List UInt8}
    (holds : ∀ place ∈ places, place.In items) (ordered : Ordered places)
    (orderedMore : Ordered more) :
    Ordered (places.map (Place.inside [] (0x2C :: item)) ++
      more.map (Place.inside (items ++ [0x2C]) [])) := by
  refine List.pairwise_append.mpr ⟨ordered.inside _ _, orderedMore.inside _ _, ?_⟩
  intro first inFirst second inSecond
  obtain ⟨first, member, rfl⟩ := List.mem_map.mp inFirst
  obtain ⟨second, -, rfl⟩ := List.mem_map.mp inSecond
  have short := first.nameEnd_lt
  rw [← (holds first member).split] at short
  rw [first.nameEnd_inside, second.nameEnd_inside, List.length_append, List.length_singleton,
    List.length_nil]
  omega

/-- Every place is one, and they are in order. -/
theorem Places.spec {kind : Kind} {text : List UInt8} {places : List Place}
    (placed : Places kind text places) :
    (∀ place ∈ places, place.In text) ∧ Ordered places := by
  have comma : ∀ {items item : List UInt8} {places more : List Place},
      (∀ place ∈ places, place.In items) → (∀ place ∈ more, place.In item) →
      ∀ place ∈ places.map (Place.inside [] (0x2C :: item)) ++
        more.map (Place.inside (items ++ [0x2C]) []), place.In (items ++ 0x2C :: item) := by
    intro items item places more holds holdsMore place member
    rcases List.mem_append.mp member with first | second
    · exact forall_inside holds [] (delimited_cons (by decide) item) place first
    · have later := forall_inside holdsMore (items ++ [0x2C]) delimited_nil place second
      rwa [List.append_nil, List.append_assoc, List.singleton_append] at later
  induction placed with
  | literal | number | string | emptyObject | emptyArray =>
    exact ⟨fun _ member => absurd member List.not_mem_nil, .nil⟩
  | object _ inductionHypothesis =>
    exact ⟨forall_inside inductionHypothesis.1 [0x7B] (delimited_cons (by decide) []),
      inductionHypothesis.2.inside _ _⟩
  | array _ inductionHypothesis =>
    exact ⟨forall_inside inductionHypothesis.1 [0x5B] (delimited_cons (by decide) []),
      inductionHypothesis.2.inside _ _⟩
  | element _ _ spaceAfter inductionHypothesis =>
    exact ⟨forall_inside inductionHypothesis.1 _ spaceAfter.delimited,
      inductionHypothesis.2.inside _ _⟩
  | @member before name gap element places _ string spaceGap inside inductionHypothesis =>
    constructor
    · refine List.forall_mem_cons.mpr ⟨⟨?_, string, spaceGap, inside.derives, delimited_nil⟩, ?_⟩
      · rw [Place.text, List.append_nil]
      · have nested := forall_inside inductionHypothesis.1 (before ++ name ++ gap ++ [0x3A])
          delimited_nil
        rwa [List.append_nil, List.append_assoc _ [0x3A], List.singleton_append] at nested
    · refine List.pairwise_cons.mpr ⟨fun place member => ?_, inductionHypothesis.2.inside _ _⟩
      obtain ⟨place, -, rfl⟩ := List.mem_map.mp member
      rw [place.nameEnd_inside, Place.nameEnd]
      simp only [List.length_append, List.length_singleton]
      omega
  | oneMember _ inductionHypothesis => exact inductionHypothesis
  | moreMembers _ _ before inside =>
    exact ⟨comma before.1 inside.1, ordered_more before.1 before.2 inside.2⟩
  | oneElement _ inductionHypothesis => exact inductionHypothesis
  | moreElements _ _ before inside =>
    exact ⟨comma before.1 inside.1, ordered_more before.1 before.2 inside.2⟩

/-! ### Names -/

/-- The machine is in a name or behind one. -/
def Mode.inName : Mode → Bool
  | .string isName | .escape isName | .hex isName _ => isName
  | .afterName => true
  | .value | .firstElement | .firstName | .name | .number _ | .literal _ | .after => false

theorem inName_afterValue {stack : List Container} {byte : UInt8} {next : State}
    (taken : afterValue stack byte = some next) : next.mode.inName = false := by
  unfold afterValue at taken
  split at taken
  · cases taken
    rfl
  · cases stack with
    | nil => cases taken
    | cons container rest =>
      cases container <;>
      · dsimp only at taken
        split_ifs at taken <;>
        · cases taken
          rfl

theorem inName_beginValue {stack : List Container} {byte : UInt8} {next : State}
    (taken : beginValue stack byte = some next) : next.mode.inName = false := by
  rw [beginValue] at taken
  split_ifs at taken <;>
  · cases taken
    rfl

/-- A name begins with a quotation mark only. -/
theorem inName_step {state next : State} {byte : UInt8} (outside : state.mode.inName = false)
    (other : byte ≠ 0x22) (taken : step state byte = some next) : next.mode.inName = false := by
  obtain ⟨mode, stack⟩ := state
  unfold step at taken
  cases mode with
  | value =>
    dsimp only at taken
    split_ifs at taken
    · cases taken
      rfl
    · exact inName_beginValue taken
  | firstElement =>
    dsimp only at taken
    split_ifs at taken
    · cases taken
      rfl
    · exact inName_afterValue taken
    · exact inName_beginValue taken
  | firstName =>
    dsimp only at taken
    rw [if_neg other] at taken
    split_ifs at taken
    · cases taken
      rfl
    · exact inName_afterValue taken
  | name =>
    dsimp only at taken
    rw [if_neg other] at taken
    split_ifs at taken
    cases taken
    rfl
  | string isName =>
    dsimp only at taken
    rw [inString, if_neg other] at taken
    split_ifs at taken <;>
    · cases taken
      exact outside
  | escape isName =>
    dsimp only at taken
    split_ifs at taken <;>
    · cases taken
      exact outside
  | hex isName more =>
    dsimp only at taken
    split_ifs at taken
    cases more <;>
    · cases taken
      exact outside
  | afterName => cases outside
  | number phase =>
    dsimp only at taken
    split at taken
    · cases taken
      rfl
    · split_ifs at taken
      exact inName_afterValue taken
  | literal rest =>
    dsimp only at taken
    split at taken
    · cases taken
    · split_ifs at taken
      all_goals
        cases taken
        rfl
  | after => exact inName_afterValue taken

theorem inName_run {state final : State} {text : List UInt8}
    (outside : state.mode.inName = false) (other : ∀ byte ∈ text, byte ≠ 0x22)
    (reads : run state text = some final) : final.mode.inName = false := by
  induction text generalizing state with
  | nil =>
    cases reads
    exact outside
  | cons byte rest inductionHypothesis =>
    rw [run, Option.bind_eq_some_iff] at reads
    obtain ⟨next, taken, later⟩ := reads
    exact inductionHypothesis (inName_step outside (other byte List.mem_cons_self) taken)
      (fun byte member => other byte (List.mem_cons_of_mem _ member)) later

theorem prefix_append_cases {Symbol : Type} {front first second : List Symbol}
    (begins : front <+: first ++ second) :
    front <+: first ∨ ∃ rest, front = first ++ rest ∧ rest <+: second := by
  rcases List.prefix_or_prefix_of_prefix begins (List.prefix_append first second) with
    short | ⟨rest, rfl⟩
  · exact Or.inl short
  · exact Or.inr ⟨rest, rfl, (List.prefix_append_right_inj first).mp begins⟩

theorem run_hex_front (isName : Bool) (stack : List Container) {digits : List UInt8} {more : Nat}
    (count : digits.length ≤ more) (hex : ∀ digit ∈ digits, isHex digit = true) :
    run ⟨.hex isName more, stack⟩ digits = some ⟨.hex isName (more - digits.length), stack⟩ := by
  induction digits generalizing more with
  | nil => rfl
  | cons digit digits inductionHypothesis =>
    have here := hex digit List.mem_cons_self
    cases more with
    | zero => cases count
    | succ more =>
      have later := inductionHypothesis (Nat.le_of_succ_le_succ count) fun other member =>
        hex other (List.mem_cons_of_mem _ member)
      simp [run, step, here, later]

/-- In the middle of a string's text the machine is in the string. -/
theorem Chars.run_front {chars front : List UInt8} (inside : Chars chars)
    (begins : front <+: chars) (isName : Bool) (stack : List Container) :
    ∃ mode, Json.run ⟨.string isName, stack⟩ front = some ⟨mode, stack⟩ ∧
      mode ≠ .afterName ∧ mode.inName = isName := by
  induction inside generalizing front with
  | nil =>
    rw [List.prefix_nil.mp begins]
    exact ⟨.string isName, rfl, nofun, rfl⟩
  | @plain byte rest plain _ inductionHypothesis =>
    rcases List.prefix_cons_iff.mp begins with rfl | ⟨tail, rfl, later⟩
    · exact ⟨.string isName, rfl, nofun, rfl⟩
    · obtain ⟨mode, reads, outside, same⟩ := inductionHypothesis later
      exact ⟨mode, (run_append_of_run ((Chars.plain plain .nil).run isName stack) tail).trans
        reads, outside, same⟩
  | @escape byte rest escape _ inductionHypothesis =>
    rcases List.prefix_cons_iff.mp begins with rfl | ⟨second, rfl, afterBackslash⟩
    · exact ⟨.string isName, rfl, nofun, rfl⟩
    rcases List.prefix_cons_iff.mp afterBackslash with rfl | ⟨tail, rfl, later⟩
    · exact ⟨.escape isName, rfl, nofun, rfl⟩
    · obtain ⟨mode, reads, outside, same⟩ := inductionHypothesis later
      exact ⟨mode, (run_append_of_run ((Chars.escape escape .nil).run isName stack) tail).trans
        reads, outside, same⟩
  | @unicode digits rest four hex _ inductionHypothesis =>
    have opens : Json.run ⟨.string isName, stack⟩ [0x5C, 0x75] =
      some ⟨.hex isName 3, stack⟩ := rfl
    rcases List.prefix_cons_iff.mp begins with rfl | ⟨second, rfl, afterBackslash⟩
    · exact ⟨.string isName, rfl, nofun, rfl⟩
    rcases List.prefix_cons_iff.mp afterBackslash with rfl | ⟨third, rfl, afterLetter⟩
    · exact ⟨.escape isName, rfl, nofun, rfl⟩
    rcases prefix_append_cases afterLetter with short | ⟨tail, rfl, later⟩
    · by_cases whole : third.length = 4
      · refine ⟨.string isName, ?_, nofun, rfl⟩
        rw [short.eq_of_length (whole.trans four.symm)]
        exact (run_append_of_run opens digits).trans (run_hex isName stack four hex)
      · have length := short.length_le
        refine ⟨_, (run_append_of_run opens third).trans (run_hex_front isName stack (by omega)
          fun digit member => hex digit (short.subset member)), nofun, rfl⟩
    · obtain ⟨mode, reads, outside, same⟩ := inductionHypothesis later
      refine ⟨mode, ?_, outside, same⟩
      have unicode := (Chars.unicode four hex .nil).run isName stack
      rw [List.append_nil] at unicode
      exact (run_append_of_run unicode tail).trans reads

/-- The text read up to the end of a name, or into the whitespace behind it. -/
def Place.NameRead (place : Place) (front : List UInt8) : Prop :=
  ∃ space, space <+: place.gap ∧ front = place.before ++ place.name ++ space

theorem Place.NameRead.inside {place : Place} {front : List UInt8} (read : place.NameRead front)
    (left right : List UInt8) : (place.inside left right).NameRead (left ++ front) := by
  obtain ⟨space, begins, rfl⟩ := read
  refine ⟨space, begins, ?_⟩
  rw [Place.inside, List.append_assoc, List.append_assoc, List.append_assoc]

/-- In the middle of a text the machine is behind a name only at one of the places. -/
def NamesIn (modes : List Mode) (within : List Container → List Container)
    (text : List UInt8) (places : List Place) : Prop :=
  ∀ mode ∈ modes, ∀ stack front state, front <+: text →
    run ⟨mode, within stack⟩ front = some state → state.mode = .afterName →
    ∃ place ∈ places, place.NameRead front

/-- Where the names of each kind are. -/
def Kind.Names : Kind → List UInt8 → List Place → Prop
  | .value | .element => NamesIn [.value, .firstElement] id
  | .member => NamesIn [.firstName, .name] (.object :: ·)
  | .members => NamesIn [.firstName] (.object :: ·)
  | .elements => NamesIn [.firstElement] (.array :: ·)

theorem ne_afterName_of_inName {state : State} (outside : state.mode.inName = false) :
    state.mode ≠ .afterName := by
  intro same
  rw [same] at outside
  cases outside

/-- Without a quotation mark there is no name. -/
theorem namesIn_nil {modes : List Mode} {within : List Container → List Container}
    {text : List UInt8} (outside : ∀ mode ∈ modes, mode.inName = false)
    (other : ∀ byte ∈ text, byte ≠ 0x22) : NamesIn modes within text [] := by
  intro mode member stack front state begins reads name
  exact absurd name (ne_afterName_of_inName (inName_run (outside mode member)
    (fun byte inside => other byte (begins.subset inside)) reads))

theorem Ws.ne_quote {space : List UInt8} (ws : Ws space) : ∀ byte ∈ space, byte ≠ 0x22 := by
  rintro byte member rfl
  exact absurd (ws _ member) (by decide)

theorem namesIn_string {text : List UInt8} (string : StringText text) :
    NamesIn [.value, .firstElement] id text [] := by
  intro mode member stack front state begins reads name
  exfalso
  obtain ⟨chars, inside, rfl⟩ := string
  have opens : mode ≠ .afterName ∧ step ⟨mode, stack⟩ 0x22 = some ⟨.string false, stack⟩ := by
    simp only [List.mem_cons, List.not_mem_nil, or_false] at member
    rcases member with rfl | rfl <;> exact ⟨nofun, rfl⟩
  rcases List.prefix_cons_iff.mp begins with rfl | ⟨tail, rfl, later⟩
  · cases reads
    exact opens.1 name
  rw [id, run, opens.2, Option.bind_some] at reads
  rcases prefix_append_cases later with short | ⟨last, rfl, ends⟩
  · obtain ⟨mode', read, outside, -⟩ := inside.run_front short false stack
    rw [read] at reads
    cases reads
    exact outside name
  · rw [run_append_of_run (inside.run false stack)] at reads
    rcases List.prefix_cons_iff.mp ends with rfl | ⟨rest, rfl, nothing⟩
    · cases reads
      cases name
    · rw [List.prefix_nil.mp nothing] at reads
      cases reads
      cases name

theorem namesIn_container {brace closing : UInt8} {container : Container} {mode : Mode}
    (opens : ∀ start ∈ [Mode.value, .firstElement], ∀ stack,
      step ⟨start, stack⟩ brace = some ⟨mode, container :: stack⟩)
    {text : List UInt8} {places : List Place}
    (closes : ∀ stack, run ⟨mode, container :: stack⟩ (text ++ [closing]) =
      some ⟨.after, stack⟩)
    (names : NamesIn [mode] (container :: ·) text places) :
    NamesIn [.value, .firstElement] id (brace :: (text ++ [closing]))
      (places.map (Place.inside [brace] [closing])) := by
  intro start member stack front state begins reads name
  rcases List.prefix_cons_iff.mp begins with rfl | ⟨tail, rfl, later⟩
  · cases reads
    simp only [List.mem_cons, List.not_mem_nil, or_false] at member
    rcases member with rfl | rfl <;> cases name
  rw [id, run, opens start member, Option.bind_some] at reads
  have nested : tail <+: text → ∃ place ∈ places.map (Place.inside [brace] [closing]),
      place.NameRead (brace :: tail) := by
    intro short
    obtain ⟨place, within, read⟩ :=
      names mode List.mem_cons_self stack tail state short reads name
    exact ⟨_, List.mem_map_of_mem within, read.inside [brace] [closing]⟩
  rcases prefix_append_cases later with short | ⟨last, rfl, ends⟩
  · exact nested short
  rcases List.prefix_cons_iff.mp ends with rfl | ⟨rest, rfl, nothing⟩
  · exact nested (by rw [List.append_nil])
  · rw [List.prefix_nil.mp nothing, closes] at reads
    cases reads
    cases name

theorem Ends.inName {stack : List Container} {state : State} (ends : Ends stack state) :
    state.mode.inName = false := by
  obtain rfl | ⟨phase, -, rfl⟩ := ends <;> rfl

theorem namesIn_element {before value after : List UInt8} {places : List Place}
    (spaceBefore : Ws before) (isValue : Derives .value value) (spaceAfter : Ws after)
    (names : NamesIn [.value, .firstElement] id value places) :
    NamesIn [.value, .firstElement] id (before ++ value ++ after)
      (places.map (Place.inside before after)) := by
  intro mode member stack front state begins reads name
  have modes : mode.skips = true ∧ mode.inName = false := by
    simp only [List.mem_cons, List.not_mem_nil, or_false] at member
    rcases member with rfl | rfl <;> exact ⟨rfl, rfl⟩
  rcases prefix_append_cases begins with short | ⟨space, rfl, ends⟩
  · rcases prefix_append_cases short with inSpace | ⟨rest, rfl, inValue⟩
    · exact absurd name (ne_afterName_of_inName (inName_run modes.2
        (fun byte inside => spaceBefore.ne_quote byte (inSpace.subset inside)) reads))
    · rw [id, run_append_of_run (run_ws modes.1 stack spaceBefore)] at reads
      obtain ⟨place, within, read⟩ := names mode member stack rest state inValue reads name
      exact ⟨_, List.mem_map_of_mem within, read.inside before after⟩
  · have whole := readsFrom_element spaceBefore isValue.reads ws_nil mode member stack
    rw [List.append_nil] at whole
    obtain ⟨middle, readsValue, endsValue⟩ := whole
    rw [run_append_of_run readsValue] at reads
    exact absurd name (ne_afterName_of_inName (inName_run endsValue.inName
      (fun byte inside => spaceAfter.ne_quote byte (ends.subset inside)) reads))

theorem namesIn_member {before name gap element : List UInt8} {places : List Place}
    (spaceBefore : Ws before) (string : StringText name) (spaceGap : Ws gap)
    (names : NamesIn [.value, .firstElement] id element places) :
    NamesIn [.firstName, .name] (.object :: ·) (before ++ name ++ gap ++ 0x3A :: element)
      (⟨before, name, gap, element, []⟩ ::
        places.map (Place.inside (before ++ name ++ gap ++ [0x3A]) [])) := by
  intro mode member stack front state begins reads named
  have modes : mode.skips = true ∧ mode.inName = false ∧
      step ⟨mode, .object :: stack⟩ 0x22 = some ⟨.string true, .object :: stack⟩ := by
    simp only [List.mem_cons, List.not_mem_nil, or_false] at member
    rcases member with rfl | rfl <;> exact ⟨rfl, rfl, rfl⟩
  have here : ∀ space, space <+: gap → front = before ++ name ++ space →
      ∃ place ∈ (⟨before, name, gap, element, []⟩ ::
        places.map (Place.inside (before ++ name ++ gap ++ [0x3A]) []) : List Place),
        place.NameRead front :=
    fun space inGap split => ⟨_, List.mem_cons_self, space, inGap, split⟩
  rcases prefix_append_cases begins with upToColon | ⟨rest, rfl, beyond⟩
  · rcases prefix_append_cases upToColon with upToName | ⟨space, split, inGap⟩
    · rcases prefix_append_cases upToName with inSpace | ⟨rest, rfl, inName⟩
      · exact absurd named (ne_afterName_of_inName (inName_run modes.2.1
          (fun byte inside => spaceBefore.ne_quote byte (inSpace.subset inside)) reads))
      rw [run_append_of_run (run_ws modes.1 _ spaceBefore)] at reads
      obtain ⟨chars, inside, rfl⟩ := string
      rcases List.prefix_cons_iff.mp inName with rfl | ⟨tail, rfl, later⟩
      · cases reads
        exact absurd named (ne_afterName_of_inName modes.2.1)
      rw [run, modes.2.2, Option.bind_some] at reads
      rcases prefix_append_cases later with short | ⟨last, rfl, ends⟩
      · obtain ⟨mode', read, outside, -⟩ := inside.run_front short true (.object :: stack)
        rw [read] at reads
        cases reads
        exact absurd named outside
      rcases List.prefix_cons_iff.mp ends with rfl | ⟨nothing, rfl, isEmpty⟩
      · rw [List.append_nil, inside.run true] at reads
        cases reads
        cases named
      · refine here [] List.nil_prefix ?_
        rw [List.prefix_nil.mp isEmpty, List.append_nil]
    · exact here space inGap split
  · rcases List.prefix_cons_iff.mp beyond with rfl | ⟨tail, rfl, later⟩
    · exact here gap (List.prefix_refl gap) (List.append_nil _)
    · rw [← List.singleton_append, ← List.append_assoc,
        run_append_of_run (run_member spaceBefore string spaceGap member stack)] at reads
      obtain ⟨place, within, read⟩ :=
        names .value List.mem_cons_self (.object :: stack) tail state later reads named
      refine ⟨_, List.mem_cons_of_mem _ (List.mem_map_of_mem within), ?_⟩
      have nested := read.inside (before ++ name ++ gap ++ [0x3A]) []
      rwa [List.append_assoc _ [0x3A], List.singleton_append] at nested

theorem namesIn_more {first next : List Mode} {mode : Mode} {container : Container}
    {items item : List UInt8} {places more : List Place}
    (reads : ReadsFrom first (container :: ·) items)
    (comma : ∀ stack, afterValue (container :: stack) 0x2C = some ⟨mode, container :: stack⟩)
    (continues : mode ∈ next) (names : NamesIn first (container :: ·) items places)
    (namesMore : NamesIn next (container :: ·) item more) :
    NamesIn first (container :: ·) (items ++ 0x2C :: item)
      (places.map (Place.inside [] (0x2C :: item)) ++
        more.map (Place.inside (items ++ [0x2C]) [])) := by
  intro start member stack front state begins run named
  have inItems : front <+: items → ∃ place ∈ places.map (Place.inside [] (0x2C :: item)) ++
      more.map (Place.inside (items ++ [0x2C]) []), place.NameRead front := by
    intro short
    obtain ⟨place, within, read⟩ := names start member stack front state short run named
    exact ⟨_, List.mem_append_left _ (List.mem_map_of_mem within), read.inside [] _⟩
  rcases prefix_append_cases begins with short | ⟨rest, rfl, beyond⟩
  · exact inItems short
  rcases List.prefix_cons_iff.mp beyond with rfl | ⟨tail, rfl, later⟩
  · exact inItems (by rw [List.append_nil])
  obtain ⟨middle, readsItems, ends⟩ := reads start member stack
  rw [run_append_of_run readsItems, Json.run, ends.step (by decide), comma,
    Option.bind_some] at run
  obtain ⟨place, within, read⟩ := namesMore mode continues stack tail state later run named
  refine ⟨_, List.mem_append_right _ (List.mem_map_of_mem within), ?_⟩
  have nested := read.inside (items ++ [0x2C]) []
  rwa [List.append_assoc, List.singleton_append] at nested

/-- Every name of a text is at one of its places. -/
theorem Places.names {kind : Kind} {text : List UInt8} {places : List Place}
    (placed : Places kind text places) : kind.Names text places := by
  have plain : ∀ mode ∈ [Mode.value, .firstElement], mode.inName = false := by decide
  induction placed with
  | literal literal =>
    have unquoted : ∀ text ∈ literals, 0x22 ∉ text := by decide
    exact namesIn_nil plain (List.forall_mem_ne'.mpr (unquoted _ literal))
  | number number =>
    refine namesIn_nil plain ?_
    rintro byte member rfl
    exact absurd (number.isNumberByte _ member) (by decide)
  | string string => exact namesIn_string string
  | @emptyObject ws space =>
    refine namesIn_nil plain (List.forall_mem_cons.mpr ⟨by decide, ?_⟩)
    exact List.forall_mem_append.mpr ⟨space.ne_quote, List.forall_mem_singleton.mpr (by decide)⟩
  | object inside inductionHypothesis =>
    have opens : ∀ start ∈ [Mode.value, .firstElement], ∀ stack,
        step ⟨start, stack⟩ 0x7B = some ⟨.firstName, .object :: stack⟩ := by
      intro start member stack
      simp only [List.mem_cons, List.not_mem_nil, or_false] at member
      rcases member with rfl | rfl <;> rfl
    refine namesIn_container opens (fun stack => ?_) inductionHypothesis
    obtain ⟨state, reads, ends⟩ := inside.derives.reads .firstName List.mem_cons_self stack
    rw [run_append_of_run reads, ends.run (by decide)]
    rfl
  | @emptyArray ws space =>
    refine namesIn_nil plain (List.forall_mem_cons.mpr ⟨by decide, ?_⟩)
    exact List.forall_mem_append.mpr ⟨space.ne_quote, List.forall_mem_singleton.mpr (by decide)⟩
  | array inside inductionHypothesis =>
    have opens : ∀ start ∈ [Mode.value, .firstElement], ∀ stack,
        step ⟨start, stack⟩ 0x5B = some ⟨.firstElement, .array :: stack⟩ := by
      intro start member stack
      simp only [List.mem_cons, List.not_mem_nil, or_false] at member
      rcases member with rfl | rfl <;> rfl
    refine namesIn_container opens (fun stack => ?_) inductionHypothesis
    obtain ⟨state, reads, ends⟩ := inside.derives.reads .firstElement List.mem_cons_self stack
    rw [run_append_of_run reads, ends.run (by decide)]
    rfl
  | element spaceBefore inside spaceAfter inductionHypothesis =>
    exact namesIn_element spaceBefore inside.derives spaceAfter inductionHypothesis
  | member spaceBefore string spaceGap _ inductionHypothesis =>
    exact namesIn_member spaceBefore string spaceGap inductionHypothesis
  | oneMember _ inductionHypothesis =>
    intro mode member
    exact inductionHypothesis mode (List.mem_append_left [Mode.name] member)
  | moreMembers before _ membersHypothesis memberHypothesis =>
    exact namesIn_more before.derives.reads (fun stack => rfl) (by decide) membersHypothesis
      memberHypothesis
  | oneElement _ inductionHypothesis =>
    intro mode member stack
    exact inductionHypothesis mode (List.mem_cons_of_mem _ member) (.array :: stack)
  | moreElements before _ elementsHypothesis elementHypothesis =>
    refine namesIn_more before.derives.reads (fun stack => rfl)
      (List.mem_cons_self : Mode.value ∈ [Mode.value, .firstElement]) elementsHypothesis ?_
    exact fun mode member stack => elementHypothesis mode member (.array :: stack)

end Json
