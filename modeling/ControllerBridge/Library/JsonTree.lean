/-
This file is a library about JSON texts as bytes: texts as trees.

A tree holds all bytes of its text, the whitespace too, each with the proof that
it may stand where it does. So the text is a function of the tree, every tree is
derived (`Tree.placed`) and everything derived is the text of a tree
(`Derives.exists_tree`). `Tree.exchange` puts other members in the place of the
first member that a key names; on the text this is a splice at the place the key
looks up (`Tree.exchangesAt`), and of the members of an object only the one it
is in changes (`Tree.exchange_list`).
-/

import ControllerBridge.Library.JsonLookup

namespace Json

open Decimal

/-! ### Trees -/

/-- The grammar as data. -/
inductive Tree : Kind → Type where
  | literal (text : List UInt8) (isLiteral : text ∈ literals) : Tree .value
  | number (text : List UInt8) (isNumber : Number text) : Tree .value
  | string (text : List UInt8) (isString : StringText text) : Tree .value
  | emptyObject (space : List UInt8) (ws : Ws space) : Tree .value
  | object (members : Tree .members) : Tree .value
  | emptyArray (space : List UInt8) (ws : Ws space) : Tree .value
  | array (elements : Tree .elements) : Tree .value
  | element (before : List UInt8) (value : Tree .value) (after : List UInt8)
      (wsBefore : Ws before) (wsAfter : Ws after) : Tree .element
  | member (before name gap : List UInt8) (element : Tree .element) (wsBefore : Ws before)
      (isString : StringText name) (wsGap : Ws gap) : Tree .member
  | oneMember (member : Tree .member) : Tree .members
  | moreMembers (members : Tree .members) (member : Tree .member) : Tree .members
  | oneElement (element : Tree .element) : Tree .elements
  | moreElements (elements : Tree .elements) (element : Tree .element) : Tree .elements

namespace Tree

def text : {kind : Kind} → Tree kind → List UInt8
  | _, literal text _ | _, number text _ | _, string text _ => text
  | _, emptyObject space _ => 0x7B :: (space ++ [0x7D])
  | _, object inside => 0x7B :: (inside.text ++ [0x7D])
  | _, emptyArray space _ => 0x5B :: (space ++ [0x5D])
  | _, array inside => 0x5B :: (inside.text ++ [0x5D])
  | _, element before inside after _ _ => before ++ inside.text ++ after
  | _, member before name gap inside _ _ _ => before ++ name ++ gap ++ 0x3A :: inside.text
  | _, oneMember inside | _, oneElement inside => inside.text
  | _, moreMembers front last | _, moreElements front last => front.text ++ 0x2C :: last.text

/-- The place of a member in its own text. -/
def place : Tree .member → Place
  | member before name gap inside _ _ _ => ⟨before, name, gap, inside.text, []⟩

/-- The places of the members of a tree. -/
def places : {kind : Kind} → Tree kind → List Place
  | _, literal _ _ | _, number _ _ | _, string _ _ | _, emptyObject _ _ | _, emptyArray _ _ => []
  | _, object inside => inside.places.map (Place.inside [0x7B] [0x7D])
  | _, array inside => inside.places.map (Place.inside [0x5B] [0x5D])
  | _, element before inside after _ _ => inside.places.map (Place.inside before after)
  | _, member before name gap inside _ _ _ =>
    ⟨before, name, gap, inside.text, []⟩ ::
      inside.places.map (Place.inside (before ++ name ++ gap ++ [0x3A]) [])
  | _, oneMember inside | _, oneElement inside => inside.places
  | _, moreMembers front last | _, moreElements front last =>
    front.places.map (Place.inside [] (0x2C :: last.text)) ++
      last.places.map (Place.inside (front.text ++ [0x2C]) [])

theorem placed {kind : Kind} (tree : Tree kind) : Places kind tree.text tree.places := by
  induction tree with
  | literal _ isLiteral => exact .literal isLiteral
  | number _ isNumber => exact .number isNumber
  | string _ isString => exact .string isString
  | emptyObject _ ws => exact .emptyObject ws
  | object _ inductionHypothesis => exact .object inductionHypothesis
  | emptyArray _ ws => exact .emptyArray ws
  | array _ inductionHypothesis => exact .array inductionHypothesis
  | element _ _ _ wsBefore wsAfter inductionHypothesis =>
    exact .element wsBefore inductionHypothesis wsAfter
  | member _ _ _ _ wsBefore isString wsGap inductionHypothesis =>
    exact .member wsBefore isString wsGap inductionHypothesis
  | oneMember _ inductionHypothesis => exact .oneMember inductionHypothesis
  | moreMembers _ _ before inside => exact .moreMembers before inside
  | oneElement _ inductionHypothesis => exact .oneElement inductionHypothesis
  | moreElements _ _ before inside => exact .moreElements before inside

end Tree

/-- What is derived is the text of a tree. -/
theorem Derives.exists_tree {kind : Kind} {text : List UInt8} (derives : Derives kind text) :
    ∃ tree : Tree kind, tree.text = text := by
  induction derives with
  | literal isLiteral => exact ⟨.literal _ isLiteral, rfl⟩
  | number isNumber => exact ⟨.number _ isNumber, rfl⟩
  | string isString => exact ⟨.string _ isString, rfl⟩
  | emptyObject ws => exact ⟨.emptyObject _ ws, rfl⟩
  | object _ inductionHypothesis =>
    obtain ⟨members, rfl⟩ := inductionHypothesis
    exact ⟨.object members, rfl⟩
  | emptyArray ws => exact ⟨.emptyArray _ ws, rfl⟩
  | array _ inductionHypothesis =>
    obtain ⟨elements, rfl⟩ := inductionHypothesis
    exact ⟨.array elements, rfl⟩
  | element wsBefore _ wsAfter inductionHypothesis =>
    obtain ⟨value, rfl⟩ := inductionHypothesis
    exact ⟨.element _ value _ wsBefore wsAfter, rfl⟩
  | member wsBefore isString wsGap _ inductionHypothesis =>
    obtain ⟨element, rfl⟩ := inductionHypothesis
    exact ⟨.member _ _ _ element wsBefore isString wsGap, rfl⟩
  | oneMember _ inductionHypothesis =>
    obtain ⟨member, rfl⟩ := inductionHypothesis
    exact ⟨.oneMember member, rfl⟩
  | moreMembers _ _ before inside =>
    obtain ⟨members, rfl⟩ := before
    obtain ⟨member, rfl⟩ := inside
    exact ⟨.moreMembers members member, rfl⟩
  | oneElement _ inductionHypothesis =>
    obtain ⟨element, rfl⟩ := inductionHypothesis
    exact ⟨.oneElement element, rfl⟩
  | moreElements _ _ before inside =>
    obtain ⟨elements, rfl⟩ := before
    obtain ⟨element, rfl⟩ := inside
    exact ⟨.moreElements elements element, rfl⟩

/-! ### Members put in the place of a member -/

/-- A member is exchanged for members. -/
abbrev Kind.exchanged : Kind → Kind
  | .member => .members
  | kind => kind

/-- What is put in the place of a member that a key names. -/
abbrev Exchange (key : List UInt8) :=
  (member : Tree .member) → member.place.named key = true → Tree .members

namespace Tree

/-- Members behind others. -/
def append (members : Tree .members) : Tree .members → Tree .members
  | oneMember last => moreMembers members last
  | moreMembers front last => moreMembers (append members front) last

/-- The tree with the first member that a key names exchanged, if it names one. -/
def exchange {key : List UInt8} (new : Exchange key) :
    {kind : Kind} → Tree kind → Option (Tree kind.exchanged)
  | _, literal _ _ | _, number _ _ | _, string _ _ | _, emptyObject _ _ | _, emptyArray _ _ => none
  | _, object inside => (inside.exchange new).map object
  | _, array inside => (inside.exchange new).map array
  | _, element before inside after wsBefore wsAfter =>
    (inside.exchange new).map fun inside => element before inside after wsBefore wsAfter
  | _, member before name gap inside wsBefore isString wsGap =>
    if named : (member before name gap inside wsBefore isString wsGap).place.named key = true then
      some (new _ named)
    else (inside.exchange new).map fun inside =>
      oneMember (member before name gap inside wsBefore isString wsGap)
  | _, oneMember inside => inside.exchange new
  | _, moreMembers front last =>
    ((front.exchange new).map fun front => moreMembers front last).or
      ((last.exchange new).map front.append)
  | _, oneElement inside => (inside.exchange new).map oneElement
  | _, moreElements front last =>
    ((front.exchange new).map fun front => moreElements front last).or
      ((last.exchange new).map (moreElements front))

theorem text_append (members : Tree .members) : ∀ more : Tree .members,
    (members.append more).text = members.text ++ 0x2C :: more.text
  | oneMember last => by rw [append, text, text]
  | moreMembers front last => by
    rw [append, text, text_append members front, text, List.append_assoc, List.cons_append]

end Tree

/-! ### What is exchanged -/

theorem Place.inside_nil (place : Place) : place.inside [] [] = place := by
  rw [inside, List.append_nil]
  rfl

theorem lookup_inside (key left right : List UInt8) (places : List Place) :
    lookup key (places.map (Place.inside left right)) =
      (lookup key places).map (Place.inside left right) :=
  List.find?_map ..

theorem lookup_append (key : List UInt8) (places more : List Place) :
    lookup key (places ++ more) = (lookup key places).or (lookup key more) :=
  List.find?_append ..

variable {key : List UInt8} {new : Exchange key}

variable (new) in
/-- The tree is exchanged at the place found: there is a member, and the text has others in its
place. -/
def ExchangesAt {kind : Kind} (tree : Tree kind) : Option Place → Prop
  | none => tree.exchange new = none
  | some place => ∃ left right member named tree', place = member.place.inside left right ∧
    tree.exchange new = some tree' ∧ tree'.text = left ++ (new member named).text ++ right

/-- What stands around a tree does not matter. -/
theorem ExchangesAt.around {kind kind' : Kind} {tree : Tree kind} {outer : Tree kind'}
    {wrap : Tree kind.exchanged → Tree kind'.exchanged} {left right : List UInt8}
    {found : Option Place} (exchanges : ExchangesAt new tree found)
    (same : outer.exchange new = (tree.exchange new).map wrap)
    (text : ∀ inside, (wrap inside).text = left ++ inside.text ++ right) :
    ExchangesAt new outer (found.map (Place.inside left right)) := by
  cases found with
  | none =>
    rw [Option.map_none, ExchangesAt, same, exchanges]
    rfl
  | some place =>
    obtain ⟨before, after, member, named, tree', rfl, exchanged, splice⟩ := exchanges
    refine ⟨left ++ before, after ++ right, member, named, wrap tree', ?_, ?_, ?_⟩
    · simp only [Place.inside, List.append_assoc]
    · rw [same, exchanged]
      rfl
    · rw [text, splice]
      simp only [List.append_assoc]

variable (new) in
/-- A tree is exchanged at the place the key looks up. -/
theorem Tree.exchangesAt {kind : Kind} (tree : Tree kind) :
    ExchangesAt new tree (lookup key tree.places) := by
  -- a list is exchanged in its first items, if they hold a member that the key names
  have more : ∀ {items item : Kind} {front : Tree items} {last : Tree item}
      {outer : Tree items} {left right : List UInt8}
      {wrap : Tree items.exchanged → Tree items.exchanged}
      {wrapLast : Tree item.exchanged → Tree items.exchanged},
      ExchangesAt new front (lookup key front.places) →
      ExchangesAt new last (lookup key last.places) →
      (outer.exchange new =
        ((front.exchange new).map wrap).or ((last.exchange new).map wrapLast)) →
      (∀ inside, (wrap inside).text = inside.text ++ right) →
      (∀ inside, (wrapLast inside).text = left ++ inside.text) →
      ExchangesAt new outer ((lookup key (front.places.map (Place.inside [] right))).or
        (lookup key (last.places.map (Place.inside left [])))) := by
    intro items item front last outer left right wrap wrapLast first second same text textLast
    rw [lookup_inside, lookup_inside]
    cases found : lookup key front.places with
    | none =>
      rw [found, ExchangesAt] at first
      rw [first] at same
      exact second.around same fun inside => (textLast inside).trans (List.append_nil _).symm
    | some place =>
      rw [found] at first
      obtain ⟨_, _, _, _, front', -, exchanged, -⟩ := id first
      rw [exchanged] at same
      refine first.around (same.trans ?_) text
      rw [exchanged]
      rfl
  induction tree with
  | literal | number | string | emptyObject | emptyArray => rfl
  | object inside inductionHypothesis =>
    rw [places, lookup_inside]
    exact inductionHypothesis.around rfl fun _ => rfl
  | array inside inductionHypothesis =>
    rw [places, lookup_inside]
    exact inductionHypothesis.around rfl fun _ => rfl
  | element before inside after _ _ inductionHypothesis =>
    rw [places, lookup_inside]
    exact inductionHypothesis.around rfl fun _ => rfl
  | member before name gap inside wsBefore isString wsGap inductionHypothesis =>
    rw [places, lookup, List.find?_cons]
    cases named : Place.named key ⟨before, name, gap, inside.text, []⟩ with
    | true =>
      exact ⟨[], [], member before name gap inside wsBefore isString wsGap, named, _,
        (Place.inside_nil _).symm, dif_pos named, (List.append_nil _).symm⟩
    | false =>
      have other := lookup_inside key (before ++ name ++ gap ++ [0x3A]) [] inside.places
      rw [lookup] at other
      rw [other]
      refine inductionHypothesis.around (dif_neg fun same => ?_) fun inside => ?_
      · exact Bool.false_ne_true (named.symm.trans same)
      · rw [text, text, List.append_nil, List.append_assoc _ [0x3A], List.singleton_append]
  | oneMember inside inductionHypothesis => exact inductionHypothesis
  | oneElement inside inductionHypothesis =>
    have here : ExchangesAt new (oneElement inside)
        ((lookup key inside.places).map (Place.inside [] [])) :=
      inductionHypothesis.around rfl fun _ => (List.append_nil _).symm
    rwa [funext Place.inside_nil, Option.map_id'] at here
  | moreMembers front last before inside =>
    rw [places, lookup_append]
    refine @more _ _ front last _ _ _ (fun front => moreMembers front last) front.append before
      inside rfl (fun _ => rfl) fun inside => ?_
    rw [text_append, List.append_assoc]
    rfl
  | moreElements front last before inside =>
    rw [places, lookup_append]
    refine @more _ _ front last _ _ _ (fun front => moreElements front last) (moreElements front)
      before inside rfl (fun _ => rfl) fun inside => ?_
    rw [text, List.append_assoc]
    rfl

/-! ### The members of a list -/

namespace Tree

/-- The members of a list, in order. -/
def list : Tree .members → List (Tree .member)
  | oneMember inside => [inside]
  | moreMembers front last => list front ++ [last]

theorem list_append (members : Tree .members) : ∀ more : Tree .members,
    (members.append more).list = members.list ++ more.list
  | oneMember last => by rw [append, list, list]
  | moreMembers front last => by
    rw [append, list, list_append members front, list, List.append_assoc]

/-- In a list one member is exchanged. -/
theorem exchange_list : ∀ members members' : Tree .members, members.exchange new = some members' →
    ∃ front member more back, members.list = front ++ member :: back ∧
      member.exchange new = some more ∧ members'.list = front ++ more.list ++ back
  | oneMember inside, members', exchanged =>
    ⟨[], inside, members', [], by rw [list]; rfl, exchanged, (List.append_nil _).symm⟩
  | moreMembers front last, members', exchanged => by
    rw [exchange, Option.or_eq_some_iff] at exchanged
    rcases exchanged with first | ⟨-, second⟩
    · obtain ⟨front', exchanged, rfl⟩ := Option.map_eq_some_iff.mp first
      obtain ⟨before, member, more, back, whole, inside, whole'⟩ :=
        exchange_list front front' exchanged
      refine ⟨before, member, more, back ++ [last], ?_, inside, ?_⟩
      · rw [list, whole, List.append_assoc, List.cons_append]
      · rw [list, whole', List.append_assoc]
    · obtain ⟨more, exchanged, rfl⟩ := Option.map_eq_some_iff.mp second
      refine ⟨front.list, last, more, [], by rw [list], exchanged, ?_⟩
      rw [list_append, List.append_nil]

/-- A member that none of some keys names, nor any member in it. -/
def free (keys : List (List UInt8)) (member : Tree .member) : Bool :=
  keys.all fun key => (lookup key member.places).isNone

/-- An exchange leaves the members as they are that its key does not name. -/
theorem exchange_sublist {keys : List (List UInt8)} (among : key ∈ keys)
    {members members' : Tree .members} (exchanged : members.exchange new = some members') :
    (members.list.filter (free keys)).Sublist (members'.list.filter (free keys)) := by
  obtain ⟨front, member, more, back, whole, inside, whole'⟩ := exchange_list _ _ exchanged
  have touched : ¬ free keys member = true := by
    intro untouched
    have absent := List.all_eq_true.mp untouched key among
    rw [Option.isNone_iff_eq_none] at absent
    have here := member.exchangesAt new
    rw [absent, ExchangesAt, inside] at here
    cases here
  rw [whole, whole', List.filter_append, List.filter_cons_of_neg touched, List.filter_append,
    List.filter_append]
  exact (List.sublist_append_left _ _).append_right _

end Tree

end Json
