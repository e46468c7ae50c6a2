/-
This file is a library about searching a word in a text that is then spliced.

A splice replaces one stretch of a text by another. A search for a word that
ran on the text before the splice says something about the text after it only
if no occurrence of the word can reach into the replaced stretch or into the
replacement. `Separates` is that condition: every occurrence of the word in
`left ++ bar ++ right` lies in `left` or in `right`. For two fixed words it is
decided by comparing their ends (`Apart`), and it is closed under appending.
`FirstAt` is the first occurrence, and `FirstAt.splice` moves it across a
splice whose old and new stretches both separate the word.
-/

import Mathlib.Data.List.Infix

namespace Search

variable {Symbol : Type}

/-! ### Words that no occurrence crosses -/

/-- Every occurrence of `word` around `bar` lies wholly on one side of it. -/
def Separates (word bar : List Symbol) : Prop :=
  ∀ left right, word <:+: left ++ bar ++ right → word <:+: left ∨ word <:+: right

/-- Two words that share no overlap: neither holds the other, and no end of one is a
beginning of the other. -/
structure Apart (word bar : List Symbol) : Prop where
  notInside : ¬ word <:+: bar
  notAround : ¬ bar <:+: word
  entering : ∀ piece ∈ bar.inits, piece ≠ [] → ¬ piece <:+ word
  leaving : ∀ piece ∈ bar.tails, piece ≠ [] → ¬ piece <+: word

instance [DecidableEq Symbol] (word bar : List Symbol) : Decidable (Apart word bar) :=
  decidable_of_iff
    (¬ word <:+: bar ∧ ¬ bar <:+: word ∧
      (∀ piece ∈ bar.inits, piece ≠ [] → ¬ piece <:+ word) ∧
      ∀ piece ∈ bar.tails, piece ≠ [] → ¬ piece <+: word)
    ⟨fun ⟨inside, around, entering, leaving⟩ => ⟨inside, around, entering, leaving⟩,
      fun apart => ⟨apart.notInside, apart.notAround, apart.entering, apart.leaving⟩⟩

/-- Words that share no overlap separate each other's occurrences. -/
theorem Apart.separates {word bar : List Symbol} (apart : Apart word bar) :
    Separates word bar := by
  intro left right occurs
  rw [List.append_assoc, List.infix_append_iff] at occurs
  rcases occurs with inLeft | beyond | ⟨front, back, rfl, inLeft, beyond⟩
  · exact Or.inl inLeft
  · rw [List.infix_append_iff] at beyond
    rcases beyond with inBar | inRight | ⟨front, back, rfl, inBar, inRight⟩
    · exact absurd inBar apart.notInside
    · exact Or.inr inRight
    · by_cases empty : front = []
      · subst empty
        exact Or.inr inRight.isInfix
      · exact absurd (List.prefix_append front back)
          (apart.leaving front ((List.mem_tails _ _).mpr inBar) empty)
  · by_cases empty : back = []
    · subst empty
      rw [List.append_nil]
      exact Or.inl inLeft.isInfix
    · rcases List.prefix_or_prefix_of_prefix beyond (List.prefix_append bar right) with
        within | around
      · exact absurd (List.suffix_append front back)
          (apart.entering back ((List.mem_inits _ _).mpr within) empty)
      · exact absurd (around.isInfix.trans (List.suffix_append front back).isInfix)
          apart.notAround

/-- A symbol that a word does not hold separates its occurrences. -/
theorem separates_singleton {word : List Symbol} {symbol : Symbol} (absent : symbol ∉ word) :
    Separates word [symbol] := by
  by_cases empty : word = []
  · subst empty
    exact fun _ _ _ => Or.inl List.nil_infix
  · refine Apart.separates ⟨fun inside => ?_, fun around => ?_, fun piece member nonempty => ?_,
      fun piece member nonempty => ?_⟩
    · obtain ⟨head, tail, rfl⟩ := List.exists_cons_of_ne_nil empty
      have here : head ∈ [symbol] := inside.subset List.mem_cons_self
      rw [List.mem_singleton] at here
      exact absent (here ▸ List.mem_cons_self)
    · exact absent (around.subset (List.mem_singleton_self symbol))
    · obtain ⟨head, tail, rfl⟩ := List.exists_cons_of_ne_nil nonempty
      have here : head ∈ [symbol] :=
        ((List.mem_inits _ _).mp member).subset List.mem_cons_self
      rw [List.mem_singleton] at here
      exact fun ends => absent (here ▸ ends.subset List.mem_cons_self)
    · obtain ⟨head, tail, rfl⟩ := List.exists_cons_of_ne_nil nonempty
      have here : head ∈ [symbol] :=
        ((List.mem_tails _ _).mp member).subset List.mem_cons_self
      rw [List.mem_singleton] at here
      exact fun begins => absent (here ▸ begins.subset List.mem_cons_self)

/-- Separating stretches may be put one after the other. -/
theorem Separates.append {word first second : List Symbol} (separatesFirst : Separates word first)
    (separatesSecond : Separates word second) : Separates word (first ++ second) := by
  intro left right occurs
  rw [← List.append_assoc, List.append_assoc] at occurs
  rcases separatesFirst left (second ++ right) occurs with inLeft | beyond
  · exact Or.inl inLeft
  · rcases separatesSecond [] right beyond with inNil | inRight
    · rw [List.infix_nil] at inNil
      subst inNil
      exact Or.inl List.nil_infix
    · exact Or.inr inRight

/-- No occurrence of a word begins in a stretch that does not hold its first symbol. -/
theorem infix_of_head_notMem {head : Symbol} {tail inert right : List Symbol}
    (absent : head ∉ inert) (occurs : head :: tail <:+: inert ++ right) :
    head :: tail <:+: right := by
  rw [List.infix_append_iff] at occurs
  rcases occurs with inInert | inRight | ⟨front, back, whole, inInert, inRight⟩
  · exact absurd (inInert.subset List.mem_cons_self) absent
  · exact inRight
  · cases front with
    | nil =>
      rw [List.nil_append] at whole
      exact whole ▸ inRight.isInfix
    | cons symbol rest =>
      rw [List.cons_append, List.cons.injEq] at whole
      exact absurd (inInert.subset (whole.1 ▸ List.mem_cons_self)) absent

/-- A separating stretch may be followed by one in which no occurrence begins. -/
theorem Separates.append_inert {head : Symbol} {tail bar inert : List Symbol}
    (separates : Separates (head :: tail) bar) (absent : head ∉ inert) :
    Separates (head :: tail) (bar ++ inert) := by
  intro left right occurs
  rw [← List.append_assoc, List.append_assoc] at occurs
  rcases separates left (inert ++ right) occurs with inLeft | beyond
  · exact Or.inl inLeft
  · exact Or.inr (infix_of_head_notMem absent beyond)

/-! ### The first occurrence -/

/-- `word` occurs in `text` right after `before`, and not earlier: the text up to the last
symbol of this occurrence does not hold the word. -/
structure FirstAt (word text before after : List Symbol) : Prop where
  split : text = before ++ word ++ after
  fresh : ¬ word <:+: before ++ word.dropLast

/-- A word is longer than its beginning without the last symbol. -/
theorem not_infix_dropLast {word : List Symbol} (nonempty : word ≠ []) :
    ¬ word <:+: word.dropLast := by
  intro occurs
  have shorter := occurs.length_le
  have positive := List.length_pos_of_ne_nil nonempty
  rw [List.length_dropLast] at shorter
  omega

theorem FirstAt.infix {word text before after : List Symbol}
    (first : FirstAt word text before after) : word <:+: text :=
  ⟨before, after, first.split.symm⟩

theorem FirstAt.before_infix {word text before after : List Symbol}
    (first : FirstAt word text before after) : before <:+: text :=
  ⟨[], word ++ after, by rw [first.split, List.nil_append, List.append_assoc]⟩

/-- The text before the first occurrence does not hold the word. -/
theorem FirstAt.not_infix_before {word text before after : List Symbol}
    (first : FirstAt word text before after) : ¬ word <:+: before :=
  fun occurs => first.fresh (occurs.trans (List.prefix_append _ _).isInfix)

/-- No occurrence is earlier than the first one. -/
theorem FirstAt.length_le {word text before after before' after' : List Symbol}
    (first : FirstAt word text before after) (split : text = before' ++ word ++ after') :
    before.length ≤ before'.length := by
  by_contra shorter
  refine first.fresh ?_
  have cut : before' ++ word <+: before ++ word.dropLast := by
    have later : before' ++ word <+: text := ⟨after', split.symm⟩
    refine List.prefix_of_prefix_length_le later ?_ ?_
    · rw [first.split, List.append_assoc]
      exact List.prefix_append_right_inj before |>.mpr
        ((List.dropLast_prefix word).trans (List.prefix_append _ _))
    · rw [List.length_append, List.length_append, List.length_dropLast]
      omega
  exact (List.suffix_append before' word).isInfix.trans cut.isInfix

theorem FirstAt.unique {word text before after before' after' : List Symbol}
    (first : FirstAt word text before after) (second : FirstAt word text before' after') :
    before = before' ∧ after = after' := by
  have sameLength : before.length = before'.length :=
    le_antisymm (first.length_le second.split) (second.length_le first.split)
  have same := first.split.symm.trans second.split
  rw [List.append_assoc, List.append_assoc] at same
  obtain ⟨sameBefore, rest⟩ := List.append_inj same sameLength
  exact ⟨sameBefore, List.append_cancel_left rest⟩

/-- The text cut at the first occurrence of a word: what stands before it, and what follows. -/
def cutFirst [DecidableEq Symbol] (word : List Symbol) :
    List Symbol → Option (List Symbol × List Symbol)
  | [] => none
  | head :: tail =>
    if word <+: head :: tail then some ([], (head :: tail).drop word.length)
    else (cutFirst word tail).map fun pieces => (head :: pieces.1, pieces.2)

theorem firstAt_of_cutFirst [DecidableEq Symbol] {word : List Symbol} (nonempty : word ≠ [])
    {text before after : List Symbol} (found : cutFirst word text = some (before, after)) :
    FirstAt word text before after := by
  induction text generalizing before with
  | nil => cases found
  | cons head tail inductionHypothesis =>
    rw [cutFirst] at found
    split at found
    · rename_i begins
      rw [Option.some_inj, Prod.mk.injEq] at found
      obtain ⟨rfl, rfl⟩ := found
      obtain ⟨rest, whole⟩ := begins
      refine ⟨?_, not_infix_dropLast nonempty⟩
      rw [← whole, List.drop_left, List.nil_append]
    · rename_i beginsNot
      rw [Option.map_eq_some_iff] at found
      obtain ⟨⟨before', after'⟩, later, same⟩ := found
      rw [Prod.mk.injEq] at same
      obtain ⟨rfl, rfl⟩ := same
      have rest := inductionHypothesis later
      refine ⟨by rw [rest.split]; rfl, fun occurs => ?_⟩
      rw [List.cons_append, List.infix_cons_iff] at occurs
      rcases occurs with here | there
      · refine beginsNot (here.trans ?_)
        rw [rest.split, List.append_assoc, List.cons_prefix_cons]
        exact ⟨rfl, List.prefix_append_right_inj before' |>.mpr
          ((List.dropLast_prefix word).trans (List.prefix_append _ _))⟩
      · exact rest.fresh there

theorem cutFirst_eq_none_iff [DecidableEq Symbol] {word : List Symbol} (nonempty : word ≠ [])
    {text : List Symbol} : cutFirst word text = none ↔ ¬ word <:+: text := by
  induction text with
  | nil => simp [cutFirst, nonempty]
  | cons head tail inductionHypothesis =>
    rw [cutFirst, List.infix_cons_iff]
    split
    · rename_i begins
      simp [begins]
    · rename_i beginsNot
      rw [Option.map_eq_none_iff, inductionHypothesis]
      simp [beginsNot]

/-- The cut is the first occurrence. -/
theorem cutFirst_eq_some_iff [DecidableEq Symbol] {word : List Symbol} (nonempty : word ≠ [])
    {text before after : List Symbol} :
    cutFirst word text = some (before, after) ↔ FirstAt word text before after := by
  refine ⟨firstAt_of_cutFirst nonempty, fun first => ?_⟩
  cases found : cutFirst word text with
  | none => exact absurd first.infix ((cutFirst_eq_none_iff nonempty).mp found)
  | some pieces =>
    obtain ⟨sameBefore, sameAfter⟩ := (firstAt_of_cutFirst nonempty found).unique first
    rw [← sameBefore, ← sameAfter]

theorem exists_firstAt {word text : List Symbol} (nonempty : word ≠ [])
    (occurs : word <:+: text) : ∃ before after, FirstAt word text before after := by
  classical
  cases found : cutFirst word text with
  | none => exact absurd occurs ((cutFirst_eq_none_iff nonempty).mp found)
  | some pieces => exact ⟨pieces.1, pieces.2, firstAt_of_cutFirst nonempty found⟩

/-! ### The first occurrence across a splice -/

/-- More text after the first occurrence does not move it. -/
theorem FirstAt.append_right {word text before after : List Symbol}
    (first : FirstAt word text before after) (right : List Symbol) :
    FirstAt word (text ++ right) before (after ++ right) :=
  ⟨by rw [first.split, List.append_assoc], first.fresh⟩

/-- Text before the first occurrence that does not hold the word, closed by a separating
stretch, only shifts it. -/
theorem FirstAt.append_left {word text before after left bar : List Symbol}
    (first : FirstAt word text before after) (absent : ¬ word <:+: left)
    (separates : Separates word bar) :
    FirstAt word (left ++ bar ++ text) (left ++ bar ++ before) after := by
  refine ⟨by rw [first.split]; simp only [List.append_assoc], fun occurs => ?_⟩
  rw [List.append_assoc] at occurs
  rcases separates left (before ++ word.dropLast) occurs with inLeft | beyond
  · exact absent inLeft
  · exact first.fresh beyond

/-- Replacing a separating stretch by a separating one moves the first occurrence with the
text it stands in: it is either wholly before the stretch or wholly after it. -/
theorem FirstAt.splice {word left old right before after : List Symbol} (nonempty : word ≠ [])
    (first : FirstAt word (left ++ old ++ right) before after) (separatesOld : Separates word old)
    (replacement : List Symbol) (separatesNew : Separates word replacement) :
    (∃ rest, left = before ++ word ++ rest ∧ after = rest ++ old ++ right ∧
      FirstAt word (left ++ replacement ++ right) before (rest ++ replacement ++ right)) ∨
    (∃ rest, right = rest ++ word ++ after ∧ before = left ++ old ++ rest ∧
      FirstAt word (left ++ replacement ++ right) (left ++ replacement ++ rest) after) := by
  by_cases inLeft : word <:+: left
  · obtain ⟨before', rest, here⟩ := exists_firstAt nonempty inLeft
    have whole := here.append_right (old ++ right)
    rw [← List.append_assoc, ← List.append_assoc] at whole
    obtain ⟨rfl, rfl⟩ := first.unique whole
    refine Or.inl ⟨rest, here.split, rfl, ?_⟩
    have spliced := here.append_right (replacement ++ right)
    rwa [← List.append_assoc, ← List.append_assoc] at spliced
  · have inRight : word <:+: right :=
      (separatesOld left right first.infix).resolve_left inLeft
    obtain ⟨rest, after', there⟩ := exists_firstAt nonempty inRight
    obtain ⟨rfl, rfl⟩ := first.unique (there.append_left inLeft separatesOld)
    exact Or.inr ⟨rest, there.split, rfl, there.append_left inLeft separatesNew⟩

/-- A splice of separating stretches creates no occurrence. -/
theorem Separates.not_infix_splice {word left old right replacement : List Symbol}
    (separatesNew : Separates word replacement) (absent : ¬ word <:+: left ++ old ++ right) :
    ¬ word <:+: left ++ replacement ++ right := by
  intro occurs
  rcases separatesNew left right occurs with inLeft | inRight
  · refine absent (inLeft.trans ?_)
    rw [List.append_assoc]
    exact (List.prefix_append _ _).isInfix
  · exact absent (inRight.trans (List.suffix_append _ _).isInfix)

/-! ### A word that does not overlap itself -/

/-- No beginning of the word, short of the word itself, is an end of it. -/
def Unbordered (word : List Symbol) : Prop :=
  ∀ piece ∈ word.dropLast.inits, piece ≠ [] → ¬ piece <:+ word

instance [DecidableEq Symbol] (word : List Symbol) : Decidable (Unbordered word) :=
  inferInstanceAs (Decidable (∀ piece ∈ word.dropLast.inits, piece ≠ [] → ¬ piece <:+ word))

/-- Writing an unbordered word after a text that does not hold it makes this its first
occurrence. -/
theorem Unbordered.firstAt {word before : List Symbol} (unbordered : Unbordered word)
    (nonempty : word ≠ []) (absent : ¬ word <:+: before) (after : List Symbol) :
    FirstAt word (before ++ word ++ after) before after := by
  refine ⟨rfl, fun occurs => ?_⟩
  rw [List.infix_append_iff] at occurs
  rcases occurs with inBefore | inWord | ⟨front, back, whole, inBefore, inWord⟩
  · exact absent inBefore
  · exact not_infix_dropLast nonempty inWord
  · by_cases empty : back = []
    · subst empty
      rw [List.append_nil] at whole
      exact absent (whole ▸ inBefore.isInfix)
    · refine unbordered back ((List.mem_inits _ _).mpr inWord) empty ?_
      exact ⟨front, whole.symm⟩

/-! ### The last occurrence of a symbol -/

/-- `symbol` stands in `text` right after `before`, and nowhere later. -/
structure LastAt (symbol : Symbol) (text before after : List Symbol) : Prop where
  split : text = before ++ symbol :: after
  fresh : symbol ∉ after

/-- The text cut at the last occurrence of a symbol: what stands before it, and what follows. -/
def cutLast [DecidableEq Symbol] (symbol : Symbol) :
    List Symbol → Option (List Symbol × List Symbol)
  | [] => none
  | head :: tail =>
    match cutLast symbol tail with
    | some pieces => some (head :: pieces.1, pieces.2)
    | none => if head = symbol then some ([], tail) else none

theorem cutLast_eq_none_iff [DecidableEq Symbol] {symbol : Symbol} {text : List Symbol} :
    cutLast symbol text = none ↔ symbol ∉ text := by
  induction text with
  | nil => simp [cutLast]
  | cons head tail inductionHypothesis =>
    rw [cutLast, List.mem_cons, not_or, ← inductionHypothesis]
    cases cutLast symbol tail with
    | some pieces => simp
    | none =>
      by_cases same : head = symbol
      · simp [same]
      · simp [same, Ne.symm same]

theorem lastAt_of_cutLast [DecidableEq Symbol] {symbol : Symbol} {text before after : List Symbol}
    (found : cutLast symbol text = some (before, after)) : LastAt symbol text before after := by
  induction text generalizing before with
  | nil => cases found
  | cons head tail inductionHypothesis =>
    rw [cutLast] at found
    split at found
    · rename_i pieces later
      rw [Option.some_inj, Prod.mk.injEq] at found
      obtain ⟨rfl, rfl⟩ := found
      have rest := inductionHypothesis later
      exact ⟨by rw [rest.split]; rfl, rest.fresh⟩
    · rename_i absent
      split at found
      · rename_i same
        rw [Option.some_inj, Prod.mk.injEq] at found
        obtain ⟨rfl, rfl⟩ := found
        exact ⟨by rw [same]; rfl, cutLast_eq_none_iff.mp absent⟩
      · cases found

theorem LastAt.unique {symbol : Symbol} {text before after before' after' : List Symbol}
    (last : LastAt symbol text before after) (second : LastAt symbol text before' after') :
    before = before' ∧ after = after' := by
  have same := last.split.symm.trans second.split
  rw [List.append_eq_append_iff] at same
  rcases same with ⟨rest, rfl, tail⟩ | ⟨rest, rfl, tail⟩
  · cases rest with
    | nil => exact ⟨(List.append_nil _).symm, (List.cons.inj tail).2⟩
    | cons head rest' =>
      rw [List.cons_append, List.cons.injEq] at tail
      refine absurd ?_ last.fresh
      rw [tail.2]
      exact List.mem_append_right _ List.mem_cons_self
  · cases rest with
    | nil => exact ⟨List.append_nil _, (List.cons.inj tail).2.symm⟩
    | cons head rest' =>
      rw [List.cons_append, List.cons.injEq] at tail
      refine absurd ?_ second.fresh
      rw [tail.2]
      exact List.mem_append_right _ List.mem_cons_self

/-- The cut is the last occurrence. -/
theorem cutLast_eq_some_iff [DecidableEq Symbol] {symbol : Symbol}
    {text before after : List Symbol} :
    cutLast symbol text = some (before, after) ↔ LastAt symbol text before after := by
  refine ⟨lastAt_of_cutLast, fun last => ?_⟩
  cases found : cutLast symbol text with
  | none =>
    refine absurd ?_ (cutLast_eq_none_iff.mp found)
    rw [last.split]
    exact List.mem_append_right _ List.mem_cons_self
  | some pieces =>
    obtain ⟨sameBefore, sameAfter⟩ := (lastAt_of_cutLast found).unique last
    rw [← sameBefore, ← sameAfter]

/-! ### Scans -/

/-- A scan over symbols that pass the test, stopped by what follows them. -/
theorem takeWhile_append_of_stops {test : Symbol → Bool} {front rest : List Symbol}
    (passes : ∀ symbol ∈ front, test symbol = true)
    (stops : ∀ symbol ∈ rest.head?, test symbol = false) :
    (front ++ rest).takeWhile test = front := by
  rw [List.takeWhile_append_of_pos passes]
  cases rest with
  | nil => rw [List.takeWhile_nil, List.append_nil]
  | cons head tail =>
    rw [List.takeWhile_cons_of_neg (by rw [stops head rfl]; exact Bool.false_ne_true),
      List.append_nil]

theorem dropWhile_append_of_stops {test : Symbol → Bool} {front rest : List Symbol}
    (passes : ∀ symbol ∈ front, test symbol = true)
    (stops : ∀ symbol ∈ rest.head?, test symbol = false) :
    (front ++ rest).dropWhile test = rest := by
  rw [List.dropWhile_append_of_pos passes]
  cases rest with
  | nil => rfl
  | cons head tail =>
    rw [List.dropWhile_cons_of_neg (by rw [stops head rfl]; exact Bool.false_ne_true)]

/-- A text is cut in one way only into symbols that pass a test and what goes on with none. -/
theorem stretch_unique {test : Symbol → Bool} {front front' rest rest' : List Symbol}
    (passes : ∀ symbol ∈ front, test symbol = true)
    (passes' : ∀ symbol ∈ front', test symbol = true)
    (stops : ∀ symbol ∈ rest.head?, test symbol = false)
    (stops' : ∀ symbol ∈ rest'.head?, test symbol = false)
    (same : front ++ rest = front' ++ rest') : front = front' ∧ rest = rest' := by
  have cut := congrArg (List.takeWhile test) same
  rw [takeWhile_append_of_stops passes stops, takeWhile_append_of_stops passes' stops'] at cut
  subst cut
  exact ⟨rfl, List.append_cancel_left same⟩

theorem stops_dropWhile (test : Symbol → Bool) (text : List Symbol) :
    ∀ symbol ∈ (text.dropWhile test).head?, test symbol = false := by
  intro symbol member
  have head := List.head?_dropWhile_not test text
  rw [Option.mem_def] at member
  rw [member] at head
  exact head

end Search
