/-
This file is a library about windows of recent entries, pruned at the front.

Each entry has a time. A new entry is put at the end of the window, and the
entries at the front that are older than the span are dropped; the first young
one stops the dropping, whatever stands behind it. `keeps_iff` says which
entries are kept, in terms of the times alone: an entry stays until a later one
comes more than the span after all the entries up to it. While the times never
decrease this is the window one would expect, `window_of_sorted`, and while they
are apart it is short, `length_window_le`.
-/

import Mathlib.Algebra.Order.Group.Defs
import Mathlib.Data.List.Chain
import Mathlib.Data.List.Induction
import Mathlib.Data.List.MinMax
import Mathlib.Tactic.Common

namespace Window

variable {Time Value : Type} [AddCommGroup Time] [LinearOrder Time]

/-- An entry that is more than the span before a time. -/
def old (span now : Time) (entry : Time × Value) : Bool := span < now - entry.1

/-- The window after a new entry. -/
def push (span : Time) (kept : List (Time × Value)) (entry : Time × Value) :
    List (Time × Value) :=
  (kept ++ [entry]).dropWhile (old span entry.1)

/-- The window after some entries. -/
def window (span : Time) (entries : List (Time × Value)) : List (Time × Value) :=
  entries.foldl (push span) []

variable {span : Time}

theorem old_eq_false {now : Time} {entry : Time × Value} :
    old span now entry = false ↔ now - entry.1 ≤ span := by
  rw [old, decide_eq_false_iff_not, not_lt]

theorem window_concat (entries : List (Time × Value)) (entry : Time × Value) :
    window span (entries ++ [entry]) = push span (window span entries) entry := by
  rw [window, List.foldl_append]
  rfl

/-- The window is an end of the entries. -/
theorem window_suffix (span : Time) (entries : List (Time × Value)) :
    window span entries <:+ entries := by
  induction entries using List.reverseRecOn with
  | nil => exact List.suffix_refl _
  | append_singleton entries entry inductionHypothesis =>
    rw [window_concat, push]
    refine (List.dropWhile_suffix _).trans ?_
    obtain ⟨dropped, whole⟩ := inductionHypothesis
    exact ⟨dropped, by rw [← List.append_assoc, whole]⟩

/-! ### Which entries are kept -/

/-- No later entry comes more than the span after all the entries up to this one. -/
def Reaches (span : Time) (before : List (Time × Value)) (entry : Time × Value)
    (after : List (Time × Value)) : Prop :=
  ∀ later ∈ after, ∃ earlier ∈ before ++ [entry], later.1 - earlier.1 ≤ span

/-- The window begins at the entry at a place of the entries, or before it. -/
def Keeps (span : Time) (before : List (Time × Value)) (entry : Time × Value)
    (after : List (Time × Value)) : Prop :=
  entry :: after <:+ window span (before ++ entry :: after)

omit [AddCommGroup Time] [LinearOrder Time] in
theorem suffix_dropWhile_iff {drops : Time × Value → Bool} {front rest : List (Time × Value)}
    {entry : Time × Value} :
    entry :: rest <:+ (front ++ entry :: rest).dropWhile drops ↔
      ∃ earlier ∈ front ++ [entry], drops earlier = false := by
  induction front with
  | nil =>
    rw [List.nil_append, List.nil_append]
    cases goes : drops entry with
    | true =>
      rw [List.dropWhile_cons_of_pos goes]
      constructor
      · intro suffix
        have short := (suffix.trans (List.dropWhile_suffix drops)).length_le
        rw [List.length_cons] at short
        omega
      · rintro ⟨earlier, member, stays⟩
        rw [List.mem_singleton.mp member, goes] at stays
        cases stays
    | false =>
      rw [List.dropWhile_cons_of_neg (by rw [goes]; exact Bool.false_ne_true)]
      exact ⟨fun _ => ⟨entry, List.mem_singleton_self entry, goes⟩, fun _ => List.suffix_refl _⟩
  | cons head front inductionHypothesis =>
    rw [List.cons_append, List.cons_append]
    cases goes : drops head with
    | true =>
      rw [List.dropWhile_cons_of_pos goes, inductionHypothesis]
      refine ⟨fun ⟨earlier, member, stays⟩ => ⟨earlier, List.mem_cons_of_mem _ member, stays⟩, ?_⟩
      rintro ⟨earlier, member, stays⟩
      rcases List.mem_cons.mp member with rfl | later
      · rw [goes] at stays
        cases stays
      · exact ⟨earlier, later, stays⟩
    | false =>
      rw [List.dropWhile_cons_of_neg (by rw [goes]; exact Bool.false_ne_true)]
      refine ⟨fun _ => ⟨head, List.mem_cons_self, goes⟩, fun _ => ?_⟩
      exact List.suffix_append (head :: front) (entry :: rest)

/-- One more entry keeps the window from a place on if it is close enough to one of the entries
in the window up to the place. -/
theorem keeps_concat_iff {before middle : List (Time × Value)} {entry last : Time × Value} :
    Keeps span before entry (middle ++ [last]) ↔
      ∃ front, window span (before ++ entry :: middle) = front ++ entry :: middle ∧
        ∃ earlier ∈ front ++ [entry], last.1 - earlier.1 ≤ span := by
  have step : window span (before ++ entry :: (middle ++ [last])) =
      push span (window span (before ++ entry :: middle)) last := by
    rw [← List.cons_append, ← List.append_assoc, window_concat]
  simp only [← old_eq_false]
  rw [Keeps, step, push]
  constructor
  · intro suffix
    have inside := suffix.trans (List.dropWhile_suffix _)
    rw [← List.cons_append, List.suffix_append_self_iff] at inside
    obtain ⟨front, whole⟩ := inside
    rw [← whole, List.append_assoc, List.cons_append, suffix_dropWhile_iff] at suffix
    exact ⟨front, whole.symm, suffix⟩
  · rintro ⟨front, whole, close⟩
    rw [whole, List.append_assoc, List.cons_append, suffix_dropWhile_iff]
    exact close

omit [AddCommGroup Time] in
theorem exists_latest (entries : List (Time × Value)) (nonempty : entries ≠ []) :
    ∃ latest ∈ entries, ∀ entry ∈ entries, entry.1 ≤ latest.1 := by
  cases best : entries.argmax Prod.fst with
  | none => exact absurd (List.argmax_eq_none.mp best) nonempty
  | some latest =>
    exact ⟨latest, List.argmax_mem best, fun entry member => List.le_of_mem_argmax member best⟩

theorem reaches_concat_iff {before middle : List (Time × Value)} {entry last : Time × Value} :
    Reaches span before entry (middle ++ [last]) ↔ Reaches span before entry middle ∧
      ∃ earlier ∈ before ++ [entry], last.1 - earlier.1 ≤ span := by
  rw [Reaches, List.forall_mem_append, List.forall_mem_singleton]
  rfl

/-- What stands in the window before a place stands right before it among the entries. -/
theorem front_suffix {before front middle : List (Time × Value)} {entry : Time × Value}
    (whole : window span (before ++ entry :: middle) = front ++ entry :: middle) :
    front <:+ before := by
  obtain ⟨dropped, split⟩ := window_suffix span (before ++ entry :: middle)
  rw [whole, ← List.append_assoc] at split
  exact ⟨dropped, List.append_cancel_right split⟩

variable [IsOrderedAddMonoid Time]

/-- The latest of the entries up to one that is kept is kept itself. -/
theorem latest_kept (fromZero : 0 ≤ span) {before front middle : List (Time × Value)}
    {entry latest : Time × Value}
    (kept : ∀ {before' after' entry'}, before' ++ entry' :: after' = before ++ entry :: middle →
      (Keeps span before' entry' after' ↔ Reaches span before' entry' after'))
    (reaches : Reaches span before entry middle)
    (whole : window span (before ++ entry :: middle) = front ++ entry :: middle)
    (member : latest ∈ before ++ [entry]) (above : ∀ earlier ∈ before ++ [entry],
      earlier.1 ≤ latest.1) : latest ∈ front ++ [entry] := by
  obtain ⟨dropped, rfl⟩ := front_suffix whole
  by_contra absent
  rw [List.append_assoc] at member
  have inDropped := (List.mem_append.mp member).resolve_right absent
  obtain ⟨early, late, rfl⟩ := List.append_of_mem inDropped
  have notKept : ¬ Keeps span early latest (late ++ front ++ entry :: middle) := by
    intro suffix
    have length := suffix.length_le
    simp only [List.append_assoc, List.cons_append] at whole length
    rw [whole] at length
    simp only [List.length_append, List.length_cons] at length
    omega
  rw [kept (by simp only [List.append_assoc, List.cons_append])] at notKept
  refine notKept fun later inside => ⟨latest, List.mem_append_right _
    (List.mem_singleton_self latest), ?_⟩
  rw [List.append_cons] at inside
  rcases List.mem_append.mp inside with upTo | beyond
  · have here : later ∈ early ++ latest :: late ++ front ++ [entry] := by
      simp only [List.append_assoc, List.cons_append] at upTo ⊢
      exact List.mem_append_right _ (List.mem_cons_of_mem _ upTo)
    exact (sub_nonpos.mpr (above later here)).trans fromZero
  · obtain ⟨earlier, upTo, close⟩ := reaches later beyond
    exact (sub_le_sub_left (above earlier upTo) _).trans close

/-- An entry at a place is kept exactly when no later one comes more than the span after all the
entries up to it. -/
theorem keeps_iff (fromZero : 0 ≤ span) {before after : List (Time × Value)}
    {entry : Time × Value} : Keeps span before entry after ↔ Reaches span before entry after := by
  generalize whole : before ++ entry :: after = entries
  induction entries using List.reverseRecOn generalizing before entry after with
  | nil => exact absurd whole (List.append_ne_nil_of_right_ne_nil _ (List.cons_ne_nil _ _))
  | append_singleton entries last inductionHypothesis =>
    rcases List.eq_nil_or_concat after with rfl | ⟨middle, last', rfl⟩
    · have young : old span entry.1 entry = false := old_eq_false.mpr (by rwa [sub_self])
      rw [Keeps, window_concat, push, suffix_dropWhile_iff]
      exact ⟨fun _ => nofun, fun _ => ⟨entry, List.mem_append_right _
        (List.mem_singleton_self entry), young⟩⟩
    · rw [List.concat_eq_append] at whole ⊢
      rw [← List.cons_append, ← List.append_assoc] at whole
      obtain ⟨rfl, -⟩ := List.append_inj' whole rfl
      rw [keeps_concat_iff, reaches_concat_iff, ← inductionHypothesis rfl]
      constructor
      · rintro ⟨front, window, earlier, member, close⟩
        refine ⟨⟨front, window.symm⟩, earlier, ?_, close⟩
        exact List.mem_append.mpr ((List.mem_append.mp member).imp_left
          fun inFront => (front_suffix window).subset inFront)
      · rintro ⟨⟨front, window⟩, earlier, member, close⟩
        have reaches := (inductionHypothesis rfl).mp ⟨front, window⟩
        obtain ⟨latest, latestIn, above⟩ := exists_latest (before ++ [entry])
          (List.append_ne_nil_of_right_ne_nil _ (List.cons_ne_nil _ _))
        refine ⟨front, window.symm, latest, ?_, ?_⟩
        · exact latest_kept fromZero inductionHypothesis reaches window.symm latestIn above
        · exact (sub_le_sub_left (above earlier member) _).trans close

/-! ### Times that never decrease -/

/-- The times of the entries never decrease. -/
def Sorted (entries : List (Time × Value)) : Prop :=
  entries.Pairwise fun earlier later => earlier.1 ≤ later.1

theorem dropWhile_of_sorted {entries : List (Time × Value)} (sorted : Sorted entries)
    (now : Time) :
    entries.dropWhile (old span now) = entries.filter fun entry => !old span now entry := by
  induction entries with
  | nil => rfl
  | cons head entries inductionHypothesis =>
    obtain ⟨below, rest⟩ := List.pairwise_cons.mp sorted
    cases goes : old span now head with
    | true =>
      rw [List.dropWhile_cons_of_pos goes, List.filter_cons_of_neg (by rw [goes]; decide),
        inductionHypothesis rest]
    | false =>
      rw [List.dropWhile_cons_of_neg (by rw [goes]; exact Bool.false_ne_true)]
      refine (List.filter_eq_self.mpr fun entry member => ?_).symm
      rw [Bool.not_eq_true']
      rcases List.mem_cons.mp member with rfl | later
      · exact goes
      · exact old_eq_false.mpr
          ((sub_le_sub_left (below entry later) now).trans (old_eq_false.mp goes))

/-- While the times never decrease the window is the entries within the span of the last one. -/
theorem window_of_sorted {entries : List (Time × Value)} {last : Time × Value}
    (sorted : Sorted (entries ++ [last])) :
    window span (entries ++ [last]) =
      (entries ++ [last]).filter fun entry => !old span last.1 entry := by
  induction entries using List.reverseRecOn generalizing last with
  | nil => exact dropWhile_of_sorted (List.pairwise_singleton ..) last.1
  | append_singleton entries middle inductionHypothesis =>
    obtain ⟨sortedBefore, -, below⟩ := List.pairwise_append.mp sorted
    have later := below middle (List.mem_append_right _ (List.mem_singleton_self middle)) last
      (List.mem_singleton_self last)
    have sublist : List.Sublist
        (((entries ++ [middle]).filter fun entry => !old span middle.1 entry) ++ [last])
        (entries ++ [middle] ++ [last]) := List.filter_sublist.append_right [last]
    have younger : ∀ entry : Time × Value, (!old span last.1 entry && !old span middle.1 entry) =
        !old span last.1 entry := by
      intro entry
      cases goes : old span last.1 entry with
      | true => rfl
      | false =>
        have young : old span middle.1 entry = false :=
          old_eq_false.mpr ((sub_le_sub_right later _).trans (old_eq_false.mp goes))
        rw [young]
        rfl
    rw [window_concat, push, inductionHypothesis sortedBefore,
      dropWhile_of_sorted (sorted.sublist sublist), List.filter_append, List.filter_filter]
    simp only [younger]
    exact (List.filter_append ..).symm

/-! ### Times that are apart -/

/-- Every entry comes at least a gap after the one before. -/
def Apart (gap : Time) (entries : List (Time × Value)) : Prop :=
  entries.IsChain fun earlier later => gap ≤ later.1 - earlier.1

/-- The last of some entries comes a gap for each of them after the first. -/
theorem Apart.length_nsmul_le {gap : Time} {entries : List (Time × Value)}
    {first last : Time × Value} (apart : Apart gap (first :: entries))
    (ends : last ∈ (first :: entries).getLast?) : entries.length • gap ≤ last.1 - first.1 := by
  induction entries generalizing first with
  | nil =>
    obtain rfl : first = last := by simpa using ends
    rw [List.length_nil, zero_nsmul, sub_self]
  | cons second entries inductionHypothesis =>
    obtain ⟨step, rest⟩ := List.isChain_cons_cons.mp apart
    have further := inductionHypothesis rest (by simpa using ends)
    rw [List.length_cons, succ_nsmul, ← sub_add_sub_cancel last.1 second.1 first.1]
    exact add_le_add further step

/-- A window of entries that are apart is short. -/
theorem length_window_le {gap : Time} {entries : List (Time × Value)} (fromZero : 0 ≤ span)
    (apart : Apart gap entries) : ((window span entries).length - 1) • gap ≤ span := by
  rcases List.eq_nil_or_concat entries with rfl | ⟨before, last, rfl⟩
  · rw [window, List.foldl_nil, List.length_nil, zero_nsmul]
    exact fromZero
  rw [List.concat_eq_append] at apart ⊢
  have kept := window_suffix span (before ++ [last])
  cases left : window span (before ++ [last]) with
  | nil =>
    rw [List.length_nil, zero_nsmul]
    exact fromZero
  | cons first rest =>
    rw [left] at kept
    obtain ⟨dropped, whole⟩ := kept
    have ends : last ∈ (first :: rest).getLast? := by
      have same := congrArg List.getLast? whole
      rwa [List.getLast?_append_cons, List.getLast?_concat] at same
    have apartKept : Apart gap (first :: rest) := by
      rw [← whole] at apart
      exact List.IsChain.right_of_append apart
    have young : old span last.1 first = false := by
      rw [window_concat, push] at left
      have stays := List.head?_dropWhile_not (old span last.1) (window span before ++ [last])
      rw [left] at stays
      simpa using stays
    exact (apartKept.length_nsmul_le ends).trans (old_eq_false.mp young)

end Window
