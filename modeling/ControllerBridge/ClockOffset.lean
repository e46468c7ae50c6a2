/-
This file is about the estimator of the clock offset in exact arithmetic.

A call keeps an end of the samples before it, appends its own, and subtracts
from its transfer time the least transfer time among these. Its own sample is
never expired, so there is a least one and the correction is never negative.
-/

import Mathlib.Algebra.Order.Field.Basic
import Mathlib.Order.Bounds.Basic
import Mathlib.Tactic.NormNum
import ControllerBridge.Timing

namespace ControllerBridge

section

variable {Number : Type} [LinearOrder Number]

/-- The loop over the samples computes the least transfer time. -/
theorem foldl_smaller_isLeast (samples : Samples Number) (first : Number) :
    IsLeast {transfer | transfer = first ∨ transfer ∈ samples.map Prod.snd}
      (samples.foldl smaller first) := by
  induction samples generalizing first with
  | nil => exact ⟨Or.inl rfl, fun transfer member => (member.resolve_right nofun).ge⟩
  | cons sample samples inductionHypothesis =>
    obtain ⟨attained, least⟩ := inductionHypothesis (smaller first sample)
    have belowFirst : smaller first sample ≤ first := by
      rw [smaller]
      split
      · rename_i below
        exact below.le
      · exact le_rfl
    have belowSample : smaller first sample ≤ sample.2 := by
      rw [smaller]
      split
      · exact le_rfl
      · rename_i above
        exact not_lt.mp above
    have chosen : smaller first sample = first ∨ smaller first sample = sample.2 := by
      rw [smaller]
      split
      · exact Or.inr rfl
      · exact Or.inl rfl
    have start := least (Or.inl rfl)
    rw [List.foldl_cons, List.map_cons]
    constructor
    · rcases attained with here | later
      · rw [Set.mem_ofPred_eq, here, List.mem_cons]
        exact chosen.imp_right Or.inl
      · exact Or.inr (List.mem_cons_of_mem _ later)
    · rintro transfer (rfl | member)
      · exact start.trans belowFirst
      · rcases List.mem_cons.mp member with rfl | later
        · exact start.trans belowSample
        · exact least (Or.inr later)

end

section

variable {Number : Type} [Field Number] [LinearOrder Number] [IsStrictOrderedRing Number]

/-- The sample of a call has not left the window. -/
theorem not_expired_self (now transfer : Number) : expired now (now, transfer) = false := by
  rw [expired, sub_self, kWindowSeconds, decide_eq_false_iff_not]
  norm_num

/-- What a call keeps, and what it returns: its transfer time less the least one that it keeps. -/
theorem clockOffsetCorrect_spec (samples : Samples Number) (frameTransferTime now : Number) :
    ∃ kept low, kept <:+ samples ∧
      (clockOffsetCorrect samples frameTransferTime now).1 = kept ++ [(now, frameTransferTime)] ∧
      IsLeast {transfer | transfer ∈ (kept ++ [(now, frameTransferTime)]).map Prod.snd} low ∧
      (clockOffsetCorrect samples frameTransferTime now).2 = frameTransferTime - low := by
  have window : (samples ++ [(now, frameTransferTime)]).dropWhile (expired now) =
      samples.dropWhile (expired now) ++ [(now, frameTransferTime)] := by
    rw [List.dropWhile_append]
    split
    · rename_i empty
      rw [List.isEmpty_iff.mp empty, List.dropWhile_cons_of_neg (by
        rw [not_expired_self]
        exact Bool.false_ne_true)]
      rfl
    · rfl
  refine ⟨samples.dropWhile (expired now), _, List.dropWhile_suffix _, window, ?_, rfl⟩
  rw [window]
  obtain ⟨front, rest, left⟩ := List.exists_cons_of_ne_nil
    (List.append_ne_nil_of_right_ne_nil (samples.dropWhile (expired now))
      (List.cons_ne_nil (now, frameTransferTime) []))
  rw [left, List.headD_cons]
  have least := foldl_smaller_isLeast (front :: rest) front.2
  have among : ∀ transfer, transfer = front.2 ∨ transfer ∈ (front :: rest).map Prod.snd ↔
      transfer ∈ (front :: rest).map Prod.snd := by
    intro transfer
    refine or_iff_right_of_imp ?_
    rintro rfl
    exact List.mem_map_of_mem List.mem_cons_self
  simpa only [among] using least

end

end ControllerBridge
