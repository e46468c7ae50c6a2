/-
This file is a library about byte regions whose every access is checked.

A C function reads and writes byte ranges it was handed by address and length.
Here a range that is only read is the list of its bytes, and a range that is
written is a `Buffer`, the bytes of an array of fixed capacity. An access
outside the range, or a subtraction of lengths that would wrap, is a `Fault`,
so a computation that returns `ok` has made none. Every operation has one lemma
that says when it does not fault and what it then returns; `Buffer.put` names
the effect of writing a text at the start of a buffer.
-/

import Mathlib.Data.List.Induction
import Mathlib.Data.List.TakeWhile
import Mathlib.Tactic.Common

namespace Region

/-! ### Checked computations -/

/-- What a checked computation can do wrong. -/
inductive Fault where
  | read
  | write
  | subtract
  deriving DecidableEq, Repr

/-- A computation on regions: a result, or the first access that left its range. -/
abbrev Checked (Result : Type) := Except Fault Result

@[simp] theorem ok_bind {First Second : Type} (value : First) (next : First → Checked Second) :
    ((Except.ok value : Checked First) >>= next) = next value := rfl

/-- A subtraction of lengths; it must not wrap. -/
def subtract (minuend subtrahend : Nat) : Checked Nat :=
  if subtrahend ≤ minuend then .ok (minuend - subtrahend) else .error .subtract

theorem subtract_ok {minuend subtrahend : Nat} (le : subtrahend ≤ minuend) :
    subtract minuend subtrahend = .ok (minuend - subtrahend) := by
  rw [subtract, if_pos le]

/-- The conversion of a `size_t` to a 32-bit `int`. -/
def toInt (count : Nat) : Int := Int.bmod count 4294967296

/-- The largest `int`. -/
def intMax : Nat := 2147483647

theorem toInt_of_le {count : Nat} (small : count ≤ intMax) : toInt count = count := by
  have below : count ≤ 2147483647 := small
  refine Int.bmod_eq_of_le ?_ ?_
  · omega
  · omega

/-! ### Reading -/

/-- One byte of a region. -/
def load (region : List UInt8) (index : Nat) : Checked UInt8 :=
  match region[index]? with
  | some byte => .ok byte
  | none => .error .read

theorem load_ok {region : List UInt8} {index : Nat} (bound : index < region.length) :
    load region index = .ok region[index] := by
  rw [load, List.getElem?_eq_getElem bound]

/-- `count` bytes of a region from `start` on, the source of a copy or of a comparison. -/
def slice (region : List UInt8) (start count : Nat) : Checked (List UInt8) :=
  if start + count ≤ region.length then .ok ((region.drop start).take count) else .error .read

theorem slice_ok {region : List UInt8} {start count : Nat}
    (bound : start + count ≤ region.length) :
    slice region start count = .ok ((region.drop start).take count) := by
  rw [slice, if_pos bound]

/-- A region written as three stretches yields its middle one. -/
theorem slice_middle (left middle right : List UInt8) :
    slice (left ++ middle ++ right) left.length middle.length = .ok middle := by
  rw [slice_ok (by simp only [List.length_append]; omega), List.append_assoc, List.drop_left,
    List.take_left]

theorem slice_tail (left right : List UInt8) :
    slice (left ++ right) left.length right.length = .ok right := by
  have whole := slice_middle left right []
  rwa [List.append_nil] at whole

theorem slice_head (left right : List UInt8) :
    slice (left ++ right) 0 left.length = .ok left := by
  have whole := slice_middle [] left right
  rwa [List.nil_append] at whole

theorem slice_all (region : List UInt8) : slice region 0 region.length = .ok region := by
  have whole := slice_head region []
  rwa [List.append_nil] at whole

/-- `while (index < length && test(region[index])) index++`, for at most `fuel` rounds. -/
def scanWhile (test : UInt8 → Bool) (region : List UInt8) : Nat → Nat → Checked Nat
  | 0, index => .ok index
  | fuel + 1, index =>
    if index < region.length then do
      let byte ← load region index
      if test byte then scanWhile test region fuel (index + 1) else .ok index
    else .ok index

/-- The scan stops after the bytes that pass the test. -/
theorem scanWhile_append (test : UInt8 → Bool) (left right : List UInt8) (fuel : Nat)
    (enough : right.length ≤ fuel) :
    scanWhile test (left ++ right) fuel left.length =
      .ok (left.length + (right.takeWhile test).length) := by
  induction fuel generalizing left right with
  | zero =>
    obtain rfl : right = [] := List.length_eq_zero_iff.mp (Nat.le_zero.mp enough)
    rfl
  | succ fuel inductionHypothesis =>
    cases right with
    | nil => simp [scanWhile]
    | cons byte rest =>
      have bound : left.length < (left ++ byte :: rest).length := by
        rw [List.length_append, List.length_cons]
        omega
      have here : (left ++ byte :: rest)[left.length] = byte := by simp
      rw [scanWhile, if_pos bound, load_ok bound, here, ok_bind]
      by_cases passes : test byte = true
      · have step := inductionHypothesis (left ++ [byte]) rest
          (Nat.le_of_succ_le_succ enough)
        rw [List.append_assoc, List.singleton_append, List.length_append,
          List.length_singleton] at step
        rw [if_pos passes, step, List.takeWhile_cons_of_pos passes, List.length_cons]
        congr 1
        omega
      · rw [if_neg passes, List.takeWhile_cons_of_neg passes]
        rfl

/-- `while (position > 0 && region[position - 1] != target) position--`. -/
def scanBack (target : UInt8) (region : List UInt8) : Nat → Checked Nat
  | 0 => .ok 0
  | position + 1 => do
    let byte ← load region position
    if byte ≠ target then scanBack target region position else .ok (position + 1)

/-- The backward scan from the end of a stretch without the target passes over it. -/
theorem scanBack_append {target : UInt8} (left middle right : List UInt8)
    (absent : target ∉ middle) :
    scanBack target (left ++ middle ++ right) (left.length + middle.length) =
      scanBack target (left ++ middle ++ right) left.length := by
  induction middle using List.reverseRecOn generalizing right with
  | nil => rfl
  | append_singleton front byte inductionHypothesis =>
    have bound : left.length + front.length < (left ++ (front ++ [byte]) ++ right).length := by
      simp only [List.length_append, List.length_singleton]
      omega
    have here : (left ++ (front ++ [byte]) ++ right)[left.length + front.length] = byte := by
      simp
    have other : byte ≠ target := fun same =>
      absent (same ▸ List.mem_append_right _ (List.mem_singleton_self byte))
    rw [List.length_append, List.length_singleton, ← Nat.add_assoc, scanBack, load_ok bound, here,
      ok_bind, if_pos other]
    have rest := inductionHypothesis (byte :: right)
      fun member => absent (List.mem_append_left _ member)
    simpa only [List.append_assoc, List.singleton_append] using rest

theorem scanBack_found {target : UInt8} (left right : List UInt8) (absent : target ∉ right) :
    scanBack target (left ++ target :: right) (left ++ target :: right).length =
      .ok (left.length + 1) := by
  have pass := scanBack_append (left ++ [target]) right [] absent
  simp only [List.append_nil, List.append_assoc, List.singleton_append, List.length_append,
    List.length_singleton] at pass
  have bound : left.length < (left ++ target :: right).length := by
    rw [List.length_append, List.length_cons]
    omega
  have here : (left ++ target :: right)[left.length] = target := by simp
  rw [List.length_append, List.length_cons, ← Nat.add_assoc, Nat.add_right_comm, pass, scanBack,
    load_ok bound, here, ok_bind, if_neg (not_not_intro rfl)]

theorem scanBack_absent {target : UInt8} (region : List UInt8) (absent : target ∉ region) :
    scanBack target region region.length = .ok 0 := by
  have pass := scanBack_append [] region [] absent
  simp only [List.append_nil, List.nil_append, List.length_nil, Nat.zero_add] at pass
  rw [pass, scanBack]

/-! ### Buffers -/

/-- The bytes of an array of `capacity` bytes. -/
structure Buffer (capacity : Nat) where
  bytes : List UInt8
  size : bytes.length = capacity
  deriving DecidableEq

namespace Buffer

variable {capacity : Nat}

/-- An array whose bytes are all zero, as a static array starts. -/
def zeroed (capacity : Nat) : Buffer capacity :=
  ⟨List.replicate capacity 0, List.length_replicate⟩

/-- The first `count` bytes. -/
def text (buffer : Buffer capacity) (count : Nat) : List UInt8 := buffer.bytes.take count

theorem text_length (buffer : Buffer capacity) {count : Nat} (fits : count ≤ capacity) :
    (buffer.text count).length = count := by
  rw [text, List.length_take, buffer.size, Nat.min_eq_left fits]

/-- Copying `data` into the array at `start`. -/
def store (buffer : Buffer capacity) (start : Nat) (data : List UInt8) :
    Checked (Buffer capacity) :=
  if fits : start + data.length ≤ capacity then
    .ok ⟨buffer.bytes.take start ++ data ++ buffer.bytes.drop (start + data.length), by
      have size := buffer.size
      simp only [List.length_append, List.length_take, List.length_drop]
      omega⟩
  else .error .write

theorem store_ok (buffer : Buffer capacity) {start : Nat} {data : List UInt8}
    (fits : start + data.length ≤ capacity) :
    ∃ stored : Buffer capacity, buffer.store start data = .ok stored ∧
      stored.bytes = buffer.bytes.take start ++ data ++ buffer.bytes.drop (start + data.length) :=
  ⟨_, dif_pos fits, rfl⟩

/-- The array with a text written at its start; what it held further on stays. -/
def put (buffer : Buffer capacity) (new : List UInt8) : Buffer capacity :=
  ⟨(new ++ buffer.bytes.drop new.length).take capacity, by
    have size := buffer.size
    simp only [List.length_take, List.length_append, List.length_drop]
    omega⟩

theorem put_bytes (buffer : Buffer capacity) {new : List UInt8} (fits : new.length ≤ capacity) :
    (buffer.put new).bytes = new ++ buffer.bytes.drop new.length := by
  refine List.take_of_length_le ?_
  rw [List.length_append, List.length_drop, buffer.size]
  omega

theorem ext {first second : Buffer capacity} (same : first.bytes = second.bytes) :
    first = second := by
  cases first
  cases second
  cases same
  rfl

@[simp] theorem put_nil (buffer : Buffer capacity) : buffer.put [] = buffer :=
  ext (by rw [put_bytes _ (Nat.zero_le _)]; rfl)

/-- Writing what is there changes nothing. -/
theorem put_text_self (buffer : Buffer capacity) {count : Nat} (fits : count ≤ capacity) :
    buffer.put (buffer.text count) = buffer := by
  refine ext ?_
  rw [put_bytes _ ((buffer.text_length fits).le.trans fits), buffer.text_length fits, text,
    List.take_append_drop]

/-- The text written is the text read back. -/
theorem text_put (buffer : Buffer capacity) {new : List UInt8} (fits : new.length ≤ capacity) :
    (buffer.put new).text new.length = new := by
  rw [text, put_bytes _ fits, List.take_left]

/-- The first bytes of a rewritten array depend on what these bytes were, and on nothing
further on. -/
theorem text_put_eq (buffer : Buffer capacity) {new : List UInt8} (count : Nat)
    (fits : new.length ≤ capacity) :
    (buffer.put new).text count = (new ++ (buffer.text count).drop new.length).take count := by
  rw [text, put_bytes _ fits, text, List.drop_take, List.take_append, List.take_append,
    List.take_take, Nat.min_self]

/-- Appending a copy to what was written at the start. -/
theorem store_put (buffer : Buffer capacity) (written data : List UInt8)
    (fits : written.length + data.length ≤ capacity) :
    (buffer.put written).store written.length data = .ok (buffer.put (written ++ data)) := by
  obtain ⟨stored, run, bytes⟩ := (buffer.put written).store_ok fits
  rw [run]
  refine congrArg Except.ok (ext ?_)
  rw [bytes, put_bytes _ (by omega), put_bytes _ (by rw [List.length_append]; exact fits),
    List.take_left, List.drop_append, List.drop_drop, List.length_append,
    List.drop_of_length_le (Nat.le_add_right _ _), List.nil_append, Nat.add_sub_cancel_left]

theorem text_front (buffer : Buffer capacity) {count : Nat} {front rest : List UInt8}
    (split : buffer.text count = front ++ rest) : buffer.text front.length = front := by
  have inside : front.length ≤ count := by
    have total := congrArg List.length split
    rw [text, List.length_take, List.length_append] at total
    omega
  have cut := congrArg (List.take front.length) split
  rwa [text, List.take_take, Nat.min_eq_left inside, List.take_left] at cut

/-- Moving a tail out of the way and filling the gap writes one text. -/
theorem store_gap (buffer : Buffer capacity) {count : Nat} {front rest : List UInt8}
    (split : buffer.text count = front ++ rest) (middle tail : List UInt8)
    (fits : (front ++ middle ++ tail).length ≤ capacity) :
    ∃ moved, buffer.store (front.length + middle.length) tail = .ok moved ∧
      moved.store front.length middle = .ok (buffer.put (front ++ middle ++ tail)) := by
  have size := buffer.size
  have lengths : front.length + middle.length + tail.length ≤ capacity := by
    rwa [List.length_append, List.length_append] at fits
  obtain ⟨moved, runTail, bytesTail⟩ := buffer.store_ok lengths
  obtain ⟨filled, runMiddle, bytesMiddle⟩ :=
    moved.store_ok (show front.length + middle.length ≤ capacity by omega)
  refine ⟨moved, runTail, ?_⟩
  rw [runMiddle]
  refine congrArg Except.ok (ext ?_)
  have before : moved.bytes.take front.length = front := by
    rw [bytesTail, List.append_assoc, List.take_append_of_le_length (by
        rw [List.length_take]
        omega), List.take_take, Nat.min_eq_left (Nat.le_add_right _ _)]
    exact buffer.text_front split
  have length : (buffer.bytes.take (front.length + middle.length)).length =
      front.length + middle.length := by
    rw [List.length_take]
    omega
  have after : moved.bytes.drop (front.length + middle.length) =
      tail ++ buffer.bytes.drop (front.length + middle.length + tail.length) := by
    rw [bytesTail, List.append_assoc, List.drop_append, length, Nat.sub_self,
      List.drop_of_length_le length.le, List.nil_append, List.drop_zero]
  rw [bytesMiddle, put_bytes _ fits, before, after]
  simp only [List.length_append, List.append_assoc, Nat.add_assoc]

end Buffer

end Region
