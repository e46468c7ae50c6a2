/-
This file is a library about files that are opened for appending through a
buffer.

A stream is the file with what has been printed and not yet written. The
buffering may write some of it at any print (`early`), a flush or a close writes
all of it, and a process that is killed loses what is left (`abandon`). A text
that is flushed right after it is printed is in the file whatever was written
early, so that a sequence of such texts is in the file whole and in order
(`puts_opened`), and a process killed in the middle of one leaves a prefix of it.
-/

import Mathlib.Tactic.Common

/-- A file opened for appending, with what waits to be written to it. -/
structure AppendStream (Symbol : Type) where
  written : List Symbol
  waiting : List Symbol

namespace AppendStream

variable {Symbol : Type}

/-- The stream of a file that has just been opened. -/
def opened (file : List Symbol) : AppendStream Symbol := ⟨file, []⟩

section

variable (stream : AppendStream Symbol)

/-- A text is printed; the first `early` symbols that wait are written at once. -/
def print (early : Nat) (text : List Symbol) : AppendStream Symbol where
  written := stream.written ++ (stream.waiting ++ text).take early
  waiting := (stream.waiting ++ text).drop early

def flush : AppendStream Symbol := ⟨stream.written ++ stream.waiting, []⟩

/-- The file after the stream is closed. -/
def close : List Symbol := stream.flush.written

/-- The file after the process is killed. -/
def abandon : List Symbol := stream.written

/-- A text is printed and flushed. -/
def put (early : Nat) (text : List Symbol) : AppendStream Symbol := (stream.print early text).flush

/-- Texts are printed and flushed one after the other. -/
def puts (texts : List (Nat × List Symbol)) : AppendStream Symbol :=
  texts.foldl (fun stream text => stream.put text.1 text.2) stream

end

/-- Whatever is written early, a text that is flushed is in the file. -/
theorem put_opened (file : List Symbol) (early : Nat) (text : List Symbol) :
    (opened file).put early text = opened (file ++ text) := by
  unfold put print flush opened
  rw [List.nil_append, List.append_assoc, List.take_append_drop]

theorem puts_opened (file : List Symbol) (texts : List (Nat × List Symbol)) :
    (opened file).puts texts = opened (file ++ texts.flatMap Prod.snd) := by
  induction texts generalizing file with
  | nil =>
    rw [List.flatMap_nil, List.append_nil]
    rfl
  | cons text texts inductionHypothesis =>
    have rest := inductionHypothesis (file ++ text.2)
    unfold puts at rest ⊢
    rw [List.foldl_cons, put_opened, rest, List.flatMap_cons, List.append_assoc]

/-- A process killed between a print and its flush leaves a prefix of the text. -/
theorem abandon_print_opened (file : List Symbol) (early : Nat) (text : List Symbol) :
    ((opened file).print early text).abandon = file ++ text.take early :=
  rfl

theorem close_opened (file : List Symbol) : (opened file).close = file := by
  unfold close flush opened
  exact List.append_nil file

theorem abandon_opened (file : List Symbol) : (opened file).abandon = file :=
  rfl

end AppendStream
