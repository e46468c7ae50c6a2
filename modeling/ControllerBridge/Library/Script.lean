/-
This file is a library about programs that act on what is around them by calls.

A script makes calls, each answered from outside, and goes on with the answer;
it may exit early with a code. A run of it is the list of its calls with their
answers. What a script brings about is stated with an observer, a state that
follows the calls: `Ensures` is the weakest precondition for the observer and
the outcome, computed along the script, and `ensures_iff` says that it speaks of
all runs whose answers are lawful. `ensures_bind` and `ensures_attempt` take
a script apart into its parts.
-/

import Mathlib.Tactic.Common

/-- A script: it ends, exits with a code, or makes a call and goes on with the answer. -/
inductive Script (Call : Type) (Answer : Call → Type) (Exit Result : Type) where
  | done (result : Result)
  | exit (code : Exit)
  | call (made : Call) (rest : Answer made → Script Call Answer Exit Result)

namespace Script

section

variable {Call : Type} {Answer : Call → Type} {Exit Exit' Result Result' : Type}

/-- A call with its answer. -/
abbrev Entry (Call : Type) (Answer : Call → Type) : Type := (made : Call) × Answer made

def bind (script : Script Call Answer Exit Result)
    (next : Result → Script Call Answer Exit Result') : Script Call Answer Exit Result' :=
  match script with
  | .done result => next result
  | .exit code => .exit code
  | .call made rest => .call made fun answer => (rest answer).bind next

instance : Monad (Script Call Answer Exit) where
  pure := done
  bind := bind

/-- A single call. -/
def ask (made : Call) : Script Call Answer Exit (Answer made) := .call made .done

/-- A script that is called by another one: its exit is a result of the call. -/
def attempt : Script Call Answer Exit Result → Script Call Answer Exit' (Except Exit Result)
  | .done result => .done (.ok result)
  | .exit code => .done (.error code)
  | .call made rest => .call made fun answer => (rest answer).attempt

/-- The runs of a script: its calls with their answers, in order, and its outcome. -/
inductive Runs : Script Call Answer Exit Result → List (Entry Call Answer) →
    Except Exit Result → Prop where
  | done {result : Result} : Runs (.done result) [] (.ok result)
  | exit {code : Exit} : Runs (.exit code) [] (.error code)
  | call {made : Call} {rest : Answer made → Script Call Answer Exit Result}
      {answer : Answer made} {trace : List (Entry Call Answer)} {outcome : Except Exit Result}
      (run : Runs (rest answer) trace outcome) :
      Runs (.call made rest) (⟨made, answer⟩ :: trace) outcome

/-- The calls and the outcome of a script, with every call answered by the calls before it. -/
def follow (answers : List (Entry Call Answer) → ∀ made, Answer made)
    (before : List (Entry Call Answer)) :
    Script Call Answer Exit Result → List (Entry Call Answer) × Except Exit Result
  | .done result => ([], .ok result)
  | .exit code => ([], .error code)
  | .call made rest =>
    let entry : Entry Call Answer := ⟨made, answers before made⟩
    let later := (rest entry.2).follow answers (before ++ [entry])
    (entry :: later.1, later.2)

/-- Whatever is answered, a script has a run. -/
theorem runs_follow (answers : List (Entry Call Answer) → ∀ made, Answer made)
    (script : Script Call Answer Exit Result) (before : List (Entry Call Answer)) :
    Runs script (script.follow answers before).1 (script.follow answers before).2 ∧
      ∀ entry ∈ (script.follow answers before).1, ∃ earlier,
        entry.2 = answers earlier entry.1 := by
  induction script generalizing before with
  | done result => exact ⟨.done, fun _ member => absurd member List.not_mem_nil⟩
  | exit code => exact ⟨.exit, fun _ member => absurd member List.not_mem_nil⟩
  | call made rest inductionHypothesis =>
    obtain ⟨run, answered⟩ := inductionHypothesis (answers before made)
      (before ++ [⟨made, answers before made⟩])
    exact ⟨.call run, List.forall_mem_cons.mpr ⟨⟨before, rfl⟩, answered⟩⟩

end

/-! ### What a script ensures -/

section

variable {Call : Type} {Answer : Call → Type} {Exit Exit' Result Result' State : Type}

variable (next : State → Entry Call Answer → State) (Lawful : Entry Call Answer → Prop)

/-- From a state of the observer, the script ends in one and with an outcome as required, if all
answers are lawful. -/
def Ensures (script : Script Call Answer Exit Result) (state : State)
    (required : State → Except Exit Result → Prop) : Prop :=
  match script with
  | .done result => required state (.ok result)
  | .exit code => required state (.error code)
  | .call made rest => ∀ answer, Lawful ⟨made, answer⟩ →
    (rest answer).Ensures (next state ⟨made, answer⟩) required

variable {next Lawful}

theorem ensures_iff {script : Script Call Answer Exit Result} {state : State}
    {required : State → Except Exit Result → Prop} :
    script.Ensures next Lawful state required ↔
      ∀ trace outcome, Runs script trace outcome → (∀ entry ∈ trace, Lawful entry) →
        required (trace.foldl next state) outcome := by
  induction script generalizing state with
  | done result =>
    constructor
    · rintro holds _ _ ⟨⟩ -
      exact holds
    · exact fun holds => holds _ _ .done fun _ member => absurd member List.not_mem_nil
  | exit code =>
    constructor
    · rintro holds _ _ ⟨⟩ -
      exact holds
    · exact fun holds => holds _ _ .exit fun _ member => absurd member List.not_mem_nil
  | call made rest inductionHypothesis =>
    constructor
    · rintro holds _ outcome (_ | _ | @⟨_, _, answer, trace, _, run⟩) lawful
      exact (inductionHypothesis answer).mp (holds answer (lawful _ List.mem_cons_self)) _ _ run
        fun entry member => lawful entry (List.mem_cons_of_mem _ member)
    · intro holds answer lawful
      refine (inductionHypothesis answer).mpr fun trace outcome run later => ?_
      exact holds _ _ (.call run) (List.forall_mem_cons.mpr ⟨lawful, later⟩)

theorem Ensures.mono {script : Script Call Answer Exit Result} {state : State}
    {required required' : State → Except Exit Result → Prop}
    (ensures : script.Ensures next Lawful state required)
    (weaker : ∀ state outcome, required state outcome → required' state outcome) :
    script.Ensures next Lawful state required' := by
  rw [ensures_iff] at ensures ⊢
  exact fun trace outcome run lawful => weaker _ _ (ensures trace outcome run lawful)

@[simp] theorem ensures_exit (code : Exit) (state : State)
    (required : State → Except Exit Result → Prop) :
    (exit code : Script Call Answer Exit Result).Ensures next Lawful state required ↔
      required state (.error code) :=
  Iff.rfl

@[simp] theorem ensures_ask (made : Call) (state : State)
    (required : State → Except Exit (Answer made) → Prop) :
    (ask made : Script Call Answer Exit (Answer made)).Ensures next Lawful state required ↔
      ∀ answer, Lawful ⟨made, answer⟩ → required (next state ⟨made, answer⟩) (.ok answer) :=
  Iff.rfl

/-- The rest of a script is run on the result of the first part, unless that exits. -/
@[simp] theorem ensures_bind (script : Script Call Answer Exit Result)
    (rest : Result → Script Call Answer Exit Result') (state : State)
    (required : State → Except Exit Result' → Prop) :
    (script >>= rest).Ensures next Lawful state required ↔
      script.Ensures next Lawful state fun state outcome =>
        match outcome with
        | .ok result => (rest result).Ensures next Lawful state required
        | .error code => required state (.error code) := by
  change (script.bind rest).Ensures next Lawful state required ↔ _
  induction script generalizing state with
  | done result => exact Iff.rfl
  | exit code => exact Iff.rfl
  | call made more inductionHypothesis =>
    exact forall_congr' fun answer => imp_congr_right fun _ => inductionHypothesis answer _

@[simp] theorem ensures_attempt (script : Script Call Answer Exit Result) (state : State)
    (required : State → Except Exit' (Except Exit Result) → Prop) :
    (script.attempt : Script Call Answer Exit' (Except Exit Result)).Ensures next Lawful state
        required ↔
      script.Ensures next Lawful state fun state outcome => required state (.ok outcome) := by
  induction script generalizing state with
  | done result => exact Iff.rfl
  | exit code => exact Iff.rfl
  | call made rest inductionHypothesis =>
    exact forall_congr' fun answer => imp_congr_right fun _ => inductionHypothesis answer _

end

end Script
