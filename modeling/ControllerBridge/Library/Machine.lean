/-
This file is a library about the runs of a machine that takes events and gives
outputs.

A machine is its step relation. A run carries its history, the events with
their outputs in order, and grows at its end, so that an invariant may speak of
the history. `Run.invariant` is the induction over a run, `Run.split` cuts a
run at a place of its history, and `Run.lockstep` carries a relation along two
runs that see the same events, the form a statement about two runs is proved in.

A machine is compared with another one by its traces, the events with what is
shown of the outputs. `Run.simulates` makes of a simulation a run of the other
machine with the same trace, and `traces_iff` makes of one that goes both ways
the statement that the two have the same traces.

A machine may also be a function of its state and the event. Then `after` and
`outputs` are its run, and events that are repeated at once go unnoticed when
the machine is at rest at a repetition (`markedOutputs_repeated`).
-/

import Mathlib.Data.List.Forall2
import Mathlib.Data.List.Induction
import Mathlib.Tactic.Common

namespace Machine

variable {State Event Output : Type}

/-- The runs of the machine from `start`, with their histories. -/
inductive Run (step : State → Event → State → Output → Prop) (start : State) :
    List (Event × Output) → State → Prop where
  | start : Run step start [] start
  | step {history : List (Event × Output)} {state next : State} {event : Event}
      {output : Output} (run : Run step start history state)
      (taken : step state event next output) :
      Run step start (history ++ [(event, output)]) next

variable {step : State → Event → State → Output → Prop}

/-- What holds at the start and is preserved by every step holds along every run. -/
theorem Run.invariant (Holds : List (Event × Output) → State → Prop) {start : State}
    (initial : Holds [] start)
    (preserved : ∀ history state event next output, Holds history state →
      step state event next output → Holds (history ++ [(event, output)]) next)
    {history : List (Event × Output)} {state : State} (run : Run step start history state) :
    Holds history state := by
  induction run with
  | start => exact initial
  | step _ taken inductionHypothesis =>
    exact preserved _ _ _ _ _ inductionHypothesis taken

theorem Run.append {start middle state : State} {first second : List (Event × Output)}
    (before : Run step start first middle) (after : Run step middle second state) :
    Run step start (first ++ second) state := by
  induction after with
  | start => rwa [List.append_nil]
  | step _ taken inductionHypothesis =>
    rw [← List.append_assoc]
    exact inductionHypothesis.step taken

/-- A run may be cut at any place of its history. -/
theorem Run.split {start state : State} {first second : List (Event × Output)}
    (run : Run step start (first ++ second) state) :
    ∃ middle, Run step start first middle ∧ Run step middle second state := by
  generalize whole : first ++ second = history at run
  induction run generalizing second with
  | start =>
    rw [List.append_eq_nil_iff] at whole
    obtain ⟨rfl, rfl⟩ := whole
    exact ⟨start, .start, .start⟩
  | @step history state next event output before taken inductionHypothesis =>
    rcases List.eq_nil_or_concat second with rfl | ⟨front, last, rfl⟩
    · rw [List.append_nil] at whole
      subst whole
      exact ⟨next, before.step taken, .start⟩
    · rw [List.concat_eq_append, ← List.append_assoc] at whole
      obtain ⟨rfl, same⟩ := List.append_inj' whole rfl
      rw [List.singleton_inj] at same
      subst same
      obtain ⟨middle, runFirst, runFront⟩ := inductionHypothesis rfl
      refine ⟨middle, runFirst, ?_⟩
      rw [List.concat_eq_append]
      exact runFront.step taken

/-- The step taken at a place of the history. -/
theorem Run.split_step {start state : State} {first second : List (Event × Output)}
    {event : Event} {output : Output}
    (run : Run step start (first ++ (event, output) :: second) state) :
    ∃ before after, Run step start first before ∧ step before event after output ∧
      Run step after second state := by
  rw [List.append_cons] at run
  obtain ⟨after, front, rest⟩ := run.split
  generalize whole : first ++ [(event, output)] = history at front
  cases front with
  | start => simp at whole
  | step before taken =>
    obtain ⟨rfl, same⟩ := List.append_inj' whole rfl
    rw [List.singleton_inj, Prod.mk.injEq] at same
    obtain ⟨rfl, rfl⟩ := same
    exact ⟨_, after, before, taken, rest⟩

/-- The first step of a run. -/
theorem Run.head {start state : State} {history : List (Event × Output)} {event : Event}
    {output : Output} (run : Run step start ((event, output) :: history) state) :
    ∃ next, step start event next output ∧ Run step next history state := by
  have whole : Run step start ([] ++ (event, output) :: history) state := run
  obtain ⟨before, next, none, taken, rest⟩ := whole.split_step
  generalize empty : ([] : List (Event × Output)) = history' at none
  cases none with
  | start => exact ⟨next, taken, rest⟩
  | step _ _ => simp at empty

/-- The entries of a history whose events a test sees. -/
def seen (visible : Event → Bool) (history : List (Event × Output)) : List (Event × Output) :=
  history.filter fun entry => visible entry.1

theorem seen_append (visible : Event → Bool) (first second : List (Event × Output)) :
    seen visible (first ++ second) = seen visible first ++ seen visible second :=
  List.filter_append ..

theorem seen_singleton {visible : Event → Bool} {event : Event} (output : Output)
    (sees : visible event = true) : seen visible [(event, output)] = [(event, output)] :=
  List.filter_cons_of_pos sees

theorem seen_singleton_not {visible : Event → Bool} {event : Event} (output : Output)
    (sees : visible event = false) : seen visible [(event, output)] = [] :=
  List.filter_cons_of_neg (by rw [sees]; exact Bool.false_ne_true)

section

variable {Related : State → State → Prop} {Agree : Output → Output → Prop}
  {visible : Event → Bool} {MayOccur : Event → Prop}

/-- A run on events that are not seen keeps its state related. -/
theorem Run.silent
    (silent : ∀ state state' event next' output', visible event = false →
      Related state state' → step state' event next' output' → Related state next')
    {state start' state' : State} (related : Related state start')
    {history : List (Event × Output)} (run : Run step start' history state')
    (unseen : seen visible history = []) : Related state state' := by
  induction run with
  | start => exact related
  | step before taken inductionHypothesis =>
    rw [seen_append, List.append_eq_nil_iff] at unseen
    obtain ⟨unseenBefore, unseenLast⟩ := unseen
    have invisible := List.filter_eq_nil_iff.mp unseenLast _ (List.mem_singleton_self _)
    exact silent _ _ _ _ _ (Bool.eq_false_iff.mpr invisible) (inductionHypothesis unseenBefore)
      taken

/-- A run that sees some events and then one more takes a step on this event, and sees nothing
afterwards. -/
theorem Run.split_seen {start state : State} {history front : List (Event × Output)}
    {event : Event} {output : Output} (run : Run step start history state)
    (sees : visible event = true)
    (sameEvents : (seen visible front ++ [(event, output)]).map Prod.fst =
      (seen visible history).map Prod.fst) :
    ∃ before next early output' late, history = early ++ (event, output') :: late ∧
      Run step start early before ∧ step before event next output' ∧ Run step next late state ∧
      (seen visible front).map Prod.fst = (seen visible early).map Prod.fst ∧
      seen visible late = [] := by
  rw [List.map_append, List.map_singleton, eq_comm, List.map_eq_append_iff] at sameEvents
  obtain ⟨seenEarly, seenLast, whole, sameFront, sameLast⟩ := sameEvents
  obtain ⟨⟨event', output'⟩, rest, rfl, sameEvent, noRest⟩ := List.map_eq_cons_iff.mp sameLast
  obtain rfl : event' = event := sameEvent
  obtain rfl := List.map_eq_nil_iff.mp noRest
  obtain ⟨early, later, rfl, rfl, seenLater⟩ := List.filter_eq_append_iff.mp whole
  obtain ⟨skipped, late, rfl, unseenSkipped, -, unseenLate⟩ :=
    List.filter_eq_cons_iff.mp seenLater
  rw [← List.append_assoc] at run
  obtain ⟨before, next, runBefore, taken, runAfter⟩ := run.split_step
  refine ⟨before, next, early ++ skipped, output', late, ?_, runBefore, taken, runAfter, ?_,
    unseenLate⟩
  · rw [List.append_assoc]
  · have unseen : seen visible skipped = [] := List.filter_eq_nil_iff.mpr unseenSkipped
    rw [seen_append, unseen, List.append_nil, ← sameFront]
    rfl

variable (Agree visible MayOccur) in
/-- Two runs that see the same events stay related, and their outputs at these events agree,
when an event that is not seen keeps the relation on either side, and an event that is seen and
may occur keeps it when both sides take it, with outputs that agree. -/
theorem Run.lockstep
    (silentLeft : ∀ state state' event next output, visible event = false →
      Related state state' → step state event next output → Related next state')
    (silentRight : ∀ state state' event next' output', visible event = false →
      Related state state' → step state' event next' output' → Related state next')
    (together : ∀ state state' event next next' output output', visible event = true →
      MayOccur event → Related state state' → step state event next output →
      step state' event next' output' → Related next next' ∧ Agree output output')
    {start start' state state' : State} (related : Related start start')
    {history history' : List (Event × Output)} (run : Run step start history state)
    (run' : Run step start' history' state')
    (mayOccur : ∀ entry ∈ seen visible history, MayOccur entry.1)
    (sameEvents : (seen visible history).map Prod.fst = (seen visible history').map Prod.fst) :
    Related state state' ∧
      List.Forall₂ Agree ((seen visible history).map Prod.snd)
        ((seen visible history').map Prod.snd) := by
  induction run generalizing history' state' with
  | start =>
    rw [seen, List.filter_nil, List.map_nil, eq_comm, List.map_eq_nil_iff] at sameEvents
    rw [sameEvents]
    exact ⟨run'.silent silentRight related sameEvents, .nil⟩
  | @step history state next event output before taken inductionHypothesis =>
    rw [seen_append] at mayOccur sameEvents ⊢
    cases sees : visible event with
    | false =>
      rw [seen_singleton_not output sees, List.append_nil] at mayOccur sameEvents ⊢
      obtain ⟨relatedBefore, agree⟩ := inductionHypothesis run' mayOccur sameEvents
      exact ⟨silentLeft _ _ _ _ _ sees relatedBefore taken, agree⟩
    | true =>
      rw [seen_singleton output sees] at mayOccur sameEvents ⊢
      obtain ⟨before', next', early, output', late, rfl, runBefore', taken', runAfter',
        sameBefore, unseen⟩ := run'.split_seen sees sameEvents
      obtain ⟨relatedBefore, agree⟩ := inductionHypothesis runBefore'
        (fun entry member => mayOccur entry (List.mem_append_left _ member)) sameBefore
      obtain ⟨relatedNext, agreeLast⟩ := together _ _ _ _ _ _ _ sees
        (mayOccur (event, output) (List.mem_append_right _ (List.mem_singleton_self _)))
        relatedBefore taken taken'
      have seen' : seen visible (early ++ (event, output') :: late) =
          seen visible early ++ [(event, output')] := by
        rw [List.append_cons, seen_append, unseen, List.append_nil, seen_append,
          seen_singleton output' sees]
      refine ⟨runAfter'.silent silentRight relatedNext unseen, ?_⟩
      rw [seen', List.map_append, List.map_append]
      exact List.rel_append agree (.cons agreeLast .nil)

end

/-! ### Two machines with one trace -/

section

variable {Other Shown : Type} {other : Other → Event → Other → Shown → Prop}

/-- What is shown of a history. -/
def trace (view : Output → Shown) (history : List (Event × Output)) : List (Event × Shown) :=
  history.map fun entry => (entry.1, view entry.2)

theorem trace_concat (view : Output → Shown) (history : List (Event × Output)) (event : Event)
    (output : Output) :
    trace view (history ++ [(event, output)]) = trace view history ++ [(event, view output)] :=
  List.map_append

variable {Related : State → Other → Prop} {view : Output → Shown}

/-- A machine whose steps another one can take with it has runs with the traces of its own. -/
theorem Run.simulates
    (simulates : ∀ state state' event next output, Related state state' →
      step state event next output →
      ∃ next', other state' event next' (view output) ∧ Related next next')
    {start state : State} {start' : Other} (related : Related start start')
    {history : List (Event × Output)} (run : Run step start history state) :
    ∃ state', Run other start' (trace view history) state' ∧ Related state state' := by
  induction run with
  | start => exact ⟨start', .start, related⟩
  | step before taken inductionHypothesis =>
    obtain ⟨state', run', relatedBefore⟩ := inductionHypothesis
    obtain ⟨next', taken', relatedNext⟩ := simulates _ _ _ _ _ relatedBefore taken
    rw [trace_concat]
    exact ⟨next', run'.step taken', relatedNext⟩

/-- Every trace of the other machine is one of the first, when the first can take its steps. -/
theorem Run.reflects
    (reflects : ∀ state state' event next' shown, Related state state' →
      other state' event next' shown →
      ∃ next output, step state event next output ∧ view output = shown ∧ Related next next')
    {start : State} {start' state' : Other} (related : Related start start')
    {shown : List (Event × Shown)} (run : Run other start' shown state') :
    ∃ history state, Run step start history state ∧ trace view history = shown ∧
      Related state state' := by
  induction run with
  | start => exact ⟨[], start, .start, rfl, related⟩
  | step before taken inductionHypothesis =>
    obtain ⟨history, state, run', same, relatedBefore⟩ := inductionHypothesis
    obtain ⟨next, output, taken', sees, relatedNext⟩ := reflects _ _ _ _ _ relatedBefore taken
    refine ⟨_, next, run'.step taken', ?_, relatedNext⟩
    rw [trace_concat, same, sees]

/-- Two machines that can take each other's steps have the same traces. -/
theorem traces_iff
    (simulates : ∀ state state' event next output, Related state state' →
      step state event next output →
      ∃ next', other state' event next' (view output) ∧ Related next next')
    (reflects : ∀ state state' event next' shown, Related state state' →
      other state' event next' shown →
      ∃ next output, step state event next output ∧ view output = shown ∧ Related next next')
    {start : State} {start' : Other} (related : Related start start')
    (shown : List (Event × Shown)) :
    (∃ history state, Run step start history state ∧ trace view history = shown) ↔
      ∃ state', Run other start' shown state' := by
  constructor
  · rintro ⟨history, state, run, rfl⟩
    obtain ⟨state', run', -⟩ := run.simulates simulates related
    exact ⟨state', run'⟩
  · rintro ⟨state', run⟩
    obtain ⟨history, state, run', same, -⟩ := run.reflects reflects related
    exact ⟨history, state, run', same⟩

end

/-! ### Machines that are functions -/

section

variable {next : State → Event → State × Output}

/-- The state after some events. -/
def after (next : State → Event → State × Output) (start : State) (events : List Event) :
    State :=
  events.foldl (fun state event => (next state event).1) start

/-- The outputs at some events. -/
def outputs (next : State → Event → State × Output) : State → List Event → List Output
  | _, [] => []
  | state, event :: events => (next state event).2 :: outputs next (next state event).1 events

theorem after_concat (start : State) (events : List Event) (event : Event) :
    after next start (events ++ [event]) = (next (after next start events) event).1 := by
  rw [after, List.foldl_append]
  rfl

theorem outputs_length (start : State) (events : List Event) :
    (outputs next start events).length = events.length := by
  induction events generalizing start with
  | nil => rfl
  | cons event events inductionHypothesis =>
    rw [outputs, List.length_cons, inductionHypothesis, List.length_cons]

theorem outputs_append (start : State) (first second : List Event) :
    outputs next start (first ++ second) =
      outputs next start first ++ outputs next (after next start first) second := by
  induction first generalizing start with
  | nil => rfl
  | cons event first inductionHypothesis =>
    rw [List.cons_append, outputs, inductionHypothesis, outputs, List.cons_append]
    rfl

theorem outputs_concat (start : State) (events : List Event) (event : Event) :
    outputs next start (events ++ [event]) =
      outputs next start events ++ [(next (after next start events) event).2] :=
  outputs_append start events [event]

/-- What holds at the start and is preserved by every event holds after all events. -/
theorem after_invariant (Holds : List Event → State → Prop) {start : State}
    (initial : Holds [] start)
    (preserved : ∀ events state event, Holds events state →
      Holds (events ++ [event]) (next state event).1)
    (events : List Event) : Holds events (after next start events) := by
  induction events using List.reverseRecOn with
  | nil => exact initial
  | append_singleton events event inductionHypothesis =>
    rw [after_concat]
    exact preserved _ _ _ inductionHypothesis

/-- Events that are each repeated at once a number of times; the first of the copies is marked. -/
def repeated (events : List (Event × ℕ)) : List (Event × Bool) :=
  events.flatMap fun entry => (entry.1, true) :: List.replicate entry.2 (entry.1, false)

/-- The outputs at the marked ones among some events. -/
def markedOutputs (next : State → Event → State × Output) :
    State → List (Event × Bool) → List Output
  | _, [] => []
  | state, (event, mark) :: events =>
    let rest := markedOutputs next (next state event).1 events
    if mark then (next state event).2 :: rest else rest

theorem markedOutputs_replicate {state : State} {event : Event}
    (rests : (next state event).1 = state) (copies : ℕ) (events : List (Event × Bool)) :
    markedOutputs next state (List.replicate copies (event, false) ++ events) =
      markedOutputs next state events := by
  induction copies with
  | zero => rfl
  | succ copies inductionHypothesis =>
    rw [List.replicate_succ, List.cons_append, markedOutputs, rests]
    exact inductionHypothesis

/-- A machine that is at rest at a repetition of an event gives the outputs it would give without
the repetitions. -/
theorem markedOutputs_repeated (Holds : State → Prop)
    (preserved : ∀ state event, Holds state → Holds (next state event).1)
    (rests : ∀ state event, Holds state →
      (next (next state event).1 event).1 = (next state event).1)
    {start : State} (holds : Holds start) (events : List (Event × ℕ)) :
    markedOutputs next start (repeated events) = outputs next start (events.map Prod.fst) := by
  induction events generalizing start with
  | nil => rfl
  | cons entry events inductionHypothesis =>
    obtain ⟨event, copies⟩ := entry
    have unfolded : repeated ((event, copies) :: events) =
        (event, true) :: (List.replicate copies (event, false) ++ repeated events) := rfl
    rw [unfolded, markedOutputs, markedOutputs_replicate (rests _ _ holds),
      inductionHypothesis (preserved _ _ holds), List.map_cons, outputs]
    rfl

end

end Machine
