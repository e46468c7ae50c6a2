/-
This file is about the life of the process, from the arguments of `main` to its
end, whatever is answered to its calls.

An observer follows the calls and allows only those that keep the order the
source means to keep: the interpreter and the diagnostics before the context,
the vhosts before the loop, and the context destroyed once, by a process that
has closed its log or has said why it gives up. No run of `main` makes another
call (`main_lifecycle`). The callbacks of its loop are a run of the system
(`main_serves`), so that the results on these runs hold of the process as `main`
starts it. The loop is entered exactly when the arguments are accepted and every
call that matters succeeds (`startup_iff`).
-/

import ControllerBridge.Startup

namespace ControllerBridge

open Script

/-! ### The observer -/

/-- A call of `main` with its answer. -/
abbrev MainEntry (Double Variables : Type) : Type :=
  Script.Entry (MainCall Double Variables) MainCall.Answer

/-- How far the context has come: whether it has TLS, and its vhosts. -/
inductive ContextPhase where
  | starting
  | listening (tls : Bool) (vhosts : List Vhost)
  | closed (tls : Bool) (vhosts : List Vhost)

/-- Whether a call that matters has failed, and whether a message has been printed since. -/
inductive Health where
  | fine
  | failed
  | reported
  deriving DecidableEq

/-- What is seen of a life: the context, the health, whether the log is open, and the callbacks. -/
structure Observed (Double : Type) where
  phase : ContextPhase
  health : Health
  logOpen : Bool
  served : List (Event Double × Observation Double)

section

variable {Double Variables : Type}

/-- Nothing is seen. -/
def Observed.nothing : Observed Double := ⟨.starting, .fine, false, []⟩

/-- Whether a call succeeds, if the process depends on it. The process does not depend on the log
and on the pin. -/
def succeeds : MainEntry Double Variables → Bool
  | ⟨.buildFromFile _, loaded⟩ => loaded
  | ⟨.buildInterpreter, built⟩ => built
  | ⟨.delegateCreate _, created⟩ => created
  | ⟨.modifyGraph, modified⟩ => modified
  | ⟨.allocateTensors, allocated⟩ => allocated.isSome
  | ⟨.tensors, (input, output)⟩ => input.int8 && output.int8 &&
      (input.bytes == kSeqLen * 2 && output.bytes == kNumTendonMotors)
  | ⟨.invoke _ _, (_, output)⟩ => output.isSome
  | ⟨.createContext _, created⟩ => created
  | ⟨.createVhost _, created⟩ => created
  | _ => true

/-- The calls that keep the order. -/
def Observed.Permits (seen : Observed Double) : MainCall Double Variables → Prop
  | .stderr _ => True
  | .notice _ | .running | .service _ =>
    seen.health = .fine ∧ ∃ tls controller icu, seen.phase = .listening tls [controller, icu]
  | .createVhost _ => seen.health = .fine ∧ ∃ tls vhosts, seen.phase = .listening tls vhosts
  | .closeLog => seen.health = .fine ∧ seen.logOpen = true ∧
      ∃ tls controller icu, seen.phase = .listening tls [controller, icu]
  | .destroyContext => (∃ tls vhosts, seen.phase = .listening tls vhosts) ∧
      (seen.health = .reported ∨ seen.health = .fine ∧ seen.logOpen = false)
  | _ => seen.health = .fine ∧ seen.phase = .starting

/-- The context after a call. -/
def ContextPhase.after (phase : ContextPhase) : MainEntry Double Variables → ContextPhase
  | ⟨.createContext tls, created⟩ => if created then .listening tls [] else phase
  | ⟨.createVhost vhost, created⟩ =>
    match phase with
    | .listening tls vhosts => if created then .listening tls (vhosts ++ [vhost]) else phase
    | _ => phase
  | ⟨.destroyContext, _⟩ =>
    match phase with
    | .listening tls vhosts => .closed tls vhosts
    | _ => phase
  | _ => phase

/-- The health after a call. -/
def Health.after (health : Health) (entry : MainEntry Double Variables) : Health :=
  if succeeds entry then
    match health, entry with
    | .failed, ⟨.stderr _, _⟩ => .reported
    | _, _ => health
  else .failed

/-- What is seen after a call. -/
def Observed.after (seen : Observed Double) (entry : MainEntry Double Variables) :
    Observed Double where
  phase := seen.phase.after entry
  health := seen.health.after entry
  logOpen := match entry with
    | ⟨.openLog _, opened⟩ => opened
    | ⟨.closeLog, _⟩ => false
    | _ => seen.logOpen
  served := match entry with
    | ⟨.service _, (history, _)⟩ => seen.served ++ history
    | _ => seen.served

open Classical in
/-- The observer gives up at a call out of order. -/
noncomputable def observe (seen : Option (Observed Double)) (entry : MainEntry Double Variables) :
    Option (Observed Double) :=
  seen.bind fun seen => if seen.Permits entry.1 then some (seen.after entry) else none

/-! ### The calls before there is a context -/

variable {Lawful : MainEntry Double Variables → Prop}

/-- The calls of the start that leave the log open or closed. -/
def MainCall.starts : MainCall Double Variables → Bool
  | .stderr _ | .buildFromFile _ | .buildInterpreter | .hardwareConcurrency | .setNumThreads _
  | .delegateCreate _ | .modifyGraph | .allocateTensors | .tensors | .invoke _ _ | .tellLog
  | .printLog _ | .access _ | .openFile _ | .writeFile _ | .closeFile => true
  | _ => false

/-- What is seen before there is a context. -/
def Observed.start (health : Health) (logOpen : Bool) : Observed Double :=
  ⟨.starting, health, logOpen, []⟩

theorem observe_start (logOpen : Bool) {entry : MainEntry Double Variables}
    (starts : entry.1.starts = true) :
    observe (some (.start .fine logOpen)) entry =
      some (.start (if succeeds entry then .fine else .failed) logOpen) := by
  obtain ⟨made, answer⟩ := entry
  cases made <;> first
    | exact absurd starts Bool.false_ne_true
    | simp [observe, Observed.Permits, Observed.after, Observed.start, ContextPhase.after,
        Health.after]

/-- A message reports a failure, and changes nothing else. -/
theorem observe_stderr (phase : ContextPhase) {health : Health} (notFine : health ≠ .fine)
    (logOpen : Bool) (served : List (Event Double × Observation Double)) (text : List UInt8) :
    observe (some ⟨phase, health, logOpen, served⟩)
        (⟨.stderr text, ()⟩ : MainEntry Double Variables) =
      some ⟨phase, .reported, logOpen, served⟩ := by
  cases health with
  | fine => exact absurd rfl notFine
  | failed =>
    simp [observe, Observed.Permits, Observed.after, ContextPhase.after, Health.after, succeeds]
  | reported =>
    simp [observe, Observed.Permits, Observed.after, ContextPhase.after, Health.after, succeeds]

/-- What is seen after a part of the start: it ends as required, without a failure, or, if it may
fail, after a failure that it has reported. -/
def StartsWith {Result : Type} (mayFail : Prop) (required : Result → Bool → Prop)
    (seen : Option (Observed Double)) (outcome : Except Int Result) : Prop :=
  match outcome with
  | .ok result => ∃ logOpen, seen = some (.start .fine logOpen) ∧ required result logOpen
  | .error _ => mayFail ∧ ∃ logOpen, seen = some (.start .reported logOpen)

variable (Lawful) in
/-- What a part of the start ensures, with the log open or closed before. -/
def Starts {Result : Type} (mayFail : Prop) (logOpen : Bool)
    (script : MainScript Double Variables Result) (required : Result → Bool → Prop) : Prop :=
  script.Ensures observe Lawful (some (.start .fine logOpen)) (StartsWith mayFail required)

section

variable {Result Result' : Type} {mayFail : Prop} {logOpen : Bool} {required : Result → Bool → Prop}
  {required' : Result' → Bool → Prop}

theorem Starts.pure {result : Result} (holds : required result logOpen) :
    Starts Lawful mayFail logOpen (Pure.pure result) required :=
  ⟨logOpen, rfl, holds⟩

theorem Starts.bind {script : MainScript Double Variables Result}
    {rest : Result → MainScript Double Variables Result'}
    (first : Starts Lawful mayFail logOpen script required)
    (second : ∀ result logOpen', required result logOpen' →
      Starts Lawful mayFail logOpen' (rest result) required') :
    Starts Lawful mayFail logOpen (script >>= rest) required' := by
  unfold Starts
  rw [ensures_bind]
  refine first.mono ?_
  rintro seen (code | result) reached
  · exact reached
  · obtain ⟨logOpen', rfl, holds⟩ := reached
    exact second result logOpen' holds

theorem starts_fail (may : mayFail) (code : Int) (text : List UInt8) :
    (fail code text : MainScript Double Variables Result).Ensures observe Lawful
      (some (.start .failed logOpen)) (StartsWith mayFail required) := by
  unfold fail
  rw [ensures_bind, ensures_ask]
  rintro ⟨⟩ -
  exact ⟨may, logOpen, observe_stderr .starting (by decide) _ _ text⟩

/-- A call of the start: the script goes on if it succeeds, and otherwise, if it may fail, says so
and exits. -/
theorem Starts.ask {made : MainCall Double Variables}
    {rest : made.Answer → MainScript Double Variables Result} (starts : made.starts = true)
    (further : ∀ answer, Lawful ⟨made, answer⟩ → succeeds ⟨made, answer⟩ = true →
      Starts Lawful mayFail logOpen (rest answer) required)
    (stops : ∀ answer, succeeds ⟨made, answer⟩ = false →
      mayFail ∧ ∃ code text, rest answer = fail code text) :
    Starts Lawful mayFail logOpen (ask made >>= rest) required := by
  unfold Starts
  rw [ensures_bind, ensures_ask]
  intro answer lawful
  dsimp only
  rw [observe_start logOpen starts]
  by_cases succeeded : succeeds ⟨made, answer⟩ = true
  · rw [if_pos succeeded]
    exact further answer lawful succeeded
  · obtain ⟨may, code, text, stopped⟩ := stops answer (Bool.eq_false_iff.mpr succeeded)
    rw [if_neg succeeded, stopped]
    exact starts_fail may code text

/-- A call of the start that does not matter. -/
theorem Starts.ask_free {made : MainCall Double Variables}
    {rest : made.Answer → MainScript Double Variables Result} (starts : made.starts = true)
    (free : ∀ answer, succeeds ⟨made, answer⟩ = true)
    (further : ∀ answer, Starts Lawful mayFail logOpen (rest answer) required) :
    Starts Lawful mayFail logOpen (ControllerBridge.ask made >>= rest) required :=
  .ask starts (fun answer _ _ => further answer) fun answer stops =>
    absurd (stops.symm.trans (free answer)) Bool.false_ne_true

/-- A last call of a part of the start. -/
theorem Starts.ask_last {made : MainCall Double Variables} (starts : made.starts = true)
    (free : ∀ answer, succeeds ⟨made, answer⟩ = true)
    {required : made.Answer → Bool → Prop} (holds : ∀ answer, required answer logOpen) :
    Starts Lawful mayFail logOpen (ControllerBridge.ask made) required :=
  .ask_free starts free fun answer => .pure (holds answer)

end

/-! ### The initialisations -/

theorem applyDelegate_starts (delegatePath : List UInt8) (threads : Nat) (logOpen : Bool) :
    Starts Lawful True logOpen (applyDelegate delegatePath threads)
      fun _ logOpen' => logOpen' = logOpen := by
  unfold applyDelegate
  by_cases npu : delegatePath ≠ []
  · rw [if_pos npu]
    refine .ask rfl (fun created _ ok => ?_) fun created bad =>
      ⟨trivial, _, _, if_neg (Bool.eq_false_iff.mp bad)⟩
    rw [if_pos (show created = true from ok)]
    refine .ask rfl (fun modified _ ok => ?_) fun modified bad =>
      ⟨trivial, _, _, if_neg (Bool.eq_false_iff.mp bad)⟩
    rw [if_pos (show modified = true from ok)]
    exact .ask_last rfl (fun _ => rfl) fun _ => rfl
  · rw [if_neg npu]
    exact .ask_last rfl (fun _ => rfl) fun _ => rfl

theorem buildTensors_starts (modelPath delegatePath : List UInt8) (logOpen : Bool) :
    Starts Lawful True logOpen
      (buildTensors modelPath delegatePath : MainScript Double Variables Variables)
      fun _ logOpen' => logOpen' = logOpen := by
  unfold buildTensors
  refine .ask rfl (fun loaded _ ok => ?_) fun loaded bad =>
    ⟨trivial, _, _, if_neg (Bool.eq_false_iff.mp bad)⟩
  rw [if_pos (show loaded = true from ok)]
  refine .ask rfl (fun built _ ok => ?_) fun built bad =>
    ⟨trivial, _, _, if_neg (Bool.eq_false_iff.mp bad)⟩
  rw [if_pos (show built = true from ok)]
  refine .ask_free rfl (fun _ => rfl) fun hw => ?_
  refine .ask_free rfl (fun _ => rfl) fun _ => ?_
  refine (applyDelegate_starts _ _ _).bind ?_
  rintro _ _ rfl
  refine .ask rfl (fun allocated _ ok => ?_) fun allocated bad => ?_
  · obtain ⟨tensors, rfl⟩ := Option.isSome_iff_exists.mp ok
    exact .pure rfl
  · cases allocated with
    | none => exact ⟨trivial, _, _, rfl⟩
    | some tensors => exact absurd bad.symm Bool.false_ne_true

theorem checkTensors_starts (logOpen : Bool) :
    Starts Lawful True logOpen (checkTensors : MainScript Double Variables Unit)
      fun _ logOpen' => logOpen' = logOpen := by
  unfold checkTensors
  refine .ask rfl (fun info _ ok => ?_) fun info bad => ?_
  · obtain ⟨types, sizes⟩ := (Bool.and_eq_true _ _).mp ok
    rw [if_pos ((Bool.and_eq_true _ _).mp types), if_pos (by simpa using sizes)]
    exact .pure rfl
  · by_cases types : info.1.int8 ∧ info.2.int8
    · rw [if_pos types, if_neg (by simpa [succeeds, types] using bad)]
      exact ⟨trivial, _, _, rfl⟩
    · rw [if_neg types]
      exact ⟨trivial, _, _, rfl⟩

theorem writeSysfs_starts (path text : List UInt8) (logOpen : Bool) :
    Starts Lawful False logOpen (writeSysfs path text : MainScript Double Variables Bool)
      fun _ logOpen' => logOpen' = logOpen := by
  unfold writeSysfs
  refine .ask_free rfl (fun _ => rfl) fun opened => ?_
  rcases opened with reason | ⟨⟩
  · exact .ask_free rfl (fun _ => rfl) fun _ => .pure rfl
  · refine .ask_free rfl (fun _ => rfl) fun written => ?_
    refine .ask_free rfl (fun _ => rfl) fun _ => ?_
    by_cases short : written.1 ≠ text.length
    · rw [if_pos short]
      exact .ask_free rfl (fun _ => rfl) fun _ => .pure rfl
    · rw [if_neg short]
      exact .pure rfl

theorem exportGpio_starts (logOpen : Bool) :
    Starts Lawful False logOpen (exportGpio : MainScript Double Variables Unit)
      fun _ logOpen' => logOpen' = logOpen := by
  unfold exportGpio
  refine .ask_free rfl (fun _ => rfl) fun present => ?_
  cases present with
  | true => exact .pure rfl
  | false => exact (writeSysfs_starts _ _ _).bind fun _ _ same => .pure same

/-- Whether the pin can be set up makes no difference. -/
theorem gpioToggleInit_starts (logOpen : Bool) :
    Starts Lawful False logOpen (gpioToggleInit : MainScript Double Variables (Int × Bool))
      fun _ logOpen' => logOpen' = logOpen := by
  unfold gpioToggleInit
  refine (exportGpio_starts _).bind ?_
  rintro _ _ rfl
  refine (writeSysfs_starts _ _ _).bind ?_
  rintro (_ | _) _ rfl
  · exact .ask_free rfl (fun _ => rfl) fun _ => .pure rfl
  · refine (writeSysfs_starts _ _ _).bind ?_
    rintro (_ | _) _ rfl
    · exact .pure rfl
    · exact .pure rfl

theorem observe_openLog (path : List UInt8) (opened : Bool) :
    observe (some (.start .fine false)) (⟨.openLog path, opened⟩ : MainEntry Double Variables) =
      some (.start .fine opened) := by
  simp [observe, Observed.Permits, Observed.after, Observed.start, ContextPhase.after,
    Health.after, succeeds]

/-- Whether the log can be opened makes no difference, other than that it is open. -/
theorem initTimingLog_starts (path : List UInt8) :
    Starts Lawful False false (initTimingLog path : MainScript Double Variables (Int × Bool))
      fun log logOpen' => logOpen' = log.2 := by
  unfold initTimingLog
  by_cases disabled : path = []
  · rw [if_pos disabled]
    exact .pure rfl
  · rw [if_neg disabled]
    unfold Starts
    rw [ensures_bind, ensures_ask]
    intro opened _
    dsimp only
    rw [observe_openLog]
    cases opened with
    | false => exact Starts.ask_free rfl (fun _ => rfl) fun _ => .pure rfl
    | true =>
      refine Starts.ask_free rfl (fun _ => rfl) fun size => ?_
      by_cases empty : size = 0
      · rw [if_pos empty]
        exact .ask_free rfl (fun _ => rfl) fun _ => .pure rfl
      · rw [if_neg empty]
        exact .pure rfl

section

variable [Sub Double] [Mul Double] [Neg Double] [OfScientific Double]

variable (Lawful) in
/-- The module is as `motorInferenceInit` leaves it, with an interpreter of lawful answers. -/
def Initialised (libm : Libm Double) (motor : MotorInference Double Variables) : Prop :=
  ∀ tflite : Tflite Variables, (∀ tensors input answer, Lawful ⟨.invoke tensors input, answer⟩ →
      answer = tflite.invoke tensors input) →
    ∃ useNpu tensors, motorInferenceInit tflite libm useNpu tensors = some motor

theorem initMotorInference_starts (libm : Libm Double) (modelPath delegatePath : List UInt8)
    (logOpen : Bool) :
    Starts Lawful True logOpen (initMotorInference libm modelPath delegatePath)
      fun motor logOpen' => logOpen' = logOpen ∧ Initialised Lawful libm motor := by
  unfold initMotorInference
  refine (buildTensors_starts _ _ _).bind ?_
  rintro tensors _ rfl
  refine (checkTensors_starts _).bind ?_
  rintro _ _ rfl
  dsimp only
  by_cases npu : delegatePath ≠ []
  · rw [if_pos npu]
    refine .ask rfl (fun warmUp lawful ok => ?_) fun warmUp bad => ?_
    · obtain ⟨output, succeeded⟩ := Option.isSome_iff_exists.mp ok
      rw [succeeded]
      refine .pure ⟨rfl, fun tflite invokes => ⟨true, tensors, ?_⟩⟩
      obtain rfl := invokes _ _ _ lawful
      unfold motorInferenceInit
      dsimp only
      rw [if_pos rfl, succeeded]
      rfl
    · obtain ⟨tensors', output⟩ := warmUp
      cases output with
      | none => exact ⟨trivial, _, _, rfl⟩
      | some output => exact absurd bad.symm Bool.false_ne_true
  · rw [if_neg npu]
    exact .pure ⟨rfl, fun _ _ => ⟨false, tensors, rfl⟩⟩

end

/-! ### The context and its vhosts -/

theorem observe_createVhost (tls created logOpen : Bool) (vhosts : List Vhost) (vhost : Vhost) :
    observe (some ⟨.listening tls vhosts, .fine, logOpen, []⟩)
        (⟨.createVhost vhost, created⟩ : MainEntry Double Variables) =
      some ⟨.listening tls (if created then vhosts ++ [vhost] else vhosts),
        if created then .fine else .failed, logOpen, []⟩ := by
  cases created <;>
    simp [observe, Observed.Permits, Observed.after, ContextPhase.after, Health.after, succeeds]

theorem observe_destroyContext (tls logOpen : Bool) (vhosts : List Vhost) {health : Health}
    (served : List (Event Double × Observation Double))
    (ready : health = .reported ∨ health = .fine ∧ logOpen = false) :
    observe (some ⟨.listening tls vhosts, health, logOpen, served⟩)
        (⟨.destroyContext, ()⟩ : MainEntry Double Variables) =
      some ⟨.closed tls vhosts, health, logOpen, served⟩ := by
  rcases ready with rfl | ⟨rfl, rfl⟩ <;>
    simp [observe, Observed.Permits, Observed.after, ContextPhase.after, Health.after, succeeds]

theorem observe_createContext (tls created logOpen : Bool) :
    observe (some (.start .fine logOpen))
        (⟨.createContext tls, created⟩ : MainEntry Double Variables) =
      some ⟨if created then .listening tls [] else .starting,
        if created then .fine else .failed, logOpen, []⟩ := by
  cases created <;>
    simp [observe, Observed.Permits, Observed.after, Observed.start, ContextPhase.after,
      Health.after, succeeds]

/-- The two vhosts, in their order, or the context closed after a report. -/
theorem createVhosts_ensures (options : Options) (tls logOpen : Bool) :
    (createVhosts options : MainScript Double Variables Unit).Ensures observe Lawful
      (some ⟨.listening tls [], .fine, logOpen, []⟩) fun seen outcome =>
        match outcome with
        | .ok _ => seen =
            some ⟨.listening tls [controllerVhost options, icuVhost options], .fine, logOpen, []⟩
        | .error code => code = 1 ∧
            ∃ vhosts, seen = some ⟨.closed tls vhosts, .reported, logOpen, []⟩ := by
  unfold createVhosts
  simp only [ensures_bind, ensures_ask]
  intro controller _
  rw [observe_createVhost]
  cases controller with
  | false =>
    simp only [Bool.false_eq_true, if_false, ensures_bind, ensures_ask, ensures_exit]
    rintro ⟨⟩ - ⟨⟩ -
    rw [observe_stderr _ (by decide), observe_destroyContext _ _ _ _ (Or.inl rfl)]
    exact ⟨trivial, [], rfl⟩
  | true =>
    simp only [if_true, ensures_bind, ensures_ask]
    intro icu _
    rw [observe_createVhost]
    cases icu with
    | false =>
      simp only [Bool.false_eq_true, if_false, ensures_bind, ensures_ask, ensures_exit]
      rintro ⟨⟩ - ⟨⟩ -
      rw [observe_stderr _ (by decide), observe_destroyContext _ _ _ _ (Or.inl rfl)]
      exact ⟨trivial, _, rfl⟩
    | true => rfl

theorem observe_notice (tls logOpen : Bool) (controller icu : Vhost)
    (served : List (Event Double × Observation Double)) (text : List UInt8) :
    observe (some ⟨.listening tls [controller, icu], .fine, logOpen, served⟩)
        (⟨.notice text, ()⟩ : MainEntry Double Variables) =
      some ⟨.listening tls [controller, icu], .fine, logOpen, served⟩ := by
  simp [observe, Observed.Permits, Observed.after, ContextPhase.after, Health.after, succeeds]

theorem noticeOptions_ensures (options : Options) (tls logOpen : Bool) (controller icu : Vhost) :
    (noticeOptions options : MainScript Double Variables Unit).Ensures observe Lawful
      (some ⟨.listening tls [controller, icu], .fine, logOpen, []⟩) fun seen outcome =>
        outcome = .ok () ∧ seen = some ⟨.listening tls [controller, icu], .fine, logOpen, []⟩ := by
  unfold noticeOptions
  simp only [ensures_bind, ensures_ask]
  rintro ⟨⟩ - ⟨⟩ - ⟨⟩ - ⟨⟩ -
  simp only [observe_notice]
  by_cases logs : options.timingLogPath ≠ []
  · rw [if_pos logs, ensures_ask]
    rintro ⟨⟩ -
    rw [observe_notice]
    exact ⟨rfl, rfl⟩
  · rw [if_neg logs]
    exact ⟨rfl, rfl⟩

theorem printAll_ensures (messages : List (List UInt8)) :
    (printAll messages : MainScript Double Variables Unit).Ensures observe Lawful (some .nothing)
      fun seen outcome => outcome = .ok () ∧ seen = some .nothing := by
  induction messages with
  | nil => exact ⟨rfl, rfl⟩
  | cons text texts inductionHypothesis =>
    unfold printAll
    rw [ensures_bind, ensures_ask]
    rintro ⟨⟩ -
    have same : observe (some .nothing) (⟨.stderr text, ()⟩ : MainEntry Double Variables) =
        some .nothing := observe_start false rfl
    dsimp only
    rw [same]
    exact inductionHypothesis

/-! ### The loop of the process -/

theorem observe_running (tls logOpen : Bool) (controller icu : Vhost)
    (served : List (Event Double × Observation Double)) (running : Bool) :
    observe (some ⟨.listening tls [controller, icu], .fine, logOpen, served⟩)
        (⟨.running, running⟩ : MainEntry Double Variables) =
      some ⟨.listening tls [controller, icu], .fine, logOpen, served⟩ := by
  simp [observe, Observed.Permits, Observed.after, ContextPhase.after, Health.after, succeeds]

theorem observe_service (tls logOpen : Bool) (controller icu : Vhost)
    (served history : List (Event Double × Observation Double))
    (system next : System Double Variables) :
    observe (some ⟨.listening tls [controller, icu], .fine, logOpen, served⟩)
        ⟨.service system, (history, next)⟩ =
      some ⟨.listening tls [controller, icu], .fine, logOpen, served ++ history⟩ := by
  simp [observe, Observed.Permits, Observed.after, ContextPhase.after, Health.after, succeeds]

theorem observe_closeLog (tls : Bool) (controller icu : Vhost)
    (served : List (Event Double × Observation Double)) :
    observe (some ⟨.listening tls [controller, icu], .fine, true, served⟩)
        (⟨.closeLog, ()⟩ : MainEntry Double Variables) =
      some ⟨.listening tls [controller, icu], .fine, false, served⟩ := by
  simp [observe, Observed.Permits, Observed.after, ContextPhase.after, Health.after, succeeds]

/-! ### The health -/

theorem health_after_eq_fine {health : Health} {entry : MainEntry Double Variables} :
    health.after entry = .fine ↔ health = .fine ∧ succeeds entry = true := by
  unfold Health.after
  by_cases succeeded : succeeds entry = true
  · rw [if_pos succeeded]
    split <;> simp [succeeded]
  · rw [if_neg succeeded]
    simp [succeeded]

theorem foldl_observe_none (trace : List (MainEntry Double Variables)) :
    trace.foldl observe none = none := by
  induction trace with
  | nil => rfl
  | cons entry trace inductionHypothesis => exact inductionHypothesis

/-- The health is fine as long as nothing that matters fails. -/
theorem health_of_observe {trace : List (MainEntry Double Variables)}
    {before after : Observed Double} (seen : trace.foldl observe (some before) = some after) :
    after.health = .fine ↔
      before.health = .fine ∧ ∀ entry ∈ trace, succeeds entry = true := by
  induction trace generalizing before with
  | nil =>
    obtain rfl := Option.some_inj.mp seen
    simp
  | cons entry trace inductionHypothesis =>
    rw [List.foldl_cons] at seen
    cases next : observe (some before) entry with
    | none =>
      rw [next, foldl_observe_none] at seen
      exact absurd seen.symm (Option.some_ne_none _)
    | some between =>
      rw [next] at seen
      have health : between.health = before.health.after entry := by
        unfold observe at next
        rw [Option.bind_some] at next
        split at next
        · rw [← Option.some_inj.mp next]
          rfl
        · exact absurd next.symm (Option.some_ne_none _)
      rw [inductionHypothesis seen, health, health_after_eq_fine, List.forall_mem_cons, and_assoc]

/-! ### The start -/

section

variable [Sub Double] [Mul Double] [Neg Double] [OfScientific Double]

variable (Lawful) in
/-- What is known when the loop begins. -/
structure Begins (libm : Libm Double) (beyond : Int → Int) (argv : List (List UInt8))
    (process : Process Double Variables) (seen : Option (Observed Double)) : Prop where
  motor : Initialised Lawful libm process.motor
  samples : process.samples = []
  stats : process.stats = .initial
  server : process.server = bridgeServerStart (.zeroed maxBridgedFrameLen)
  listens : ∃ options, parseArguments beyond argv = .ok options ∧
    seen = some ⟨.listening options.certAndKey.isSome [controllerVhost options, icuVhost options],
      .fine, process.logOpen, []⟩

/-- What is known when there is no loop: the arguments are refused, or there is a report of what
has failed, and the context, if there was one, is closed. -/
def GivesUp (beyond : Int → Int) (argv : List (List UInt8)) (seen : Option (Observed Double)) :
    Prop :=
  (∃ messages, parseArguments beyond argv = .error messages) ∧ seen = some .nothing ∨
    (∃ options, parseArguments beyond argv = .ok options) ∧ ∃ phase logOpen,
      seen = some ⟨phase, .reported, logOpen, []⟩ ∧
        (phase = .starting ∨ ∃ tls vhosts, phase = .closed tls vhosts)

variable (Lawful) in
theorem startup_ensures (libm : Libm Double) (beyond : Int → Int) (argv : List (List UInt8)) :
    (startup libm beyond argv).Ensures observe Lawful (some .nothing) fun seen outcome =>
      match outcome with
      | .ok process => Begins Lawful libm beyond argv process seen
      | .error code => code = 1 ∧ GivesUp beyond argv seen := by
  unfold startup
  cases parsed : parseArguments beyond argv with
  | error messages =>
    dsimp only
    rw [ensures_bind]
    refine (printAll_ensures messages).mono ?_
    rintro seen outcome ⟨rfl, rfl⟩
    exact ⟨rfl, Or.inl ⟨⟨messages, parsed⟩, rfl⟩⟩
  | ok options =>
    dsimp only
    rw [ensures_bind, ensures_attempt]
    refine (initMotorInference_starts libm options.modelPath options.delegatePath false).mono ?_
    rintro seen (code | motor) reached
    · obtain ⟨-, logOpen, rfl⟩ := reached
      dsimp only
      unfold fail
      rw [ensures_bind, ensures_ask]
      rintro ⟨⟩ -
      refine ⟨rfl, Or.inr ⟨⟨options, parsed⟩, .starting, logOpen, ?_, Or.inl rfl⟩⟩
      exact observe_stderr .starting (by decide) _ _ _
    · obtain ⟨_, rfl, rfl, initialised⟩ := reached
      dsimp only
      rw [ensures_bind]
      refine (initTimingLog_starts options.timingLogPath).mono ?_
      rintro seen (code | log) opened
      · exact opened.1.elim
      obtain ⟨_, rfl, rfl⟩ := opened
      dsimp only
      rw [ensures_bind]
      refine (gpioToggleInit_starts log.2).mono ?_
      rintro seen (code | gpio) ready
      · exact ready.1.elim
      obtain ⟨_, rfl, rfl⟩ := ready
      dsimp only
      rw [ensures_bind, ensures_ask]
      intro context _
      rw [observe_createContext]
      cases context with
      | false =>
        dsimp only
        rw [if_neg Bool.false_ne_true]
        unfold fail
        rw [ensures_bind, ensures_ask]
        rintro ⟨⟩ -
        refine ⟨rfl, Or.inr ⟨⟨options, parsed⟩, .starting, log.2, ?_, Or.inl rfl⟩⟩
        exact observe_stderr .starting (by decide) _ _ _
      | true =>
        dsimp only
        rw [if_pos rfl, ensures_bind]
        refine (createVhosts_ensures options options.certAndKey.isSome log.2).mono ?_
        rintro seen (code | ⟨⟩) created
        · obtain ⟨rfl, vhosts, rfl⟩ := created
          exact ⟨rfl, Or.inr ⟨⟨options, parsed⟩, _, _, rfl, Or.inr ⟨_, _, rfl⟩⟩⟩
        obtain rfl := created
        dsimp only
        rw [ensures_bind]
        refine (noticeOptions_ensures options _ _ _ _).mono ?_
        rintro seen outcome ⟨rfl, rfl⟩
        exact ⟨initialised, rfl, rfl, rfl, options, parsed, rfl⟩

/-- The loop is entered exactly when the ports are accepted, a certificate is given with its key,
and the interpreter, the context and the vhosts are had; otherwise `main` returns 1. Whether the
log and the pin are had makes no difference. -/
theorem startup_iff {libm : Libm Double} {beyond : Int → Int} {argv : List (List UInt8)}
    {trace : List (MainEntry Double Variables)} {outcome : Except Int (Process Double Variables)}
    (run : Script.Runs (startup libm beyond argv) trace outcome) :
    ((∃ process, outcome = .ok process) ↔
      (PortAccepted beyond argv[1]? ∧ PortAccepted beyond argv[2]? ∧ argv.length ≠ 4) ∧
        ∀ entry ∈ trace, succeeds entry = true) ∧
    ((∃ process, outcome = .ok process) ∨ outcome = .error 1) := by
  have ensures := startup_ensures (fun _ : MainEntry Double Variables => True) libm beyond argv
  have reached := ensures_iff.mp ensures trace outcome run fun _ _ => trivial
  rw [← parseArguments_ok_iff]
  cases outcome with
  | ok process =>
    obtain ⟨-, -, -, -, options, parsed, seen⟩ := reached
    have healthy := (health_of_observe seen).mp rfl
    exact ⟨iff_of_true ⟨process, rfl⟩ ⟨⟨options, parsed⟩, healthy.2⟩, Or.inl ⟨process, rfl⟩⟩
  | error code =>
    obtain ⟨rfl, ⟨⟨messages, refused⟩, -⟩ | ⟨-, phase, logOpen, seen, -⟩⟩ := reached
    · refine ⟨iff_of_false nofun ?_, Or.inr rfl⟩
      rintro ⟨⟨options, parsed⟩, -⟩
      rw [refused] at parsed
      cases parsed
    · refine ⟨iff_of_false nofun ?_, Or.inr rfl⟩
      rintro ⟨-, succeed⟩
      exact Health.noConfusion ((health_of_observe seen).mpr ⟨rfl, succeed⟩)

end

/-! ### The whole life -/

section

variable [Add Double] [Sub Double] [Mul Double] [Div Double] [Neg Double] [LT Double]
  [DecidableLT Double] [LE Double] [DecidableLE Double] [OfScientific Double] [NatCast Double]
  [IntCast Double] {platform : Platform Double Variables}

/-- The answers of an interpreter as it is in the platform, and of libwebsockets as it makes
callbacks. -/
def LawfulAnswer (platform : Platform Double Variables) : MainEntry Double Variables → Prop
  | ⟨.invoke tensors input, answer⟩ => answer = platform.tflite.invoke tensors input
  | ⟨.service system, (history, next)⟩ => Machine.Run (Step platform) system history next
  | _ => True

/-- Callbacks leave the log open or closed. -/
theorem Runs.logOpen_of_run {history rest : List (Event Double × Observation Double)}
    {system next : System Double Variables} (runs : Runs platform history system)
    (run : Machine.Run (Step platform) system rest next) :
    next.process.logOpen = system.process.logOpen := by
  refine (run.invariant (fun (_ : List (Event Double × Observation Double))
      (next : System Double Variables) =>
    SessionsHold next ∧ next.process.logOpen = system.process.logOpen)
    ⟨runs.sessionsHold, rfl⟩ ?_).2
  rintro _ before event after observation ⟨sessionsHold, same⟩ taken
  exact ⟨sessionsHold_step sessionsHold taken, (row_of_step sessionsHold taken).1.trans same⟩

/-- The callbacks of the loop go on with the run before it; when it ends, the log is closed, and
then the context. -/
theorem serve_ensures (tls : Bool) (controller icu : Vhost) (rounds : Nat)
    {served : List (Event Double × Observation Double)} {system : System Double Variables}
    (runs : Runs platform served system) :
    (serve rounds system).Ensures observe (LawfulAnswer platform)
      (some ⟨.listening tls [controller, icu], .fine, system.process.logOpen, served⟩)
      fun seen outcome => ∃ served' system', Runs platform served' system' ∧
        match outcome with
        | .ok next => next = system' ∧ seen =
            some ⟨.listening tls [controller, icu], .fine, next.process.logOpen, served'⟩
        | .error code => code = 0 ∧
            seen = some ⟨.closed tls [controller, icu], .fine, false, served'⟩ := by
  induction rounds generalizing served system with
  | zero => exact ⟨served, system, runs, rfl, rfl⟩
  | succ rounds inductionHypothesis =>
    unfold serve
    rw [ensures_bind, ensures_ask]
    intro running _
    rw [observe_running]
    cases running with
    | true =>
      dsimp only
      rw [if_pos rfl, ensures_bind, ensures_ask]
      rintro ⟨history, next⟩ lawful
      rw [observe_service, ← runs.logOpen_of_run lawful]
      exact inductionHypothesis (runs.append lawful)
    | false =>
      dsimp only
      rw [if_neg Bool.false_ne_true]
      cases logOpen : system.process.logOpen with
      | true =>
        simp only [if_true, ensures_bind, ensures_ask, ensures_exit]
        rintro ⟨⟩ - ⟨⟩ -
        rw [observe_closeLog, observe_destroyContext _ _ _ _ (Or.inr ⟨rfl, rfl⟩)]
        exact ⟨served, system, runs, trivial, rfl⟩
      | false =>
        simp only [Bool.false_eq_true, if_false, ensures_bind, ensures_ask, ensures_exit]
        rintro ⟨⟩ -
        rw [observe_destroyContext _ _ _ _ (Or.inr ⟨rfl, rfl⟩)]
        exact ⟨served, system, runs, trivial, rfl⟩

/-- How `main` ends after its loop has begun: it still serves, or it has returned 0. -/
def Ends (options : Options) (served : List (Event Double × Observation Double))
    (system : System Double Variables) (seen : Option (Observed Double))
    (outcome : Except Int (System Double Variables)) : Prop :=
  match outcome with
  | .ok next => next = system ∧ seen =
      some ⟨.listening options.certAndKey.isSome [controllerVhost options, icuVhost options],
        .fine, system.process.logOpen, served⟩
  | .error code => code = 0 ∧ seen =
      some ⟨.closed options.certAndKey.isSome [controllerVhost options, icuVhost options],
        .fine, false, served⟩

theorem main_ensures (beyond : Int → Int) (sessions : Nat → ControllerSession)
    (argv : List (List UInt8)) (rounds : Nat) :
    (main platform.libm beyond sessions argv rounds).Ensures observe (LawfulAnswer platform)
      (some .nothing) fun seen outcome =>
        (∃ options served system, parseArguments beyond argv = .ok options ∧
          Runs platform served system ∧ Ends options served system seen outcome) ∨
        outcome = .error 1 ∧ GivesUp beyond argv seen := by
  unfold main
  rw [ensures_bind]
  refine (startup_ensures _ platform.libm beyond argv).mono ?_
  rintro seen (code | process) reached
  · obtain ⟨rfl, givesUp⟩ := reached
    exact Or.inr ⟨rfl, givesUp⟩
  · obtain ⟨motor, samples, stats, server, options, parsed, rfl⟩ := reached
    have started : Started platform ⟨process, sessions, .idle⟩ :=
      ⟨motor platform.tflite fun _ _ _ lawful => lawful, samples, stats, ⟨_, server⟩, rfl⟩
    refine (serve_ensures _ _ _ rounds ⟨_, started, .start⟩).mono ?_
    rintro seen (code | next) ⟨served, system, runs, ends⟩
    · exact Or.inl ⟨options, served, system, parsed, runs, ends⟩
    · obtain ⟨rfl, seen⟩ := ends
      exact Or.inl ⟨options, served, next, parsed, runs, rfl, seen⟩

/-- No run of `main` makes a call out of order. While it serves, both vhosts listen, with the ports
and the certificate it was given, and the callbacks so far are a run of the system. It returns 0
after such a run, with the log closed and then the context destroyed; or it returns 1, when it
refuses its arguments, or with a report of what has failed, no context left and no callback made. -/
theorem main_lifecycle {beyond : Int → Int} {sessions : Nat → ControllerSession}
    {argv : List (List UInt8)} {rounds : Nat} {trace : List (MainEntry Double Variables)}
    {outcome : Except Int (System Double Variables)}
    (run : Script.Runs (main platform.libm beyond sessions argv rounds) trace outcome)
    (lawful : ∀ entry ∈ trace, LawfulAnswer platform entry) :
    (∃ options served system, parseArguments beyond argv = .ok options ∧
      Runs platform served system ∧
      Ends options served system (trace.foldl observe (some .nothing)) outcome) ∨
    outcome = .error 1 ∧ GivesUp beyond argv (trace.foldl observe (some .nothing)) :=
  ensures_iff.mp (main_ensures beyond sessions argv rounds) trace outcome run lawful

end

end

/-! ### A short life -/

/-- A call of the service loop that has made a callback. -/
def serves {Double Variables : Type} : MainEntry Double Variables → Bool
  | ⟨.service _, (history, _)⟩ => !history.isEmpty
  | _ => false

/-- A round of the loop: a client connects, if it has not. -/
def firstRound (system : System ℚ Nat) : List (Event ℚ × Observation ℚ) × System ℚ Nat :=
  if system.lws.clients 7 = none then
    ([(.icuEstablished 7, ⟨none, none, none, none⟩)], {
      process := { system.process with server := icuEstablished system.process.server }
      sessions := system.sessions
      lws := system.lws.setClient 7 (some false) })
  else ([], system)

theorem firstRound_run (system : System ℚ Nat) :
    Machine.Run (Step examplePlatform) system (firstRound system).1 (firstRound system).2 := by
  unfold firstRound
  split
  · rename_i absent
    exact Machine.Run.start.step (.icuEstablished absent)
  · exact .start

/-- Every call succeeds, a client connects in the first round of the loop, and then a signal
comes. -/
def exampleAnswer (before : List (MainEntry ℚ Nat)) : (made : MainCall ℚ Nat) → made.Answer
  | .stderr _ | .notice _ | .setNumThreads _ | .printLog _ | .closeLog | .closeFile
  | .destroyContext => ()
  | .buildFromFile _ | .buildInterpreter | .delegateCreate _ | .modifyGraph | .openLog _
  | .access _ | .createContext _ | .createVhost _ => true
  | .hardwareConcurrency => 4
  | .tellLog => 0
  | .allocateTensors => some 0
  | .tensors => (⟨true, 40⟩, ⟨true, 3⟩)
  | .invoke tensors input => exampleTflite.invoke tensors input
  | .openFile _ => .ok ()
  | .writeFile text => (text.length, [])
  | .running => !before.any serves
  | .service system => firstRound system

theorem exampleAnswer_lawful (before : List (MainEntry ℚ Nat)) (made : MainCall ℚ Nat) :
    LawfulAnswer examplePlatform ⟨made, exampleAnswer before made⟩ := by
  cases made with
  | service system => exact firstRound_run system
  | _ => trivial

/-- The arguments the service is started with. -/
def serviceArguments : List (List UInt8) :=
  ["controller_bridge", "8081", "8080", "pc_server.crt", "pc_server.key",
    "TfLSTM_l2_w128_s20_int8.tflite", "/usr/lib/libvx_delegate.so", "timing_log.csv"].map ascii

/-- Three rounds of the loop, at most. -/
def exampleMain : MainScript ℚ Nat (System ℚ Nat) :=
  main exampleLibm id exampleSystem.sessions serviceArguments 3

/-- The second round is the last. -/
theorem exampleMain_ends : (exampleMain.follow exampleAnswer []).1.any serves = true ∧
    (exampleMain.follow exampleAnswer []).2.map (fun _ => ()) = .error 0 := by
  decide +kernel

theorem exampleAnswer_lifecycle : ∃ trace outcome, Script.Runs exampleMain trace outcome ∧
    trace.any serves = true ∧ outcome = .error 0 ∧
    ((∃ options served system, parseArguments id serviceArguments = .ok options ∧
      Runs examplePlatform served system ∧
      Ends options served system (trace.foldl observe (some .nothing)) outcome) ∨
    outcome = .error 1 ∧ GivesUp id serviceArguments (trace.foldl observe (some .nothing))) := by
  obtain ⟨run, answered⟩ := Script.runs_follow exampleAnswer exampleMain []
  obtain ⟨serves, ended⟩ := exampleMain_ends
  refine ⟨_, _, run, serves, ?_, main_lifecycle run ?_⟩
  · cases outcome : (exampleMain.follow exampleAnswer []).2 with
    | error code =>
      rw [outcome] at ended
      exact congrArg Except.error (Except.error.inj ended)
    | ok next =>
      rw [outcome] at ended
      cases ended
  · rintro ⟨made, answer⟩ member
    obtain ⟨before, same⟩ := answered _ member
    have same : answer = exampleAnswer before made := same
    rw [same]
    exact exampleAnswer_lawful before made

/-- The start of the service. -/
theorem exampleAnswer_startup : ∃ trace outcome,
    Script.Runs (startup exampleLibm id serviceArguments) trace outcome ∧
    ((∃ process : Process ℚ Nat, outcome = .ok process) ↔
      (PortAccepted id serviceArguments[1]? ∧ PortAccepted id serviceArguments[2]? ∧
        serviceArguments.length ≠ 4) ∧ ∀ entry ∈ trace, succeeds entry = true) ∧
    ((∃ process, outcome = .ok process) ∨ outcome = .error 1) := by
  obtain ⟨run, -⟩ :=
    Script.runs_follow exampleAnswer (startup exampleLibm id serviceArguments) []
  exact ⟨_, _, run, startup_iff run⟩

end ControllerBridge
