/-
This file is the model of `main.cpp`, with the initialisations it calls:
`motor_inference_init`, `timing_log_init` and `gpio_toggle_init`.

`main` is a script. What it asks of the C library, of TensorFlow Lite, of the
file system and of libwebsockets are its calls, whatever they answer, and so are
the messages it prints. A call of `lws_service` is answered with the callbacks
libwebsockets makes in it and the system they leave. The loop takes the number of
rounds it may make, since it ends only when a signal says so.
-/

import ControllerBridge.Library.Script
import ControllerBridge.TimingLog

namespace ControllerBridge

/-! ### Calls -/

/-- What `main` looks at of a tensor. -/
structure TensorInfo where
  int8 : Bool
  bytes : Nat

/-- The members of `lws_context_creation_info` that `main` sets for a vhost. -/
structure Vhost where
  port : Int
  protocol : List UInt8
  sessionSize : Nat
  certAndKey : Option (List UInt8 × List UInt8)

/-- The calls of `main`. -/
inductive MainCall (Double Variables : Type) where
  | stderr (text : List UInt8)
  | notice (text : List UInt8)
  | buildFromFile (path : List UInt8)
  | buildInterpreter
  | hardwareConcurrency
  | setNumThreads (threads : Nat)
  | delegateCreate (path : List UInt8)
  | modifyGraph
  | allocateTensors
  | tensors
  | invoke (tensors : Variables) (input : List Int8)
  | openLog (path : List UInt8)
  | tellLog
  | printLog (text : List UInt8)
  | closeLog
  | access (path : List UInt8)
  | openFile (path : List UInt8)
  | writeFile (text : List UInt8)
  | closeFile
  | createContext (tls : Bool)
  | createVhost (vhost : Vhost)
  | running
  | service (system : System Double Variables)
  | destroyContext

/-- What a call is answered with. A call that may fail says whether it succeeds; where the source
prints the reason, the answer has its text. -/
@[reducible] def MainCall.Answer {Double Variables : Type} : MainCall Double Variables → Type
  | .stderr _ | .notice _ | .setNumThreads _ | .printLog _ | .closeLog | .closeFile
  | .destroyContext => Unit
  | .buildFromFile _ | .buildInterpreter | .delegateCreate _ | .modifyGraph | .openLog _
  | .access _ | .createContext _ | .createVhost _ | .running => Bool
  | .hardwareConcurrency => Nat
  | .tellLog => Int
  | .allocateTensors => Option Variables
  | .tensors => TensorInfo × TensorInfo
  | .invoke _ _ => Variables × Option (Fin kNumTendonMotors → Int8)
  | .openFile _ => Except (List UInt8) Unit
  | .writeFile _ => Int × List UInt8
  | .service _ => List (Event Double × Observation Double) × System Double Variables

/-- A part of `main`, with the code it exits with early. -/
abbrev MainScript (Double Variables Result : Type) : Type :=
  Script (MainCall Double Variables) MainCall.Answer Int Result

abbrev ask {Double Variables : Type} (made : MainCall Double Variables) :
    MainScript Double Variables made.Answer :=
  Script.ask made

/-! ### Arguments -/

/-- `isspace`. -/
def isSpace (byte : UInt8) : Bool := byte = 0x20 || (0x09 ≤ byte && byte ≤ 0x0D)

/-- What the conversion `%d` writes. -/
def decimalText (value : Int) : List UInt8 :=
  (if value < 0 then ascii "-" else []) ++ Decimal.digits value.natAbs

/-- The number at the start of a text, as `strtol` reads it. -/
def leadingNumber (text : List UInt8) : Int :=
  let (negative, rest) := Decimal.takeSign (text.dropWhile isSpace)
  let value : Int := Decimal.valueOf (rest.takeWhile Decimal.isDigit)
  if negative then -value else value

/-- `atoi`; what it makes of a number that is not an `int` is left open. -/
def atoi (beyond : Int → Int) (text : List UInt8) : Int :=
  let value := leadingNumber text
  if -2 ^ 31 ≤ value ∧ value < 2 ^ 31 then value else beyond value

def defaultControllerPort : Int := 8081

def defaultIcuPort : Int := 8080

def defaultModelPath : List UInt8 := ascii "TfLSTM_l2_w128_s20_int8.tflite"

def defaultDelegatePath : List UInt8 := ascii "/usr/lib/libvx_delegate.so"

/-- The line of `print_usage`. -/
def usageText (argv : List (List UInt8)) : List UInt8 :=
  ascii "usage: " ++ argv.headD [] ++
    ascii " [controller_port] [icu_port] [cert_path] [key_path] [model_path] [delegate_path|cpu]" ++
    ascii " [timing_log_path]\n"

/-- What the arguments ask for. -/
structure Options where
  controllerPort : Int
  icuPort : Int
  certAndKey : Option (List UInt8 × List UInt8)
  modelPath : List UInt8
  delegatePath : List UInt8
  timingLogPath : List UInt8

/-- A port number, from the argument at an index. -/
def portArgument (beyond : Int → Int) (argv : List (List UInt8)) (index : Nat)
    (default : Int) : Option Int :=
  match argv[index]? with
  | none => some default
  | some text =>
    let port := atoi beyond text
    if port ≤ 0 ∨ 65535 < port then none else some port

/-- The first part of `main`: the options, or the messages it prints before it returns 1. -/
def parseArguments (beyond : Int → Int) (argv : List (List UInt8)) :
    Except (List (List UInt8)) Options :=
  match portArgument beyond argv 1 defaultControllerPort with
  | none => .error [usageText argv]
  | some controllerPort =>
    match portArgument beyond argv 2 defaultIcuPort with
    | none => .error [usageText argv]
    | some icuPort =>
      let options (certAndKey : Option (List UInt8 × List UInt8)) : Options := {
        controllerPort := controllerPort
        icuPort := icuPort
        certAndKey := certAndKey
        modelPath := argv[5]?.getD defaultModelPath
        delegatePath := match argv[6]? with
          | none => defaultDelegatePath
          | some path => if path = ascii "cpu" then [] else path
        timingLogPath := argv[7]?.getD [] }
      match argv[3]?, argv[4]? with
      | none, none => .ok (options none)
      | some certPath, some keyPath => .ok (options (some (certPath, keyPath)))
      | _, _ => .error [usageText argv,
          ascii "cert_path and key_path must both be given, or both omitted\n"]

/-- An argument that is a port number, if it is there. -/
def PortAccepted (beyond : Int → Int) (argument : Option (List UInt8)) : Prop :=
  ∀ text ∈ argument, 0 < atoi beyond text ∧ atoi beyond text ≤ 65535

theorem portArgument_isSome_iff (beyond : Int → Int) (argv : List (List UInt8)) (index : Nat)
    (default : Int) :
    (∃ port, portArgument beyond argv index default = some port) ↔
      PortAccepted beyond argv[index]? := by
  unfold portArgument PortAccepted
  cases argv[index]? with
  | none => simp
  | some text =>
    dsimp only
    by_cases refused : atoi beyond text ≤ 0 ∨ 65535 < atoi beyond text
    · rw [if_pos refused]
      simp only [Option.mem_some_iff, reduceCtorEq, exists_false, forall_eq', false_iff]
      omega
    · rw [if_neg refused]
      simp only [Option.mem_some_iff, Option.some.injEq, exists_eq', forall_eq', true_iff]
      omega

/-- The arguments are accepted, unless a port number is not, or there is a certificate without a
key. -/
theorem parseArguments_ok_iff (beyond : Int → Int) (argv : List (List UInt8)) :
    (∃ options, parseArguments beyond argv = .ok options) ↔
      PortAccepted beyond argv[1]? ∧ PortAccepted beyond argv[2]? ∧ argv.length ≠ 4 := by
  rw [← portArgument_isSome_iff beyond argv 1 defaultControllerPort,
    ← portArgument_isSome_iff beyond argv 2 defaultIcuPort]
  unfold parseArguments
  cases portArgument beyond argv 1 defaultControllerPort with
  | none => simp
  | some controllerPort =>
    cases portArgument beyond argv 2 defaultIcuPort with
    | none => simp
    | some icuPort =>
      have certificate : argv[3]? = none ↔ argv.length ≤ 3 := List.getElem?_eq_none_iff
      have key : argv[4]? = none ↔ argv.length ≤ 4 := List.getElem?_eq_none_iff
      cases third : argv[3]? with
      | none =>
        have short := certificate.mp third
        rw [key.mpr (by omega)]
        simp
        omega
      | some certPath =>
        have long : ¬ argv.length ≤ 3 := fun short =>
          Option.some_ne_none _ (third.symm.trans (certificate.mpr short))
        cases fourth : argv[4]? with
        | none =>
          have short := key.mp fourth
          simp
          omega
        | some keyPath =>
          have longer : ¬ argv.length ≤ 4 := fun short =>
            Option.some_ne_none _ (fourth.symm.trans (key.mpr short))
          simp
          omega

/-! ### Initialisations -/

section

variable {Double Variables : Type}

/-- Prints a message, and returns with a code. -/
def fail {Result : Type} (code : Int) (text : List UInt8) : MainScript Double Variables Result := do
  ask (.stderr text)
  Script.exit code

/-- The delegate of `motor_inference_init`, or the message that there is none. -/
def applyDelegate (delegatePath : List UInt8) (threads : Nat) :
    MainScript Double Variables Unit := do
  if delegatePath ≠ [] then
    let created : Bool ← ask (.delegateCreate delegatePath)
    if created then
      let modified : Bool ← ask .modifyGraph
      if modified then
        ask (.stderr
          (ascii "motor_inference: NPU delegate active: " ++ delegatePath ++ ascii "\n"))
      else fail (-1) (ascii "motor_inference: NPU delegate rejected the model graph\n")
    else
      fail (-1) (ascii "motor_inference: failed to load NPU delegate from " ++ delegatePath ++
        ascii "\n")
  else
    ask (.stderr (ascii "motor_inference: running on CPU, threads=" ++
      decimalText threads ++ ascii "\n"))

/-- The interpreter of `motor_inference_init`, up to its tensors. -/
def buildTensors (modelPath delegatePath : List UInt8) :
    MainScript Double Variables Variables := do
  let loaded : Bool ← ask (.buildFromFile modelPath)
  if loaded then
    let built : Bool ← ask .buildInterpreter
    if built then
      let hw : Nat ← ask .hardwareConcurrency
      let threads := if 0 < hw then hw else 4
      ask (.setNumThreads threads)
      applyDelegate delegatePath threads
      let allocated : Option Variables ← ask .allocateTensors
      match allocated with
      | none => fail (-1) (ascii "motor_inference: AllocateTensors failed\n")
      | some tensors => pure tensors
    else fail (-1) (ascii "motor_inference: failed to build interpreter\n")
  else
    fail (-1) (ascii "motor_inference: failed to load model: " ++ modelPath ++ ascii "\n")

/-- The checks of the input and the output tensor. -/
def checkTensors : MainScript Double Variables Unit := do
  let info : TensorInfo × TensorInfo ← ask .tensors
  if info.1.int8 ∧ info.2.int8 then
    if info.1.bytes = kSeqLen * 2 ∧ info.2.bytes = kNumTendonMotors then pure ()
    else
      fail (-1) (ascii "motor_inference: model tensor shapes don't match expected (input " ++
        decimalText info.1.bytes ++ ascii " bytes, expected " ++ decimalText (kSeqLen * 2 : Nat) ++
        ascii "; output " ++ decimalText info.2.bytes ++ ascii " bytes, expected " ++
        decimalText kNumTendonMotors ++ ascii ")\n")
  else fail (-1) (ascii "motor_inference: expected int8 input/output tensors\n")

section

variable [Sub Double] [Mul Double] [Neg Double] [OfScientific Double]

/-- `motor_inference_init`: the state of the module, when it succeeds. -/
def initMotorInference (libm : Libm Double) (modelPath delegatePath : List UInt8) :
    MainScript Double Variables (MotorInference Double Variables) := do
  let tensors ← buildTensors modelPath delegatePath
  checkTensors
  let history := HistoryWindowBuilder.create (0.0, 0.0) kSeqLen kAnchorDistance
  let lpf := CascadedEMA.create libm kNumTendonMotors kControlTs kLpfFc kLpfStages
  if delegatePath ≠ [] then
    let warmUp : Variables × Option (Fin kNumTendonMotors → Int8) ← ask
      (.invoke tensors (List.replicate (kSeqLen * 2) (Int8.ofInt kInputZeroPoint)))
    match warmUp.2 with
    | none => fail (-1) (ascii "motor_inference: NPU warm-up invoke failed\n")
    | some _ => pure ⟨warmUp.1, history, lpf, false⟩
  else pure ⟨tensors, history, lpf, false⟩

end

/-- `timing_log_init`: its result, and whether the log is open. -/
def initTimingLog (path : List UInt8) : MainScript Double Variables (Int × Bool) := do
  if path = [] then pure (0, false)
  else
    let opened : Bool ← ask (.openLog path)
    if opened then
      let size : Int ← ask .tellLog
      if size = 0 then ask (.printLog logHeader) else pure ()
      pure (0, true)
    else
      ask (.stderr (ascii "timing_log: failed to open '" ++ path ++
        ascii "' for append - continuing without timing log\n"))
      pure (-1, false)

def kGpioLine : Int := 5

/-- A file of the line under `/sys/class/gpio`. -/
def gpioPath (file : List UInt8) : List UInt8 :=
  ascii "/sys/class/gpio/gpio" ++ decimalText kGpioLine ++ ascii "/" ++ file

/-- `write_sysfs`. -/
def writeSysfs (path text : List UInt8) : MainScript Double Variables Bool := do
  let opened : Except (List UInt8) Unit ← ask (.openFile path)
  match opened with
  | .error reason =>
    ask (.stderr (ascii "gpio_toggle: open(" ++ path ++ ascii ") failed: " ++ reason ++
      ascii "\n"))
    pure false
  | .ok () =>
    let written : Int × List UInt8 ← ask (.writeFile text)
    ask .closeFile
    if written.1 ≠ text.length then
      ask (.stderr (ascii "gpio_toggle: write(" ++ path ++ ascii ") failed: " ++
        written.2 ++ ascii "\n"))
      pure false
    else pure true

/-- The first part of `gpio_toggle_init`: the line is exported, unless it is there. -/
def exportGpio : MainScript Double Variables Unit := do
  let present : Bool ← ask (.access (gpioPath (ascii "value")))
  if present then pure ()
  else
    let _ ← writeSysfs (ascii "/sys/class/gpio/export") (decimalText kGpioLine)
    pure ()

/-- `gpio_toggle_init`: its result, and `g_ready`. -/
def gpioToggleInit : MainScript Double Variables (Int × Bool) := do
  exportGpio
  let directed ← writeSysfs (gpioPath (ascii "direction")) (ascii "out")
  if directed then
    let low ← writeSysfs (gpioPath (ascii "value")) (ascii "0")
    if low then pure (0, true) else pure (-1, false)
  else
    ask (.stderr (ascii "gpio_toggle: failed to configure gpio" ++ decimalText kGpioLine ++
      ascii " as output - timing marker disabled, rest of the pipeline unaffected\n"))
    pure (-1, false)

/-! ### The program -/

/-- `sizeof(controller_session_t)`. -/
def controllerReceiverSessionSize : Nat := maxControllerFrameLen + 8

def controllerVhost (options : Options) : Vhost :=
  ⟨options.controllerPort, ascii "controller", controllerReceiverSessionSize, options.certAndKey⟩

def icuVhost (options : Options) : Vhost :=
  ⟨options.icuPort, ascii "telemetry", 0, options.certAndKey⟩

/-- The two vhosts; without one of them, `main` destroys the context and returns. -/
def createVhosts (options : Options) : MainScript Double Variables Unit := do
  let controller : Bool ← ask (.createVhost (controllerVhost options))
  if controller then
    let icu : Bool ← ask (.createVhost (icuVhost options))
    if icu then pure ()
    else
      ask (.stderr (ascii "failed to create ICU vhost on port " ++
        decimalText options.icuPort ++ ascii "\n"))
      ask .destroyContext
      Script.exit 1
  else
    ask (.stderr (ascii "failed to create controller vhost on port " ++
      decimalText options.controllerPort ++ ascii "\n"))
    ask .destroyContext
    Script.exit 1

/-- The notices before the loop. -/
def noticeOptions (options : Options) : MainScript Double Variables Unit := do
  let scheme := if options.certAndKey.isSome then ascii "wss:// (TLS)" else ascii "ws:// (plain)"
  ask (.notice (ascii "controller-facing listener on port " ++
    decimalText options.controllerPort ++ ascii ", " ++ scheme ++ ascii "\n"))
  ask (.notice (ascii "ICU-facing listener on port " ++
    decimalText options.icuPort ++ ascii ", " ++ scheme ++ ascii "\n"))
  ask (.notice (ascii "bridging directly in memory - no log file, no second process\n"))
  ask (.notice (ascii "motor inference active (" ++
    (if options.delegatePath ≠ [] then ascii "NPU" else ascii "CPU") ++ ascii "), model: " ++
    options.modelPath ++ ascii "\n"))
  if options.timingLogPath ≠ [] then
    ask (.notice (ascii "timing log: appending per-frame CSV to " ++
      options.timingLogPath ++ ascii "\n"))
  else pure ()

/-- The messages of a failed argument check. -/
def printAll : List (List UInt8) → MainScript Double Variables Unit
  | [] => pure ()
  | text :: texts => do
    ask (.stderr text)
    printAll texts

section

variable [Sub Double] [Mul Double] [Neg Double] [OfScientific Double]

/-- `main` up to its loop: the process it has set up. -/
def startup (libm : Libm Double) (beyond : Int → Int) (argv : List (List UInt8)) :
    MainScript Double Variables (Process Double Variables) := do
  match parseArguments beyond argv with
  | .error messages =>
    printAll messages
    Script.exit 1
  | .ok options =>
    let initialised ←
      (initMotorInference libm options.modelPath options.delegatePath).attempt
    match initialised with
    | .error _ =>
      fail 1 (ascii "failed to initialize motor inference from model: " ++ options.modelPath ++
        ascii "\n")
    | .ok motor =>
      let log ← initTimingLog options.timingLogPath
      let _ ← gpioToggleInit
      let context : Bool ← ask (.createContext options.certAndKey.isSome)
      if context then
        createVhosts options
        noticeOptions options
        pure {
          motor := motor
          samples := []
          stats := .initial
          logOpen := log.2
          server := bridgeServerStart (.zeroed maxBridgedFrameLen) }
      else fail 1 (ascii "failed to create libwebsockets context\n")

/-- The loop, for a number of rounds, and what follows it: the exit of `main`, or the system when
the rounds are used up. -/
def serve : Nat → System Double Variables → MainScript Double Variables (System Double Variables)
  | 0, system => pure system
  | rounds + 1, system => do
    let running : Bool ← ask .running
    if running then
      let served : List (Event Double × Observation Double) × System Double Variables ←
        ask (.service system)
      serve rounds served.2
    else
      if system.process.logOpen then ask .closeLog else pure ()
      ask .destroyContext
      Script.exit 0

/-- `main`, with the memory of the sessions to come. -/
def main (libm : Libm Double) (beyond : Int → Int) (sessions : Nat → ControllerSession)
    (argv : List (List UInt8)) (rounds : Nat) :
    MainScript Double Variables (System Double Variables) := do
  let process ← startup libm beyond argv
  serve rounds ⟨process, sessions, .idle⟩

end

end

end ControllerBridge
