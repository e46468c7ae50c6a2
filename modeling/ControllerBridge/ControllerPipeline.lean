/-
This file is the model of `controller_pipeline.hpp`: joystick to angles, angles
to features, the motion history, quantisation and the low-pass filter.

Numbers of type `float` are taken as numbers of the same type `Double`, and a
conversion to `float` is the parameter `Libm.toFloat`. The motion history is
written for any type of samples and any distance between them; the filter for
any dimension and number of stages.
-/

import Mathlib.Data.Int.SuccPred
import Mathlib.Data.Rat.Init
import Mathlib.Tactic.Common

namespace ControllerBridge

/-- The functions of the mathematics library and the conversions between number types. -/
structure Libm (Double : Type) where
  floor : Double → Double
  sqrt : Double → Double
  sin : Double → Double
  cos : Double → Double
  exp : Double → Double
  atan2 : Double → Double → Double
  toFloat : Double → Double
  toInt32 : Double → Int
  dblMax : Double

section

variable {Double : Type} [Add Double] [Sub Double] [Mul Double] [Div Double] [Neg Double]
  [LT Double] [DecidableLT Double] [OfScientific Double] [IntCast Double]

/-! ### Angles and features -/

def kPi : Double := 3.14159265358979323846

def degToRad (deg : Double) : Double := deg * (kPi / 180.0)

def radToDeg (rad : Double) : Double := rad * (180.0 / kPi)

/-- `std::clamp`. -/
def clamp (value low high : Double) : Double :=
  if value < low then low else if high < value then high else value

/-- The angles `(theta, phi)` of a joystick position. -/
def xyToAngles (libm : Libm Double) (x y thetaLimit : Double) : Double × Double :=
  let phi := libm.atan2 y x
  let radius := libm.sqrt (x * x + y * y)
  let radius := clamp radius 0.0 1.0
  (radius * thetaLimit, phi)

/-- The features `(u, v)` of a pair of angles. -/
def featureTransform (libm : Libm Double) (theta phi : Double) : Double × Double :=
  let thetaDeg := radToDeg theta
  (libm.cos phi * thetaDeg, libm.sin phi * thetaDeg)

/-! ### Quantisation -/

def roundHalfToEven (libm : Libm Double) (v : Double) : Int :=
  let floorV := libm.floor v
  let frac := v - floorV
  let fl := libm.toInt32 floorV
  if frac < 0.5 then fl
  else if 0.5 < frac then fl + 1
  else if fl.tmod 2 = 0 then fl else fl + 1

def quantize (libm : Libm Double) (x scale : Double) (zeroPoint : Int) : Int8 :=
  let q := roundHalfToEven libm (x / scale) + zeroPoint
  Int8.ofInt (max (-128) (min 127 q))

def dequantize (q : Int8) (scale : Double) (zeroPoint : Int) : Double :=
  scale * ((q.toInt : Double) - (zeroPoint : Double))

end

/-! ### The motion history -/

/-- `HistoryWindowBuilder`, with its fields. -/
structure HistoryWindowBuilder (Sample Double : Type) where
  seqLen : Nat
  anchorDistance : Double
  hist : List Sample
  firstSample : Sample
  prevSample : Sample
  accumDist : Double
  hasFirst : Bool

namespace HistoryWindowBuilder

variable {Sample Double : Type}

/-- The constructor; `blank` is the value-initialised sample. -/
def create [OfScientific Double] (blank : Sample) (seqLen : Nat) (anchorDistance : Double) :
    HistoryWindowBuilder Sample Double where
  seqLen := seqLen
  anchorDistance := anchorDistance
  hist := []
  firstSample := blank
  prevSample := blank
  accumDist := 0.0
  hasFirst := false

/-- The first call after a reset takes its sample as the first and the previous one. -/
def start (builder : HistoryWindowBuilder Sample Double) (cur : Sample) :
    HistoryWindowBuilder Sample Double :=
  if builder.hasFirst then builder
  else { builder with firstSample := cur, prevSample := cur, hasFirst := true }

/-- The window: the anchors, padded in front with the first sample, and the current sample. -/
def window (builder : HistoryWindowBuilder Sample Double) (cur : Sample) : List Sample :=
  let needed := builder.seqLen - 1
  if builder.hist.length < needed then
    List.replicate (needed - builder.hist.length) builder.firstSample ++ builder.hist ++ [cur]
  else builder.hist ++ [cur]

/-- The way to the current sample is added to the distance. -/
def move [Add Double] (distance : Sample → Sample → Double)
    (builder : HistoryWindowBuilder Sample Double) (cur : Sample) :
    HistoryWindowBuilder Sample Double :=
  { builder with
    accumDist := builder.accumDist + distance builder.prevSample cur
    prevSample := cur }

/-- The current sample becomes an anchor once the distance is reached, and the oldest anchor
leaves a full history. -/
def anchor [LE Double] [DecidableLE Double] [OfScientific Double]
    (builder : HistoryWindowBuilder Sample Double) (cur : Sample) :
    HistoryWindowBuilder Sample Double :=
  if builder.anchorDistance ≤ builder.accumDist then
    let hist := builder.hist ++ [cur]
    { builder with
      hist := if builder.seqLen - 1 < hist.length then hist.drop 1 else hist
      accumDist := 0.0 }
  else builder

/-- `Build`: the builder afterwards and the window. -/
def build [Add Double] [LE Double] [DecidableLE Double] [OfScientific Double]
    (distance : Sample → Sample → Double) (builder : HistoryWindowBuilder Sample Double)
    (cur : Sample) : HistoryWindowBuilder Sample Double × List Sample :=
  let builder := builder.start cur
  let window := builder.window cur
  ((builder.move distance cur).anchor cur, window)

/-- The distance the source builds with: the length of the way from one `(u, v)` to the next. -/
def planeDistance [Add Double] [Sub Double] [Mul Double] (libm : Libm Double)
    (prev cur : Double × Double) : Double :=
  let dx := cur.1 - prev.1
  let dy := cur.2 - prev.2
  libm.sqrt (dx * dx + dy * dy)

/-- `Reset`: the first and the previous sample stay, and `hasFirst` hides them. -/
def reset [OfScientific Double] (builder : HistoryWindowBuilder Sample Double) :
    HistoryWindowBuilder Sample Double :=
  { builder with hist := [], hasFirst := false, accumDist := 0.0 }

end HistoryWindowBuilder

/-! ### The low-pass filter -/

/-- `CascadedEMA`: the coefficient and the output of each stage. -/
structure CascadedEMA (Double : Type) (dim : Nat) where
  stages : List (Double × (Fin dim → Double))

namespace CascadedEMA

variable {Double : Type} {dim : Nat}

/-- The constructor. -/
def create [Sub Double] [Mul Double] [Neg Double] [OfScientific Double] (libm : Libm Double)
    (dim : Nat) (ts fc : Double) (stages : Nat) : CascadedEMA Double dim :=
  let alpha : Double := 1.0 - libm.exp (-2.0 * kPi * fc * ts)
  ⟨List.replicate stages (alpha, fun _ => 0.0)⟩

/-- `Reset`: every stage starts at `seed`. -/
def reset (filter : CascadedEMA Double dim) (seed : Fin dim → Double) : CascadedEMA Double dim :=
  ⟨filter.stages.map fun stage => (stage.1, seed)⟩

section

variable [Add Double] [Sub Double] [Mul Double]

/-- One stage moves its output towards its input. -/
def stageStep (alpha : Double) (y input : Fin dim → Double) : Fin dim → Double :=
  fun d => y d + alpha * (input d - y d)

/-- The stages in order, each fed with the new output of the one before. -/
def stepStages : List (Double × (Fin dim → Double)) → (Fin dim → Double) →
    List (Double × (Fin dim → Double)) × (Fin dim → Double)
  | [], input => ([], input)
  | (alpha, y) :: stages, input =>
    let output := stageStep alpha y input
    let rest := stepStages stages output
    ((alpha, output) :: rest.1, rest.2)

/-- `Step`: the filter afterwards and its output. -/
def step (filter : CascadedEMA Double dim) (input : Fin dim → Double) :
    CascadedEMA Double dim × (Fin dim → Double) :=
  let result := stepStages filter.stages input
  (⟨result.1⟩, result.2)

end

end CascadedEMA

end ControllerBridge
