import ControllerBridge.Library.Search
import ControllerBridge.Library.Region
import ControllerBridge.Library.Decimal
import ControllerBridge.Library.Json
import ControllerBridge.Library.JsonMachine
import ControllerBridge.Library.JsonReading
import ControllerBridge.Library.Literal
import ControllerBridge.Library.JsonMembers
import ControllerBridge.Library.JsonPlaces
import ControllerBridge.Library.JsonLookup
import ControllerBridge.Library.JsonTree
import ControllerBridge.Library.JsonEdits
import ControllerBridge.Library.Marked
import ControllerBridge.Library.Extended
import ControllerBridge.Library.Utf8
import ControllerBridge.Library.Machine
import ControllerBridge.Library.Smoothing
import ControllerBridge.Library.Settling
import ControllerBridge.Library.Window
import ControllerBridge.Library.Rounding
import ControllerBridge.Library.Retraction
import ControllerBridge.Library.AppendStream
import ControllerBridge.Library.Script
import ControllerBridge.Platform
import ControllerBridge.FrameBridge
import ControllerBridge.FrameText
import ControllerBridge.Timing
import ControllerBridge.ClockOffset
import ControllerBridge.ControllerPipeline
import ControllerBridge.MotorInference
import ControllerBridge.MotorFilter
import ControllerBridge.BridgeServer
import ControllerBridge.ForwardText
import ControllerBridge.ControllerReceiver
import ControllerBridge.System
import ControllerBridge.Exact
import ControllerBridge.MotorRange
import ControllerBridge.Reassembly
import ControllerBridge.Messages
import ControllerBridge.Capacity
import ControllerBridge.ReadBack
import ControllerBridge.PayloadEncoding
import ControllerBridge.JsonPayload
import ControllerBridge.MarkedPayload
import ControllerBridge.UntimedFrames
import ControllerBridge.FailOpen
import ControllerBridge.Isolation
import ControllerBridge.IcuDelivery
import ControllerBridge.ClockWindow
import ControllerBridge.HistoryWindow
import ControllerBridge.StatReports
import ControllerBridge.StampedObjects
import ControllerBridge.AppendedFields
import ControllerBridge.FiniteValues
import ControllerBridge.ExtremeValues
import ControllerBridge.InBounds
import ControllerBridge.NumericExtraction
import ControllerBridge.Quantization
import ControllerBridge.Relay
import ControllerBridge.ClientAgreement
import ControllerBridge.TimingLog
import ControllerBridge.FieldLookup
import ControllerBridge.RealArithmetic
import ControllerBridge.MotorSettling
import ControllerBridge.Deflection
import ControllerBridge.InferenceInput
import ControllerBridge.Startup
import ControllerBridge.Lifecycle
import ControllerBridge.RunStatistics
import ControllerBridge.PublishedObject
import ControllerBridge.MotorMoves
