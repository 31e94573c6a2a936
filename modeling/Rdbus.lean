import Rdbus.Foundation.Outcome
import Rdbus.Foundation.Runs
import Rdbus.Foundation.Simulation
import Rdbus.Foundation.WorkerPool
import Rdbus.Foundation.Throttle
import Rdbus.Foundation.DoWhile
import Rdbus.Foundation.Ieee
import Rdbus.Foundation.BytePlaces
import Rdbus.Foundation.Delimited
import Rdbus.Foundation.MinMax
import Rdbus.Foundation.BinarySearch
import Rdbus.Foundation.ListSort
import Rdbus.Foundation.Spans
import Rdbus.Foundation.Logs
import Rdbus.Foundation.SignedArithmetic
import Rdbus.Foundation.BitEdits
import Rdbus.Foundation.Json
import Rdbus.Foundation.Widening
import Rdbus.Exception
import Rdbus.Conversions
import Rdbus.Numbers
import Rdbus.Data
import Rdbus.Variant
import Rdbus.Config.Utility
import Rdbus.Config.Modbus
import Rdbus.Config.ModbusValidation
import Rdbus.Config.Nmea
import Rdbus.Config.Wago
import Rdbus.Config.WagoOffsets
import Rdbus.Config.WagoResolution
import Rdbus.Config.Config
import Rdbus.Config.Acceptance
import Rdbus.Config.ModbusAcceptance
import Rdbus.Config.WagoAcceptance
import Rdbus.Config.FileAcceptance
import Rdbus.Communication.Connection
import Rdbus.Communication.Termios
import Rdbus.Communication.Modbus.Interpreter
import Rdbus.Communication.Modbus.Decoding
import Rdbus.Communication.Modbus.DataOrder
import Rdbus.Communication.Modbus.ByteOrders
import Rdbus.Communication.Modbus.ReplyLength
import Rdbus.Communication.Modbus.RequestPlanner
import Rdbus.Communication.Modbus.PlanGroups
import Rdbus.Communication.Modbus.RequestSize
import Rdbus.Communication.Modbus.PlanIterators
import Rdbus.Communication.Modbus.Communicator
import Rdbus.Communication.Modbus.MergedReads
import Rdbus.Communication.Modbus.Adapter
import Rdbus.Communication.Modbus.WireFields
import Rdbus.Communication.Modbus.SerialLine
import Rdbus.Communication.Modbus.Attribution
import Rdbus.Communication.Nmea.Response
import Rdbus.Communication.Nmea.Parsing
import Rdbus.Communication.Nmea.Checksum
import Rdbus.Communication.Nmea.Encoding
import Rdbus.Communication.Nmea.Interpreter
import Rdbus.Communication.Nmea.Communicator
import Rdbus.Communication.Nmea.Isolation
import Rdbus.Communication.Nmea.Streaming
import Rdbus.Communication.Nmea.Bounds
import Rdbus.Communication.Nmea.Numerals
import Rdbus.Communication.Nmea.Gaps
import Rdbus.Communication.Wago.Communicator
import Rdbus.Communication.Wago.Scaling
import Rdbus.Communication.Wago.IntArithmetic
import Rdbus.Processing.Limits
import Rdbus.Processing.LimitsWindow
import Rdbus.Processing.LimitsHistory
import Rdbus.Processing.NotANumber
import Rdbus.Out.Buffer
import Rdbus.Out.BufferHistory
import Rdbus.Out.Http
import Rdbus.Out.Sessions
import Rdbus.Out.Cookies
import Rdbus.Out.Expiry
import Rdbus.Out.Delivery
import Rdbus.Out.Requests
import Rdbus.Out.Output
import Rdbus.Out.FormattedTime
import Rdbus.Out.Documents
import Rdbus.Manager
import Rdbus.WholeReadings
import Rdbus.Transport
import Rdbus.Measurements
import Rdbus.Points
import Rdbus.Sentences
import Rdbus.SharedLimits
import Rdbus.Initialize
import Rdbus.Program
import Rdbus.Startup
import Rdbus.Shutdown
import Rdbus.Independence
import Rdbus.Survival
import Rdbus.Service
import Rdbus.LimitsPage
import Rdbus.Provenance
import Rdbus.Schedule
