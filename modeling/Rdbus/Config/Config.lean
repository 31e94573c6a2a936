import Rdbus.Config.ModbusValidation
import Rdbus.Config.Nmea
import Rdbus.Config.Wago

/-!
# One configuration file

`from_json` of a whole file: a serial port or an address, and the section of
one protocol.
-/

namespace Rdbus

open Foundation

namespace Config

inductive Serial.Parity where
  | none
  | even
  | odd
  deriving DecidableEq, Repr

structure Serial where
  path : Bytes
  baudRate : Int
  stopBitsCount : Int
  responseTimeout : Int
  lineTimeout : Int
  parity : Serial.Parity
  deriving DecidableEq, Repr

structure Address where
  ip : Bytes
  port : Int
  deriving DecidableEq, Repr

end Config

/-- Only one of `serial` and `address` is present, and only one protocol is filled in. -/
structure Config where
  protocol : Bytes
  modbus : List Config.Modbus.Slave := []
  nmea : Config.NMEA := { sentences := [], name := [] }
  wago : List Config.Wago.Module := []
  processors : Config.Processors := {}
  serial : Option Config.Serial := none
  address : Option Config.Address := none
  deriving DecidableEq

namespace Config

structure SerialJson where
  path : Option Bytes := none
  baudRate : Option Int := none
  stopBitsCount : Option Int := none
  parity : Option Bytes := none
  responseTimeoutMs : Option Int := none
  lineTimeoutMs : Option Int := none

structure AddressJson where
  port : Option Int := none
  ip : Option Bytes := none

structure ConfigJson where
  protocol : Option Bytes := none
  serial : Option SerialJson := none
  address : Option AddressJson := none
  slaves : Option (List Modbus.SlaveJson) := none
  name : Option Bytes := none
  checksum : Option Bool := none
  sentences : Option (List Nmea.SentenceJson) := none
  modules : Option (List Wago.ModuleJson) := none
  dataProcessors : Option ProcessorsJson := none

def parseParity (parity : Bytes) : Except Throw Serial.Parity :=
  if parity = str "none" then .ok .none
  else if parity = str "even" then .ok .even
  else if parity = str "odd" then .ok .odd
  else .error (parseException (str "Unknown parity '" ++ parity ++ str "'!"))

def Serial.fromJson (j : SerialJson) : Except Throw Serial := do
  let path ← required j.path
    (str "No serial device 'path' field present in 'serial' section!")
  let baudRate ← required j.baudRate
    (str "No 'baud_rate' field present in 'serial' section!")
  let stopBitsCount ← required j.stopBitsCount
    (str "No 'stop_bits_count' field present in 'serial' section!")
  let parity ← required j.parity (str "No 'parity' field present in 'serial' section!")
  let responseTimeout ← required j.responseTimeoutMs
    (str "No 'response_timeout_ms' field present in 'serial' section!")
  let lineTimeout ← required j.lineTimeoutMs
    (str "No 'line_timeout_ms' field present in 'serial' section!")
  throwIf (path.head? ≠ some 47)
    (str "Absolute path is required for 'path' in 'serial' section!")
  throwIf (stopBitsCount > 2) (str "There cannot be more than 2 stop bits!")
  throwIf (stopBitsCount < 1) (str "There cannot be less than 1 stop bit!")
  let parity ← parseParity parity
  .ok ⟨path, baudRate, stopBitsCount, responseTimeout, lineTimeout, parity⟩

def Address.fromJson (j : AddressJson) : Except Throw Address := do
  let port ← required j.port (str "No 'port' address present!")
  let ip ← required j.ip (str "No 'ip' address present!")
  throwIf ip.isEmpty (str "No 'ip' field!")
  .ok ⟨ip, port⟩

/-- The protocol's own keys are read after `serial` and `address`. -/
def fromJson (j : ConfigJson) : Except Throw Config := do
  throwIf (j.serial.isSome ∧ j.address.isSome)
    (str "Sections 'serial' and 'address' are mutually exclusive!")
  throwIf (j.serial.isNone ∧ j.address.isNone)
    (str "No 'serial' or 'address' sections present!")
  let protocol ← required j.protocol (str "No 'protocol' name present!")
  let serial ← j.serial.mapM Serial.fromJson
  let address ← j.address.mapM Address.fromJson
  if protocol = str "modbus" then do
    let (modbus, processors) ←
      Modbus.parseModbus { slaves := j.slaves, dataProcessors := j.dataProcessors }
    .ok { protocol, modbus, processors, serial, address }
  else if protocol = str "nmea" then do
    let (nmea, processors) ← Nmea.parseNMEA { name := j.name, checksum := j.checksum,
                                              sentences := j.sentences,
                                              dataProcessors := j.dataProcessors }
    .ok { protocol, nmea, processors, serial, address }
  else if protocol = str "wago" then do
    let (wago, processors) ←
      Wago.parseWago { modules := j.modules, dataProcessors := j.dataProcessors }
    .ok { protocol, wago, processors, serial, address }
  else .error (parseException (str "Unsupported protocol " ++ protocol ++ str "!"))

/-- An accepted configuration has what the parser of its protocol stored, and no more. -/
theorem fromJson_ok {j : ConfigJson} {config : Config} (h : fromJson j = .ok config) :
    (config.protocol = str "modbus" ∧ config.wago = [] ∧
      Modbus.parseModbus { slaves := j.slaves, dataProcessors := j.dataProcessors } =
        .ok (config.modbus, config.processors)) ∨
    (config.protocol = str "nmea" ∧ config.modbus = [] ∧ config.wago = [] ∧
      Nmea.parseNMEA { name := j.name, checksum := j.checksum, sentences := j.sentences,
                       dataProcessors := j.dataProcessors } =
        .ok (config.nmea, config.processors)) ∨
    (config.protocol = str "wago" ∧ config.modbus = [] ∧
      Wago.parseWago { modules := j.modules, dataProcessors := j.dataProcessors } =
        .ok (config.wago, config.processors)) := by
  unfold fromJson at h
  obtain ⟨-, h⟩ := throwIf_bind_eq_ok.mp h
  obtain ⟨-, h⟩ := throwIf_bind_eq_ok.mp h
  obtain ⟨protocol, -, h⟩ := bind_eq_ok.mp h
  obtain ⟨serial, -, h⟩ := bind_eq_ok.mp h
  obtain ⟨address, -, h⟩ := bind_eq_ok.mp h
  split at h
  case isTrue hprotocol =>
    obtain ⟨⟨modbus, processors⟩, hparse, h⟩ := bind_eq_ok.mp h
    cases h
    exact .inl ⟨hprotocol, rfl, hparse⟩
  case isFalse =>
    split at h
    case isTrue hprotocol =>
      obtain ⟨⟨nmea, processors⟩, hparse, h⟩ := bind_eq_ok.mp h
      cases h
      exact .inr (.inl ⟨hprotocol, rfl, rfl, hparse⟩)
    case isFalse =>
      split at h
      case isTrue hprotocol =>
        obtain ⟨⟨wago, processors⟩, hparse, h⟩ := bind_eq_ok.mp h
        cases h
        exact .inr (.inr ⟨hprotocol, rfl, hparse⟩)
      case isFalse => cases h

theorem protocol_of_slave {j : ConfigJson} {config : Config} (h : fromJson j = .ok config)
    {slave : Modbus.Slave} (hmem : slave ∈ config.modbus) : config.protocol = str "modbus" := by
  obtain ⟨hprotocol, -⟩ | ⟨-, hnone, -⟩ | ⟨-, hnone, -⟩ := fromJson_ok h
  · exact hprotocol
  · simp [hnone] at hmem
  · simp [hnone] at hmem

theorem protocol_of_module {j : ConfigJson} {config : Config} (h : fromJson j = .ok config)
    {module : Wago.Module} (hmem : module ∈ config.wago) : config.protocol = str "wago" := by
  obtain ⟨-, hnone, -⟩ | ⟨-, -, hnone, -⟩ | ⟨hprotocol, -⟩ := fromJson_ok h
  · simp [hnone] at hmem
  · simp [hnone] at hmem
  · exact hprotocol

end Config

end Rdbus
