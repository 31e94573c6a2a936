import Rdbus.Config.Config
import Rdbus.Config.ModbusAcceptance
import Rdbus.Config.WagoAcceptance

/-!
# Accepted files

The configurations that files can have are exactly the valid ones: one port and
the section of one protocol, with nothing in it that a check looks for.
-/

namespace Rdbus.Config

open Foundation

structure Serial.Valid (serial : Serial) : Prop where
  absolute : serial.path.head? = some 47
  stopBits : serial.stopBitsCount = 1 ∨ serial.stopBitsCount = 2

def Serial.Parity.toText : Serial.Parity → Bytes
  | .none => str "none"
  | .even => str "even"
  | .odd => str "odd"

def Serial.toJson (serial : Serial) : SerialJson where
  path := some serial.path
  baudRate := some serial.baudRate
  stopBitsCount := some serial.stopBitsCount
  parity := some serial.parity.toText
  responseTimeoutMs := some serial.responseTimeout
  lineTimeoutMs := some serial.lineTimeout

theorem parseParity_toText (parity : Serial.Parity) : parseParity parity.toText = .ok parity := by
  cases parity <;> rfl

theorem Serial.valid_of_fromJson {j : SerialJson} {serial : Serial}
    (h : Serial.fromJson j = .ok serial) : serial.Valid := by
  simp only [Serial.fromJson, bind_eq_ok, passes_iff, decide_eq_false_iff_not] at h
  obtain ⟨path, -, baudRate, -, stopBits, -, parity, -, response, -, line, -, _, hpath, _, hmany,
    _, hfew, _, -, h⟩ := h
  cases h
  refine ⟨not_not.mp hpath, ?_⟩
  dsimp only
  omega

theorem Serial.fromJson_toJson {serial : Serial} (h : serial.Valid) :
    Serial.fromJson serial.toJson = .ok serial := by
  obtain ⟨path, baudRate, stopBits, response, line, parity⟩ := serial
  have hpath : throwIf (path.head? ≠ some 47)
      (str "Absolute path is required for 'path' in 'serial' section!") = .ok () :=
    passes_iff.mpr (decide_eq_false (not_not.mpr h.absolute))
  have hstop := h.stopBits
  have hmany : throwIf (stopBits > 2) (str "There cannot be more than 2 stop bits!") = .ok () :=
    passes_iff.mpr (decide_eq_false (by dsimp only at hstop; omega))
  have hfew : throwIf (stopBits < 1) (str "There cannot be less than 1 stop bit!") = .ok () :=
    passes_iff.mpr (decide_eq_false (by dsimp only at hstop; omega))
  simp only [Serial.fromJson, Serial.toJson, required, ok_bind, hpath, hmany, hfew,
    parseParity_toText]

def Address.Valid (address : Address) : Prop := address.ip ≠ []

def Address.toJson (address : Address) : AddressJson where
  port := some address.port
  ip := some address.ip

theorem Address.valid_of_fromJson {j : AddressJson} {address : Address}
    (h : Address.fromJson j = .ok address) : address.Valid := by
  simp only [Address.fromJson, bind_eq_ok, passes_iff] at h
  obtain ⟨port, -, ip, -, _, hip, h⟩ := h
  cases h
  exact List.isEmpty_eq_false_iff.mp hip

theorem Address.fromJson_toJson {address : Address} (h : address.Valid) :
    Address.fromJson address.toJson = .ok address := by
  have hip : throwIf address.ip.isEmpty (str "No 'ip' field!") = .ok () :=
    passes_iff.mpr (List.isEmpty_eq_false_iff.mpr h)
  simp only [Address.fromJson, Address.toJson, required, ok_bind, hip]

/-! ## NMEA talkers -/

namespace Nmea

def typeText : DataType → Bytes
  | .double => str "FLOAT"
  | .uint64 => str "UINT"
  | .int64 => str "INT"
  | _ => str "STRING"

def Field.toJson (field : Field) : FieldJson where
  name := some field.name
  dataType := some (typeText field.type)

def Sentence.toJson (sentence : Sentence) : SentenceJson where
  id := some sentence.id
  fields := some (sentence.fields.map Field.toJson)

def Field.Valid (field : Field) : Prop :=
  field.type ∈ [DataType.double, .uint64, .int64, .string]

structure Sentence.Valid (sentence : Sentence) : Prop where
  each : ∀ field ∈ sentence.fields, field.Valid
  nonempty : sentence.fields ≠ []

structure Valid (nmea : NMEA) : Prop where
  each : ∀ sentence ∈ nmea.sentences, sentence.Valid
  ids : nmea.sentences.Pairwise fun a b => a.id ≠ b.id

theorem Field.valid_of_fromJson {j : FieldJson} {field : Field}
    (h : Field.fromJson j = .ok field) : field.Valid := by
  obtain ⟨name, -, h⟩ := bind_eq_ok.mp h
  obtain ⟨text, -, h⟩ := bind_eq_ok.mp h
  obtain ⟨type, htype, h⟩ := bind_eq_ok.mp h
  cases h
  have hall : ∀ entry ∈ typeMap, entry.2 ∈ [DataType.double, .uint64, .int64, .string] := by
    simp [typeMap]
  rw [getStandardType] at htype
  cases hentry : typeMap.lookup text with
  | none => simp [hentry] at htype
  | some entry =>
      simp only [hentry, Except.ok.injEq] at htype
      subst htype
      obtain ⟨before, after, hsplit, -⟩ := List.lookup_eq_some_iff.mp hentry
      exact hall (text, entry) (by simp [hsplit])

theorem Field.fromJson_toJson {field : Field} (h : field.Valid) :
    Field.fromJson field.toJson = .ok field := by
  have htype : getStandardType (typeText field.type) = .ok field.type := by
    rw [Field.Valid] at h
    simp only [List.mem_cons, List.not_mem_nil, or_false] at h
    rcases h with h | h | h | h <;> rw [h] <;> rfl
  simp only [Field.fromJson, Field.toJson, required, ok_bind, htype]

theorem Sentence.valid_of_fromJson {j : SentenceJson} {sentence : Sentence}
    (h : Sentence.fromJson j = .ok sentence) : sentence.Valid := by
  refine ⟨?_, Sentence.fromJson_nonempty h⟩
  obtain ⟨id, -, h⟩ := bind_eq_ok.mp h
  obtain ⟨given, -, h⟩ := bind_eq_ok.mp h
  obtain ⟨fields, hfields, h⟩ := bind_eq_ok.mp h
  obtain ⟨-, h⟩ := throwIf_bind_eq_ok.mp h
  cases h
  intro field hmem
  obtain ⟨_, -, hjson⟩ := mem_mapM_ok hfields hmem
  exact Field.valid_of_fromJson hjson

theorem Sentence.fromJson_toJson {sentence : Sentence} (h : sentence.Valid) :
    Sentence.fromJson sentence.toJson = .ok sentence := by
  have hfields : (sentence.fields.map Field.toJson).mapM Field.fromJson = .ok sentence.fields :=
    mapM_map_eq_ok fun field hmem => Field.fromJson_toJson (h.each field hmem)
  simp only [Sentence.fromJson, Sentence.toJson, required, ok_bind, hfields,
    throwIf_eq_ok.mpr (List.isEmpty_eq_false_iff.mpr h.nonempty)]

theorem valid_of_parseNMEA {j : NMEAJson} {nmea : NMEA} {processors : Processors}
    (h : parseNMEA j = .ok (nmea, processors)) : Valid nmea ∧ processors = {} := by
  have hnone := (parseNMEA_ok h).2
  obtain ⟨limits⟩ := processors
  refine ⟨?_, congrArg Processors.mk hnone⟩
  unfold parseNMEA at h
  obtain ⟨name, -, h⟩ := bind_eq_ok.mp h
  obtain ⟨checksum, -, h⟩ := bind_eq_ok.mp h
  obtain ⟨given, -, h⟩ := bind_eq_ok.mp h
  obtain ⟨sentences, hsentences, h⟩ := bind_eq_ok.mp h
  obtain ⟨_, hids, h⟩ := bind_eq_ok.mp h
  have hstored : sentences = nmea.sentences := by
    split at h
    case h_1 =>
      cases h
      rfl
    case h_2 =>
      obtain ⟨_, -, h⟩ := bind_eq_ok.mp h
      obtain ⟨-, h⟩ := throwIf_bind_eq_ok.mp h
      cases h
      rfl
  rw [hstored] at hsentences hids
  refine ⟨fun sentence hmem => ?_, hasDuplicate_passes.mp hids⟩
  obtain ⟨_, -, hjson⟩ := mem_mapM_ok hsentences hmem
  exact Sentence.valid_of_fromJson hjson

theorem parseNMEA_toJson {nmea : NMEA} (h : Valid nmea) :
    parseNMEA { name := some nmea.name, checksum := some nmea.withChecksum,
                sentences := some (nmea.sentences.map Sentence.toJson),
                dataProcessors := Processors.toJson {} } = .ok (nmea, {}) := by
  have hsentences : (nmea.sentences.map Sentence.toJson).mapM Sentence.fromJson =
      .ok nmea.sentences :=
    mapM_map_eq_ok fun sentence hmem => Sentence.fromJson_toJson (h.each sentence hmem)
  have hids : checkDuplicateSentenceIDs nmea.sentences = .ok () := hasDuplicate_passes.mpr h.ids
  simp only [parseNMEA, required, ok_bind, hsentences, hids]
  rfl

end Nmea

/-! ## Files -/

inductive Section (config : Config) : Prop where
  | serial (serial : Serial) (hserial : config.serial = some serial) (hvalid : serial.Valid)
      (haddress : config.address = none)
  | address (address : Address) (haddress : config.address = some address)
      (hvalid : address.Valid) (hserial : config.serial = none)

inductive Content (config : Config) : Prop where
  | modbus (hprotocol : config.protocol = str "modbus")
      (hvalid : Modbus.Valid config.modbus config.processors)
      (hnmea : config.nmea = { sentences := [], name := [] }) (hwago : config.wago = [])
  | nmea (hprotocol : config.protocol = str "nmea") (hvalid : Nmea.Valid config.nmea)
      (hprocessors : config.processors = {}) (hmodbus : config.modbus = [])
      (hwago : config.wago = [])
  | wago (hprotocol : config.protocol = str "wago")
      (hvalid : Wago.Valid config.wago config.processors) (hmodbus : config.modbus = [])
      (hnmea : config.nmea = { sentences := [], name := [] })

structure Valid (config : Config) : Prop where
  port : Section config
  content : Content config

/-- The keys of the other protocols are there too, and are not looked at. -/
def toJson (config : Config) : ConfigJson where
  protocol := some config.protocol
  serial := config.serial.map Serial.toJson
  address := config.address.map Address.toJson
  slaves := some (config.modbus.map Modbus.Slave.toJson)
  name := some config.nmea.name
  checksum := some config.nmea.withChecksum
  sentences := some (config.nmea.sentences.map Nmea.Sentence.toJson)
  modules := some ((Wago.unresolved config.wago).map Wago.Module.toJson)
  dataProcessors := config.processors.toJson

theorem valid_of_fromJson {j : ConfigJson} {config : Config} (h : fromJson j = .ok config)
    (haddress : Modbus.Addressable config.modbus) : config.Valid := by
  unfold fromJson at h
  obtain ⟨hboth, h⟩ := throwIf_bind_eq_ok.mp h
  obtain ⟨hneither, h⟩ := throwIf_bind_eq_ok.mp h
  obtain ⟨protocol, -, h⟩ := bind_eq_ok.mp h
  obtain ⟨serial, hserial, h⟩ := bind_eq_ok.mp h
  obtain ⟨address, hip, h⟩ := bind_eq_ok.mp h
  have hport : ∀ config : Config, config.serial = serial → config.address = address →
      Section config := by
    rintro config rfl rfl
    cases hj : j.serial with
    | none =>
        cases hj' : j.address with
        | none => simp [hj, hj'] at hneither
        | some given =>
            rw [hj] at hserial
            rw [hj', Option.mapM_some] at hip
            obtain ⟨address, hgiven, hip⟩ := bind_eq_ok.mp hip
            exact .address address (Except.ok.inj hip).symm (Address.valid_of_fromJson hgiven)
              (Except.ok.inj hserial).symm
    | some given =>
        cases hj' : j.address with
        | some _ => simp [hj, hj'] at hboth
        | none =>
            rw [hj, Option.mapM_some] at hserial
            rw [hj'] at hip
            obtain ⟨serial, hgiven, hserial⟩ := bind_eq_ok.mp hserial
            exact .serial serial (Except.ok.inj hserial).symm (Serial.valid_of_fromJson hgiven)
              (Except.ok.inj hip).symm
  split at h
  case isTrue hprotocol =>
    obtain ⟨⟨modbus, processors⟩, hparse, h⟩ := bind_eq_ok.mp h
    cases h
    exact ⟨hport _ rfl rfl,
      .modbus hprotocol (Modbus.valid_of_parseModbus hparse haddress) rfl rfl⟩
  case isFalse =>
    split at h
    case isTrue hprotocol =>
      obtain ⟨⟨nmea, processors⟩, hparse, h⟩ := bind_eq_ok.mp h
      cases h
      obtain ⟨hvalid, hprocessors⟩ := Nmea.valid_of_parseNMEA hparse
      exact ⟨hport _ rfl rfl, .nmea hprotocol hvalid hprocessors rfl rfl⟩
    case isFalse =>
      split at h
      case isTrue hprotocol =>
        obtain ⟨⟨wago, processors⟩, hparse, h⟩ := bind_eq_ok.mp h
        cases h
        exact ⟨hport _ rfl rfl, .wago hprotocol (Wago.valid_of_parseWago hparse) rfl rfl⟩
      case isFalse => cases h

theorem Section.reads {config : Config} (h : Section config) :
    ¬ (config.toJson.serial.isSome ∧ config.toJson.address.isSome) ∧
    ¬ (config.toJson.serial.isNone ∧ config.toJson.address.isNone) ∧
    config.toJson.serial.mapM Serial.fromJson = .ok config.serial ∧
    config.toJson.address.mapM Address.fromJson = .ok config.address := by
  cases h with
  | serial serial hserial hvalid haddress =>
      simp [toJson, hserial, haddress, Serial.fromJson_toJson hvalid]
      rfl
  | address address haddress hvalid hserial =>
      simp [toJson, hserial, haddress, Address.fromJson_toJson hvalid]
      rfl

theorem fromJson_toJson {config : Config} (h : config.Valid)
    (haddress : Modbus.Addressable config.modbus) : fromJson config.toJson = .ok config := by
  obtain ⟨hboth, hneither, hserial, hip⟩ := h.port.reads
  obtain ⟨protocol, modbus, nmea, wago, processors, serial, address⟩ := config
  unfold fromJson
  refine throwIf_bind_eq_ok.mpr ⟨decide_eq_false hboth, ?_⟩
  refine throwIf_bind_eq_ok.mpr ⟨decide_eq_false hneither, ?_⟩
  rw [hserial, hip]
  cases h.content with
  | modbus hprotocol hvalid hnmea hwago =>
      dsimp only at hprotocol hvalid hnmea hwago
      subst hprotocol hnmea hwago
      simp only [toJson, required, ok_bind, if_true, Modbus.parseModbus_toJson hvalid haddress]
  | nmea hprotocol hvalid hprocessors hmodbus hwago =>
      dsimp only at hprotocol hvalid hprocessors hmodbus hwago
      subst hprotocol hprocessors hmodbus hwago
      have hmodbus : str "nmea" ≠ str "modbus" := by decide
      simp only [toJson, required, ok_bind, if_neg hmodbus, if_true,
        Nmea.parseNMEA_toJson hvalid]
  | wago hprotocol hvalid hmodbus hnmea =>
      dsimp only at hprotocol hvalid hmodbus hnmea
      subst hprotocol hmodbus hnmea
      have hmodbus : str "wago" ≠ str "modbus" := by decide
      have hnmea : str "wago" ≠ str "nmea" := by decide
      simp only [toJson, required, ok_bind, if_neg hmodbus, if_neg hnmea, if_true,
        Wago.parseWago_toJson hvalid]

/--
The configurations a file can have are the valid ones, and each of them can be
written back: what is read from the file it is written to is itself.
-/
theorem accepted_iff_valid {config : Config} (haddress : Modbus.Addressable config.modbus) :
    ((∃ j, fromJson j = .ok config) ↔ config.Valid) ∧
      (config.Valid ↔ fromJson config.toJson = .ok config) := by
  have hread : (∃ j, fromJson j = .ok config) → config.Valid := by
    rintro ⟨j, h⟩
    exact valid_of_fromJson h haddress
  have hwritten := fun h : config.Valid => fromJson_toJson h haddress
  exact ⟨⟨hread, fun h => ⟨_, hwritten h⟩⟩, hwritten, fun h => hread ⟨_, h⟩⟩

def thrusterSlave : Modbus.Slave where
  name := str "Bow thruster"
  id := 1
  pollTimeMs := 1000
  inputRegisters := []
  outputRegisters := [⟨str "Power", 10, [1, 3, 0, 2], .float⟩, ⟨str "Fault", 12, [0, 1], .uint16⟩]

/-- No standard type has the data order `BDAC`. -/
def thruster : Config where
  protocol := str "modbus"
  modbus := [thrusterSlave]
  processors := ⟨some ⟨10, [str "Bow thruster"]⟩⟩
  serial := some ⟨str "/dev/ttyS0", 9600, 2, 1000, 100, .even⟩

theorem thrusterSlave_valid : thrusterSlave.Valid where
  shaped register hmem := by
    simp only [thrusterSlave, List.nil_append, List.mem_cons, List.not_mem_nil, or_false] at hmem
    rcases hmem with rfl | rfl <;> exact ⟨by decide, by decide, by decide⟩
  nonempty := by decide
  inputsApart := List.Pairwise.nil
  outputsApart := by
    simp only [thrusterSlave, List.pairwise_cons, List.mem_singleton, forall_eq,
      List.not_mem_nil, false_implies, implies_true, List.Pairwise.nil, and_true]
    exact (Modbus.not_intersect_iff (by decide) (by decide)).mpr (by decide)
  names := by decide

theorem thruster_valid : thruster.Valid where
  port := .serial _ rfl ⟨rfl, .inr rfl⟩ rfl
  content := .modbus rfl
    { nonempty := by decide
      each := fun slave hmem => List.mem_singleton.mp hmem ▸ thrusterSlave_valid
      ids := List.pairwise_singleton _ _
      names := List.pairwise_singleton _ _
      processors := ⟨by rintro _ ⟨⟩; decide, by rintro _ ⟨⟩ h; cases h⟩ } rfl rfl

theorem accepted_iff_valid_thruster : ∃ j, fromJson j = .ok thruster :=
  (accepted_iff_valid (by
    intro slave hmem register hregister
    simp only [thruster, List.mem_singleton] at hmem
    subst hmem
    simp only [thrusterSlave, List.nil_append, List.mem_cons, List.not_mem_nil,
      or_false] at hregister
    rcases hregister with rfl | rfl <;> decide)).1.mpr thruster_valid

end Rdbus.Config
