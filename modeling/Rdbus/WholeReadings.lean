import Rdbus.Communication.Modbus.PlanGroups
import Rdbus.Communication.Modbus.ReplyLength
import Rdbus.Communication.Nmea.Isolation
import Rdbus.Config.WagoOffsets
import Rdbus.Foundation.Runs
import Rdbus.Manager

/-!
# Whole readings

A communicator that fails in the middle of a poll drops what it has got so far.
A reading is then an error without fields, or it has all the fields of its
device, unless the poll leaves defined behaviour: a letter of a `data_order`
that names no byte of its register, registers that are read together and have
more words than a request can ask for, or an instance id that leaves `int`.
-/

namespace Rdbus

open Foundation
open Communication

/-- An error without fields, or no error and the fields with these names. -/
structure Whole (names : List Bytes) (data : Data) : Prop where
  error_iff : data.error.isSome ↔ data.fields = []
  names : data.error = none → data.fields.map Data.Field.name = names

theorem whole_of_error {names : List Bytes} {data : Data} (herror : data.error.isSome)
    (hfields : data.fields = []) : Whole names data :=
  ⟨iff_of_true herror hfields, fun hnone => by simp [hnone] at herror⟩

theorem whole_of_fields {names : List Bytes} {data : Data} (hne : names ≠ [])
    (herror : data.error = none) (hnames : data.fields.map Data.Field.name = names) :
    Whole names data := by
  refine ⟨iff_of_false (by simp [herror]) ?_, fun _ => hnames⟩
  intro hnil
  rw [hnil] at hnames
  exact hne hnames.symm

def Valued (fields : List Data.Field) : Prop := ∀ field ∈ fields, field.value.isSome

theorem valued_nil : Valued [] := by
  simp [Valued]

theorem Valued.append {first second : List Data.Field} (hfirst : Valued first)
    (hsecond : Valued second) : Valued (first ++ second) :=
  fun field hmem => (List.mem_append.mp hmem).elim (hfirst field) (hsecond field)

/-! ## Modbus -/

namespace Communication.Modbus

open Config.Modbus

/-- The exceptions a transaction can end in. -/
inductive Reported : Throw → Prop where
  | modbus (what : Bytes) : Reported (.modbus what)
  | os (what : Bytes) : Reported (.os what)
  | timeout (what : Bytes) : Reported (.timeout what)

/-- Every transaction ends in an exception or in as many words as were asked for. -/
def Answers (send : Nat → ModbusRequest → Except Throw ModbusResponse) : Prop :=
  ∀ k request,
    (∃ response, send k request = .ok response ∧
      response.registerValues.length = request.registersNumber.toNat) ∨
    ∃ e, send k request = .error e ∧ Reported e

/-- The names of the fields of a reading, in the order of the plan. -/
def fieldNames (slave : Slave) : List Bytes :=
  (sortByKey Register.address slave.outputRegisters ++
    sortByKey Register.address slave.inputRegisters).map Register.name

/-- No request of the slave asks for more words than its count can hold. -/
def Countable (slave : Slave) : Prop :=
  CountsFit slave.outputRegisters ∧ CountsFit slave.inputRegisters

theorem requestPlan_counted (pastEnd : Int) (slave : Slave) :
    ∃ plan, requestPlan (.ok pastEnd) slave = .ok plan ∧
      (plan.flatMap RequestDescription.registers).map Register.name = fieldNames slave ∧
      (∀ register, register ∈ plan.flatMap RequestDescription.registers ↔
        register ∈ slave.outputRegisters ∨ register ∈ slave.inputRegisters) ∧
      (∀ description ∈ plan, description.request.registersNumber =
        UInt16.ofNat (sizes description.registers).sum) ∧
      (Countable slave ↔
        ∀ description ∈ plan, (sizes description.registers).sum ≤ 65535) := by
  obtain ⟨outputs, inputs, hplan, houtputs, hinputs⟩ := requestPlan_collected pastEnd slave
  refine ⟨outputs ++ inputs, hplan, ?_, fun register => ?_, ?_, ?_⟩
  · rw [List.flatMap_append, houtputs.inOrder, hinputs.inOrder, fieldNames]
  · rw [List.flatMap_append, houtputs.inOrder, hinputs.inOrder, List.mem_append,
      mem_sortByKey, mem_sortByKey]
  · exact List.forall_mem_append.mpr
      ⟨fun description hmem => (houtputs.formed description hmem).count,
        fun description hmem => (hinputs.formed description hmem).count⟩
  · rw [Countable, houtputs.countsFit_iff, hinputs.countsFit_iff, List.forall_mem_append]
    rfl

theorem names_decodedFields (registers : List Register) (words : List UInt16)
    (timestamp : Timestamp) :
    (decodedFields registers words timestamp).map Data.Field.name =
      registers.map Register.name := by
  unfold decodedFields pieces
  rw [List.map_map]
  change (_ : List (List UInt16 × Register)).map (Register.name ∘ Prod.snd) = _
  rw [← List.map_map, List.map_snd_zip (by simp [sizes])]

theorem valued_decodedFields (registers : List Register) (words : List UInt16)
    (timestamp : Timestamp) : Valued (decodedFields registers words timestamp) := by
  intro field hmem
  obtain ⟨piece, -, rfl⟩ := List.mem_map.mp hmem
  rfl

theorem collect_whole {send : Nat → ModbusRequest → Except Throw ModbusResponse}
    (hsend : Answers send) (now : Nat → Timestamp) {plan : List RequestDescription}
    (hcounted : ∀ description ∈ plan, description.request.registersNumber.toNat =
      (sizes description.registers).sum)
    (husable : ∀ register ∈ plan.flatMap RequestDescription.registers, Usable register)
    (k : Nat) {fields : List Data.Field} (hvalued : Valued fields) :
    (∃ collected, collect send now k fields plan = .ok collected ∧ Valued collected ∧
      collected.map Data.Field.name = fields.map Data.Field.name ++
        (plan.flatMap RequestDescription.registers).map Register.name) ∨
    ∃ e, collect send now k fields plan = .error e ∧ Reported e := by
  induction plan generalizing k fields with
  | nil => exact .inl ⟨fields, rfl, hvalued, by simp⟩
  | cons description plan ih =>
      obtain ⟨response, hresponse, hlength⟩ | ⟨e, hresponse, hreported⟩ :=
        hsend k description.request
      · have hparse : parse response description.registers (now k) =
            .ok (decodedFields description.registers response.registerValues (now k)) := by
          refine parse_ok (fun register hmem => husable register ?_) ?_ (now k)
          · rw [List.flatMap_cons]
            exact List.mem_append_left _ hmem
          · rw [hlength, hcounted description (by simp)]
        have hcollect : collect send now k fields (description :: plan) =
            collect send now (k + 1) (fields ++ decodedFields description.registers
              response.registerValues (now k)) plan := by
          rw [collect, hresponse, ok_bind, hparse, ok_bind]
        rw [hcollect, List.flatMap_cons, List.map_append]
        obtain ⟨collected, hok, hcollected, hnames⟩ | herror :=
          ih (fun other hmem => hcounted other (by simp [hmem]))
            (fun register hmem => husable register (by
              rw [List.flatMap_cons]
              exact List.mem_append_right _ hmem))
            (k + 1) (hvalued.append (valued_decodedFields description.registers
              response.registerValues (now k)))
        · refine .inl ⟨collected, hok, hcollected, ?_⟩
          rw [hnames, List.map_append, names_decodedFields, List.append_assoc]
        · exact .inr herror
      · refine .inr ⟨e, ?_, hreported⟩
        rw [collect, hresponse, error_bind]

/-- A failure at any request leaves none of the fields behind. -/
theorem request_whole {slave : Slave} (hnonempty : fieldNames slave ≠ [])
    (houtputs : ∀ register ∈ slave.outputRegisters, Usable register)
    (hinputs : ∀ register ∈ slave.inputRegisters, Usable register)
    (hcountable : Countable slave) (pastEnd : Int)
    {send : Nat → ModbusRequest → Except Throw ModbusResponse} (hsend : Answers send)
    (now : Nat → Timestamp) :
    ∃ data, request (.ok pastEnd) send now slave = .ok data ∧
      data.deviceName = slave.name ∧ Whole (fieldNames slave) data ∧ Valued data.fields := by
  obtain ⟨plan, hplan, hnames, hmem, hnarrowed, hcounts⟩ := requestPlan_counted pastEnd slave
  have husable : ∀ register ∈ plan.flatMap RequestDescription.registers, Usable register :=
    fun register hregister =>
      ((hmem register).mp hregister).elim (houtputs register) (hinputs register)
  have hcounted : ∀ description ∈ plan, description.request.registersNumber.toNat =
      (sizes description.registers).sum := by
    intro description hmem
    have hcount := hcounts.mp hcountable description hmem
    rw [hnarrowed description hmem, UInt16.toNat_ofNat', Nat.mod_eq_of_lt (by omega)]
  rw [request, hplan, ok_bind]
  obtain ⟨collected, hcollect, hvalued, hcollected⟩ | ⟨e, hcollect, hreported⟩ :=
    collect_whole hsend now hcounted husable 0 valued_nil
  · rw [hcollect]
    refine ⟨_, rfl, rfl, whole_of_fields hnonempty rfl ?_, hvalued⟩
    rw [hcollected, hnames]
    rfl
  · rw [hcollect]
    cases hreported <;> exact ⟨_, rfl, rfl, whole_of_error rfl rfl, valued_nil⟩

/-- A count that wraps around makes the reply too short, and a letter can lead behind it. -/
theorem collect_outside {send : Nat → ModbusRequest → Except Throw ModbusResponse}
    (hsend : ∀ k request, ∃ response, send k request = .ok response ∧
      response.registerValues.length = request.registersNumber.toNat)
    (now : Nat → Timestamp) {plan : List RequestDescription}
    (hnarrowed : ∀ description ∈ plan, description.request.registersNumber =
      UInt16.ofNat (sizes description.registers).sum)
    (hshaped : ∀ register ∈ plan.flatMap RequestDescription.registers, register.Shaped)
    (houtside : ¬ (LettersInside (plan.flatMap RequestDescription.registers) ∧
      ∀ description ∈ plan, (sizes description.registers).sum ≤ 65535))
    (k : Nat) (fields : List Data.Field) :
    collect send now k fields plan = .error .undefinedBehaviour := by
  induction plan generalizing k fields with
  | nil => simp [LettersInside] at houtside
  | cons description plan ih =>
      rw [List.flatMap_cons] at hshaped houtside
      have hown := fun register hmem => hshaped register (List.mem_append_left _ hmem)
      obtain ⟨response, hresponse, hlength⟩ := hsend k description.request
      rw [hnarrowed description (by simp), UInt16.toNat_ofNat'] at hlength
      rw [collect, hresponse, ok_bind]
      by_cases hcount : (sizes description.registers).sum ≤ 65535
      case neg => rw [parse_short (by omega), error_bind]
      case pos =>
        have hlong : (sizes description.registers).sum ≤ response.registerValues.length := by
          omega
        by_cases hinside : LettersInside description.registers
        · have husable : ∀ register ∈ description.registers, Usable register :=
            fun register hmem =>
              ⟨(hown register hmem).numeric, (hown register hmem).length_eq,
                hinside register hmem⟩
          rw [parse_ok husable hlong, ok_bind]
          refine ih (fun other hmem => hnarrowed other (by simp [hmem]))
            (fun register hmem => hshaped register (List.mem_append_right _ hmem)) ?_ _ _
          rintro ⟨hrest, hcounts⟩
          refine houtside ⟨fun register hmem => ?_, List.forall_mem_cons.mpr ⟨hcount, hcounts⟩⟩
          exact (List.mem_append.mp hmem).elim (hinside register) (hrest register)
        · simp only [LettersInside, not_forall, Nat.not_lt] at hinside
          obtain ⟨register, hmem, position, hposition, hge⟩ := hinside
          have heven := Shaped.even (hown register hmem)
          rw [parse_outside hlong ⟨register, hmem, position, hposition, by omega⟩, error_bind]

def OrdersInside (slave : Slave) : Prop :=
  LettersInside slave.outputRegisters ∧ LettersInside slave.inputRegisters

theorem request_outside {slave : Slave}
    (hshaped : ∀ register ∈ slave.inputRegisters ++ slave.outputRegisters, register.Shaped)
    (houtside : ¬ (OrdersInside slave ∧ Countable slave)) (pastEnd : Int)
    {send : Nat → ModbusRequest → Except Throw ModbusResponse}
    (hsend : ∀ k request, ∃ response, send k request = .ok response ∧
      response.registerValues.length = request.registersNumber.toNat) (now : Nat → Timestamp) :
    request (.ok pastEnd) send now slave = .error .undefinedBehaviour := by
  obtain ⟨plan, hplan, -, hmem, hnarrowed, hcounts⟩ := requestPlan_counted pastEnd slave
  have hall : ¬ (LettersInside (plan.flatMap RequestDescription.registers) ∧
      ∀ description ∈ plan, (sizes description.registers).sum ≤ 65535) := by
    rintro ⟨hinside, hcount⟩
    refine houtside ⟨⟨fun register hregister => ?_, fun register hregister => ?_⟩,
      hcounts.mpr hcount⟩
    · exact hinside register ((hmem register).mpr (.inl hregister))
    · exact hinside register ((hmem register).mpr (.inr hregister))
  rw [request, hplan, ok_bind, collect_outside hsend now hnarrowed ?_ hall]
  · rfl
  · intro register hregister
    rw [hmem, or_comm] at hregister
    exact hshaped register (List.mem_append.mpr hregister)

end Communication.Modbus

/-! ## NMEA -/

namespace Communication.Nmea

open Config
open Config.Nmea

def Delivers (getData : Except Throw Bytes) : Prop :=
  (∃ rawed, getData = .ok rawed) ∨
    ∃ what, getData = .error (.timeout what) ∨ getData = .error (.os what)

/-- A reading of one of the sentences, which its metadata names. -/
def WholeSentence (settings : NMEA) (data : Data) : Prop :=
  ∃ names, Whole names data ∧ (data.error = none →
    ∃ sentence ∈ settings.sentences, data.metadata = some sentence.id ∧
      names = sentence.fields.map Field.name)

theorem name_parseField {timestamp : Timestamp} {piece : Field × Bytes} {field : Data.Field}
    (h : parseField timestamp piece.1 piece.2 = .ok field) : field.name = piece.1.name := by
  unfold parseField at h
  split at h
  case isTrue =>
    cases h
    rfl
  case isFalse =>
    obtain ⟨value, -, h⟩ := bind_eq_ok.mp h
    cases h
    rfl

theorem names_parse {response : Response} {sentences : List Sentence}
    {timestamp : Timestamp} {fields : List Data.Field}
    (h : parse response sentences timestamp = .ok fields) :
    ∃ sentence ∈ sentences, sentence.id = response.sentenceId ∧
      fields.map Data.Field.name = sentence.fields.map Field.name := by
  unfold parse findSentence at h
  obtain ⟨sentence, hfind, h⟩ := bind_eq_ok.mp h
  cases hfound : sentences.find? fun sentence => sentence.id = response.sentenceId with
  | none => simp [hfound] at hfind
  | some found =>
      simp only [hfound, Except.ok.injEq] at hfind
      cases hfind
      refine ⟨sentence, List.mem_of_find?_eq_some hfound,
        by simpa using List.find?_some hfound, ?_⟩
      split at h
      case isTrue => cases h
      case isFalse hlength =>
        rw [map_of_mapM_ok (fun piece _ field => name_parseField) h]
        change (_ : List (Field × Bytes)).map (Field.name ∘ Prod.fst) = _
        rw [← List.map_map, List.map_fst_zip (by omega)]

theorem wholeSentence_error (settings : NMEA) (code : Data.Error.Code) (what : Bytes) :
    WholeSentence settings (errorEntry settings code what) :=
  ⟨[], whole_of_error rfl rfl, fun hnone => by cases hnone⟩

theorem wholeSentence_entry {settings : NMEA}
    (hnonempty : ∀ sentence ∈ settings.sentences, sentence.fields ≠ [])
    (timestamp : Timestamp) (chunk : Bytes) :
    WholeSentence settings (entry settings timestamp chunk) := by
  unfold entry
  cases hentry : interpret 0 settings timestamp chunk with
  | error e => exact wholeSentence_error settings .nmea e.what
  | ok data =>
      obtain ⟨response, -, hentry⟩ := bind_eq_ok.mp hentry
      obtain ⟨fields, hfields, hentry⟩ := bind_eq_ok.mp hentry
      cases hentry
      obtain ⟨sentence, hmem, hid, hnames⟩ := names_parse hfields
      refine ⟨_, whole_of_fields ?_ rfl hnames, fun _ => ⟨sentence, hmem, ?_, rfl⟩⟩
      · simpa using hnonempty sentence hmem
      · rw [hid]

theorem receive_whole {settings : NMEA}
    (hnonempty : ∀ sentence ∈ settings.sentences, sentence.fields ≠ [])
    {getData : Except Throw Bytes} (hgetData : Delivers getData) (outside : Nat → UInt8)
    (timestamp : Timestamp) :
    ∃ list, receive outside getData timestamp settings = .ok list ∧
      ∀ data ∈ list, WholeSentence settings data := by
  obtain ⟨rawed, rfl⟩ | ⟨what, rfl | rfl⟩ := hgetData
  · obtain ⟨trash, rests, rfl, hfree⟩ := exists_joined dollar rawed
    rw [receive_joined outside settings timestamp hfree]
    split
    case isTrue =>
      refine ⟨_, rfl, fun data hmem => ?_⟩
      rw [List.mem_singleton.mp hmem]
      exact wholeSentence_error settings .nmea _
    case isFalse =>
      refine ⟨_, rfl, fun data hmem => ?_⟩
      obtain ⟨rest, -, rfl⟩ := List.mem_map.mp hmem
      exact wholeSentence_entry hnonempty timestamp _
  · exact ⟨[], rfl, by simp⟩
  · exact ⟨_, rfl, by simpa using wholeSentence_error settings .os what⟩

end Communication.Nmea

/-! ## Wago -/

namespace Communication.Wago

open Config.Wago

def Returns (getSingle : Nat → Int → Except Throw Int16) : Prop :=
  ∀ k id e, getSingle k id = .error e → e ≠ .undefinedBehaviour

/-- The counter of the instance ids stays in `int`. -/
def Countable (module : Module) : Prop :=
  module.offset.toInt32.toInt + module.instances.length < 2 ^ 31

theorem collect_whole {getSingle : Nat → Int → Except Throw Int16}
    (hget : Returns getSingle) (now : Nat → Timestamp) {instances : List Instance}
    (k : Nat) {offset : Int} (hcount : offset + instances.length < 2 ^ 31)
    {fields : List Data.Field} (hvalued : Valued fields) :
    (∃ collected, collect getSingle now k offset fields instances = .ok collected ∧
      Valued collected ∧ collected.map Data.Field.name =
        fields.map Data.Field.name ++ instances.map Instance.name) ∨
    ∃ e, collect getSingle now k offset fields instances = .error e ∧
      e ≠ .undefinedBehaviour := by
  induction instances generalizing k offset fields with
  | nil => exact .inl ⟨fields, rfl, hvalued, by simp⟩
  | cons it rest ih =>
      rw [List.length_cons, Nat.cast_add, Nat.cast_one] at hcount
      have hnext : increment offset = .ok (offset + 1) := if_pos (by omega)
      rw [collect, hnext, ok_bind]
      cases hraw : getSingle k offset with
      | error e => exact .inr ⟨e, rfl, hget k offset e hraw⟩
      | ok raw =>
          let value := map (extractAnalog raw) minAnalogValue maxAnalogValue it.min it.max
          have hvalued' : Valued (fields ++ [⟨it.name, some (.int16 value), now k⟩]) :=
            hvalued.append (by simp [Valued])
          have hcount' : offset + 1 + rest.length < 2 ^ 31 := by omega
          rw [ok_bind]
          obtain ⟨collected, hok, hcollected, hnames⟩ | herror := ih (k + 1) hcount' hvalued'
          · refine .inl ⟨collected, hok, hcollected, ?_⟩
            rw [hnames, List.map_append, List.append_assoc]
            rfl
          · exact .inr herror

theorem request_whole {module : Module} (hnonempty : module.instances ≠ [])
    (hcount : Countable module) {getSingle : Nat → Int → Except Throw Int16}
    (hget : Returns getSingle) (now : Nat → Timestamp) :
    ∃ data, request getSingle now module = .ok data ∧ data.deviceName = module.name ∧
      Whole (module.instances.map Instance.name) data ∧ Valued data.fields := by
  have hrequest : request getSingle now module = caught module.name
      (collect getSingle now 0 module.offset.toInt32.toInt [] module.instances) := rfl
  rw [hrequest]
  obtain ⟨collected, hcollect, hvalued, hnames⟩ | ⟨e, hcollect, hne⟩ :=
    collect_whole hget now 0 hcount valued_nil
  · rw [hcollect]
    exact ⟨_, rfl, rfl, whole_of_fields (by simpa using hnonempty) rfl hnames, hvalued⟩
  · rw [hcollect]
    cases e <;> first
      | exact absurd rfl hne
      | exact ⟨_, rfl, rfl, whole_of_error rfl rfl, valued_nil⟩

/-- Where every instance answers, the counter runs into the end of `int`. -/
theorem collect_overflow {getSingle : Nat → Int → Except Throw Int16}
    (hget : ∀ k id, ∃ raw, getSingle k id = .ok raw) (now : Nat → Timestamp)
    {instances : List Instance} (k : Nat) {offset : Int} (hoffset : offset < 2 ^ 31)
    (hcount : 2 ^ 31 ≤ offset + instances.length) (fields : List Data.Field) :
    collect getSingle now k offset fields instances = .error .undefinedBehaviour := by
  induction instances generalizing k offset fields with
  | nil =>
      rw [List.length_nil] at hcount
      omega
  | cons it rest ih =>
      rw [List.length_cons, Nat.cast_add, Nat.cast_one] at hcount
      rw [collect, increment]
      split
      case isTrue hnext =>
        obtain ⟨raw, hraw⟩ := hget k offset
        rw [ok_bind, hraw, ok_bind]
        exact ih (k + 1) hnext (by omega) _
      case isFalse => rfl

theorem request_overflow {module : Module} (hcount : ¬ Countable module)
    {getSingle : Nat → Int → Except Throw Int16}
    (hget : ∀ k id, ∃ raw, getSingle k id = .ok raw) (now : Nat → Timestamp) :
    request getSingle now module = .error .undefinedBehaviour := by
  have hoffset : module.offset.toInt32.toInt < 2 ^ 31 := Int32.toInt_lt _
  have hrequest : request getSingle now module = caught module.name
      (collect getSingle now 0 module.offset.toInt32.toInt [] module.instances) := rfl
  rw [hrequest, collect_overflow hget now 0 hoffset (not_lt.mp hcount)]
  rfl

end Communication.Wago

/-! ## The limits processor -/

namespace Processing.Limits

/-- The readings for which `process` calls `getLatestTime`. -/
def latestTimeCalls (duration : Int) : List Rdbus.Data → Store → List Rdbus.Data
  | [], _ => []
  | input :: inputList, store =>
      if input.error.isSome then latestTimeCalls duration inputList store
      else if store[input.deviceName]?.isNone then latestTimeCalls duration inputList store
      else input :: match processReading duration input store with
        | .ok _ store => latestTimeCalls duration inputList store
        | .error _ _ => []

theorem error_of_mem_latestTimeCalls {duration : Int} {inputList : List Rdbus.Data}
    {store : Store} {input : Rdbus.Data}
    (h : input ∈ latestTimeCalls duration inputList store) :
    input ∈ inputList ∧ input.error = none := by
  induction inputList generalizing store with
  | nil => simp [latestTimeCalls] at h
  | cons first rest ih =>
      rw [latestTimeCalls] at h
      split at h
      case isTrue => exact (ih h).imp_left (List.mem_cons_of_mem first)
      case isFalse herror =>
        split at h
        case isTrue => exact (ih h).imp_left (List.mem_cons_of_mem first)
        case isFalse =>
          rcases List.mem_cons.mp h with rfl | h
          · exact ⟨List.mem_cons_self, by simpa using herror⟩
          · split at h
            case h_1 => exact (ih h).imp_left (List.mem_cons_of_mem first)
            case h_2 => simp at h

end Processing.Limits

/-! ## Managers -/

structure Outside.Plausible (outside : Outside) : Prop where
  send : Modbus.Answers outside.send
  getData : Nmea.Delivers outside.getData
  getSingle : Wago.Returns outside.getSingle

/-- A whole reading of one of the configured devices. -/
inductive Config.Reads (config : Config) (data : Data) : Prop where
  | slave (slave : Config.Modbus.Slave) (hmem : slave ∈ config.modbus)
      (hname : data.deviceName = slave.name) (hwhole : Whole (Modbus.fieldNames slave) data)
      (hvalued : Valued data.fields)
  | sentence (hprotocol : config.protocol = str "nmea")
      (hwhole : Nmea.WholeSentence config.nmea data)
  | module (module : Config.Wago.Module) (hmem : module ∈ config.wago)
      (hname : data.deviceName = module.name)
      (hwhole : Whole (module.instances.map Config.Wago.Instance.name) data)
      (hvalued : Valued data.fields)

theorem Config.Reads.error_iff {config : Config} {data : Data} (h : config.Reads data) :
    data.error.isSome ↔ data.fields = [] := by
  cases h with
  | slave _ _ _ hwhole _ => exact hwhole.error_iff
  | sentence _ hwhole =>
      obtain ⟨names, hwhole, -⟩ := hwhole
      exact hwhole.error_iff
  | module _ _ _ hwhole _ => exact hwhole.error_iff

/-- No poll of the configuration leaves defined behaviour. -/
structure Config.StaysDefined (config : Config) : Prop where
  orders : ∀ slave ∈ config.modbus, Modbus.OrdersInside slave
  counts : ∀ slave ∈ config.modbus, Modbus.Countable slave
  counters : ∀ module ∈ config.wago, Wago.Countable module

/-- What `from_json` has checked. -/
structure Config.Filled (config : Config) : Prop where
  slaves : ∀ slave ∈ config.modbus, Modbus.fieldNames slave ≠ [] ∧
    ∀ register ∈ slave.inputRegisters ++ slave.outputRegisters, register.Shaped
  sentences : config.protocol = str "nmea" →
    ∀ sentence ∈ config.nmea.sentences, sentence.fields ≠ []
  modules : ∀ module ∈ config.wago, module.instances ≠ []

theorem Config.filled_of_fromJson {j : Config.ConfigJson} {config : Config}
    (h : Config.fromJson j = .ok config) : config.Filled := by
  obtain ⟨hprotocol, hwago, hparse⟩ | ⟨-, hmodbus, hwago, hparse⟩ |
    ⟨hprotocol, hmodbus, hparse⟩ := Config.fromJson_ok h
  · refine ⟨fun slave hmem => ?_, fun hnmea => ?_, by simp [hwago]⟩
    · obtain ⟨hslaves, -⟩ := Config.Modbus.parseModbus_ok hparse
      obtain ⟨slaveJson, -, hjson⟩ := mem_mapM_ok hslaves hmem
      refine ⟨fun hnil => ?_, Config.Modbus.Slave.fromJson_shaped hjson⟩
      obtain ⟨houtputs, hinputs⟩ := List.append_eq_nil_iff.mp (List.map_eq_nil_iff.mp hnil)
      apply Config.Modbus.Slave.fromJson_nonempty hjson
      rw [(houtputs ▸ perm_sortByKey _ _ : List.Perm [] slave.outputRegisters).nil_eq.symm,
        (hinputs ▸ perm_sortByKey _ _ : List.Perm [] slave.inputRegisters).nil_eq.symm]
      rfl
    · exact absurd (hprotocol.symm.trans hnmea) (by decide)
  · exact ⟨by simp [hmodbus], fun _ => (Config.Nmea.parseNMEA_ok hparse).1, by simp [hwago]⟩
  · refine ⟨by simp [hmodbus], fun hnmea => ?_, fun module hmem hnil => ?_⟩
    · exact absurd (hprotocol.symm.trans hnmea) (by decide)
    · have hcount := (Config.Wago.modules_of_parseWago hparse).2 module hmem
      simp [hnil] at hcount

namespace Task

def Of (config : Config) : Task → Prop
  | .pollSlave slave _ => slave ∈ config.modbus
  | .listen nmea => config.protocol = str "nmea" ∧ nmea = config.nmea
  | .pollModule module _ => module ∈ config.wago

theorem run_of {config : Config} {outside : Outside} {task next : Task} {list : List Data}
    (h : task.Of config) (hrun : task.run outside = .ok (list, next)) : next.Of config := by
  obtain ⟨-, rfl⟩ | ⟨_, _, _, rfl, -, -, rfl⟩ | ⟨_, rfl, rfl⟩ | ⟨_, _, _, rfl, -, -, rfl⟩ :=
    run_ok hrun
  all_goals exact h

theorem run_reads {config : Config} (hfilled : config.Filled) (hdefined : config.StaysDefined)
    {outside : Outside} (houtside : outside.Plausible) {task : Task} (h : task.Of config) :
    ∃ list next, task.run outside = .ok (list, next) ∧ ∀ data ∈ list, config.Reads data := by
  cases task with
  | pollSlave slave lastRun =>
      obtain ⟨hnonempty, hshaped⟩ := hfilled.slaves slave h
      have husable : ∀ register ∈ slave.inputRegisters ++ slave.outputRegisters,
          Modbus.Usable register := by
        intro register hmem
        refine ⟨(hshaped register hmem).numeric, (hshaped register hmem).length_eq, ?_⟩
        exact (List.mem_append.mp hmem).elim ((hdefined.orders slave h).2 register)
          ((hdefined.orders slave h).1 register)
      obtain ⟨data, hrequest, hname, hwhole, hvalued⟩ := Modbus.request_whole hnonempty
        (fun register hmem => husable register (List.mem_append_right _ hmem))
        (fun register hmem => husable register (List.mem_append_left _ hmem))
        (hdefined.counts slave h) outside.pastEnd houtside.send outside.now
      rw [run]
      split
      case isTrue =>
        rw [hrequest]
        refine ⟨_, _, rfl, fun other hmem => ?_⟩
        rw [List.mem_singleton.mp hmem]
        exact .slave slave h hname hwhole hvalued
      case isFalse => exact ⟨_, _, rfl, by simp⟩
  | listen nmea =>
      obtain ⟨hprotocol, rfl⟩ := h
      obtain ⟨list, hreceive, hwhole⟩ := Nmea.receive_whole (hfilled.sentences hprotocol)
        houtside.getData outside.outOfRange (outside.now 0)
      rw [run, hreceive]
      exact ⟨_, _, rfl, fun data hmem => .sentence hprotocol (hwhole data hmem)⟩
  | pollModule module lastRun =>
      obtain ⟨data, hrequest, hname, hwhole, hvalued⟩ := Wago.request_whole
        (hfilled.modules module h) (hdefined.counters module h) houtside.getSingle outside.now
      rw [run]
      split
      case isTrue =>
        rw [hrequest]
        refine ⟨_, _, rfl, fun other hmem => ?_⟩
        rw [List.mem_singleton.mp hmem]
        exact .module module h hname hwhole hvalued
      case isFalse => exact ⟨_, _, rfl, by simp⟩

end Task

namespace Manager

theorem runTasks_of {config : Config} {outside : Nat → Outside} {k : Nat}
    {tasks next : List Task} {list : List Data} (h : ∀ task ∈ tasks, task.Of config)
    (hrun : runTasks outside k tasks = .ok (list, next)) : ∀ task ∈ next, task.Of config := by
  induction tasks generalizing k list next with
  | nil =>
      cases hrun
      exact h
  | cons task tasks ih =>
      obtain ⟨⟨data, after⟩, htask, hrun⟩ := bind_eq_ok.mp hrun
      obtain ⟨⟨rest, tasks'⟩, htasks, hrun⟩ := bind_eq_ok.mp hrun
      cases hrun
      obtain ⟨hfirst, hothers⟩ := List.forall_mem_cons.mp h
      exact List.forall_mem_cons.mpr ⟨Task.run_of hfirst htask, ih hothers htasks⟩

theorem runTasks_reads {config : Config} (hfilled : config.Filled)
    (hdefined : config.StaysDefined) {outside : Nat → Outside}
    (houtside : ∀ k, (outside k).Plausible) (k : Nat) {tasks : List Task}
    (h : ∀ task ∈ tasks, task.Of config) :
    ∃ list next, runTasks outside k tasks = .ok (list, next) ∧
      ∀ data ∈ list, config.Reads data := by
  induction tasks generalizing k with
  | nil => exact ⟨[], [], rfl, by simp⟩
  | cons task tasks ih =>
      obtain ⟨hfirst, hothers⟩ := List.forall_mem_cons.mp h
      obtain ⟨data, after, htask, hdata⟩ :=
        Task.run_reads hfilled hdefined (houtside k) hfirst
      obtain ⟨list, next, htasks, hlist⟩ := ih (k + 1) hothers
      refine ⟨data ++ list, after :: next, ?_, ?_⟩
      · rw [runTasks, htask, ok_bind, htasks]
        rfl
      · exact fun other hmem => (List.mem_append.mp hmem).elim (hdata other) (hlist other)

theorem run_of_runTasks {outside : Nat → Outside} {k : Nat} {tasks next : List Task}
    {list : List Data} (h : runTasks outside k tasks = .ok (list, next)) :
    ∀ task ∈ tasks, ∃ k result, task.run (outside k) = .ok result := by
  induction tasks generalizing k list next with
  | nil => simp
  | cons task tasks ih =>
      obtain ⟨result, htask, h⟩ := bind_eq_ok.mp h
      obtain ⟨⟨rest, tasks'⟩, htasks, h⟩ := bind_eq_ok.mp h
      exact List.forall_mem_cons.mpr ⟨⟨k, result, htask⟩, ih htasks⟩

def step (manager : Manager) (outside : Nat → Outside) : Option Manager :=
  match manager.run outside with
  | .ok (_, _, next) => some next
  | .error _ => none

/--
All readings of the run are whole, and no processor asks for the latest time of
a reading without fields.
-/
def RunsWhole (config : Config) (manager : Manager) (outside : Nat → Outside) : Prop :=
  ∃ list next, manager.collect outside = .ok (list, next) ∧
    (∀ data ∈ list, config.Reads data) ∧
    ∀ processor ∈ next.processors, ∀ input ∈
      Processing.Limits.latestTimeCalls processor.duration list processor.data,
      input.fields ≠ []

theorem collect_reads {config : Config} (hfilled : config.Filled)
    (hdefined : config.StaysDefined) {manager : Manager}
    (h : ∀ task ∈ manager.tasks, task.Of config) {outside : Nat → Outside}
    (houtside : ∀ k, (outside k).Plausible) : RunsWhole config manager outside := by
  obtain ⟨list, next, htasks, hreads⟩ := runTasks_reads hfilled hdefined houtside 0 h
  refine ⟨list, { manager with tasks := next }, ?_, hreads, ?_⟩
  · rw [collect, htasks]
    rfl
  · intro processor _ input hcall hnil
    obtain ⟨hmem, hnone⟩ := Processing.Limits.error_of_mem_latestTimeCalls hcall
    have herror := (hreads input hmem).error_iff.mpr hnil
    rw [hnone] at herror
    cases herror

theorem step_of {config : Config} {manager next : Manager} {outside : Nat → Outside}
    (h : ∀ task ∈ manager.tasks, task.Of config)
    (hstep : manager.step outside = some next) : ∀ task ∈ next.tasks, task.Of config := by
  unfold step at hstep
  cases hrun : manager.run outside with
  | error e => simp [hrun] at hstep
  | ok result =>
      rw [hrun] at hstep
      cases hstep
      obtain ⟨⟨list, collected⟩, hcollect, hrun⟩ := bind_eq_ok.mp hrun
      obtain ⟨⟨outputs, processed⟩, hprocess, hrun⟩ := bind_eq_ok.mp hrun
      cases hrun
      obtain ⟨⟨data, tasks⟩, htasks, hcollect⟩ := bind_eq_ok.mp hcollect
      cases hcollect
      obtain ⟨⟨sent, processors⟩, -, hprocess⟩ := bind_eq_ok.mp hprocess
      cases hprocess
      exact runTasks_of h htasks

end Manager

theorem tasks_of_initializeManager {j : Config.ConfigJson} {config : Config}
    {manager : Manager} (hconfig : Config.fromJson j = .ok config)
    (h : initializeManager config = .ok manager) :
    (∀ task ∈ manager.tasks, task.Of config) ∧
      (config.protocol = str "modbus" →
        ∀ slave ∈ config.modbus, .pollSlave slave 0 ∈ manager.tasks) ∧
      (config.protocol = str "wago" →
        ∀ module ∈ config.wago, .pollModule module 0 ∈ manager.tasks) := by
  obtain ⟨tasks, htasks, h⟩ := bind_eq_ok.mp h
  cases h
  obtain ⟨htalker, hslaves, hmodules⟩ := initializeTasks_ok htasks
  refine ⟨?_, fun hprotocol slave hmem => ?_, fun hprotocol module hmem => ?_⟩
  · obtain ⟨hprotocol, -⟩ | ⟨hprotocol, -⟩ | ⟨hprotocol, -⟩ := Config.fromJson_ok hconfig
    · rw [hslaves hprotocol]
      exact List.forall_mem_map.mpr fun _ hmem => hmem
    · rw [htalker hprotocol]
      exact List.forall_mem_singleton.mpr ⟨hprotocol, rfl⟩
    · rw [hmodules hprotocol]
      exact List.forall_mem_map.mpr fun _ hmem => hmem
  · rw [hslaves hprotocol]
    exact List.mem_map_of_mem hmem
  · rw [hmodules hprotocol]
    exact List.mem_map_of_mem hmem

/-- Every device answers, at a time when all polls of up to `pollTimeMs` are due. -/
def answering (pollTimeMs : Int) : Outside where
  steadyNow := pollTimeMs * 1000000
  now _ := 0
  pastEnd := 0
  send _ request := .ok ⟨request.slaveId.toNat, request.functionCode,
    List.replicate request.registersNumber.toNat 0⟩
  getData := .ok []
  outOfRange _ := 0
  getSingle _ _ := .ok 0

theorem send_answering (pollTimeMs : Int) (k : Nat) (request : Modbus.ModbusRequest) :
    ∃ response, (answering pollTimeMs).send k request = .ok response ∧
      response.registerValues.length = request.registersNumber.toNat :=
  ⟨_, rfl, List.length_replicate⟩

theorem getSingle_answering (pollTimeMs : Int) (k : Nat) (id : Int) :
    ∃ raw, (answering pollTimeMs).getSingle k id = .ok raw :=
  ⟨0, rfl⟩

theorem plausible_answering (pollTimeMs : Int) : (answering pollTimeMs).Plausible where
  send k request := .inl (send_answering pollTimeMs k request)
  getData := .inl ⟨[], rfl⟩
  getSingle k id e h := by cases h

theorem isDue_answering (pollTimeMs : Int) :
    Task.isDue (answering pollTimeMs).steadyNow 0 pollTimeMs := by
  simp [Task.isDue, answering, Int.mul_tdiv_cancel]

/--
A configuration gives whole readings in every run, whatever the devices do,
exactly when no poll of it leaves defined behaviour.
-/
theorem runsWhole_iff_staysDefined {j : Config.ConfigJson} {config : Config}
    {manager : Manager} (hconfig : Config.fromJson j = .ok config)
    (hmanager : initializeManager config = .ok manager) :
    (∀ runs : List (Nat → Outside), (∀ outside ∈ runs, ∀ k, (outside k).Plausible) →
      AlongRun Manager.step (Manager.RunsWhole config) manager runs) ↔
      config.StaysDefined := by
  have hfilled := Config.filled_of_fromJson hconfig
  obtain ⟨hof, hslaves, hmodules⟩ := tasks_of_initializeManager hconfig hmanager
  constructor
  · intro h
    -- A task that is due is polled in the first run.
    have hpolled : ∀ pollTimeMs, ∀ task ∈ manager.tasks, ∃ result,
        task.run (answering pollTimeMs) = .ok result := by
      intro pollTimeMs task hmem
      obtain ⟨⟨list, next, hcollect, -⟩, -⟩ := h [fun _ => answering pollTimeMs]
        (by simpa using plausible_answering pollTimeMs)
      obtain ⟨⟨data, tasks⟩, htasks, -⟩ := bind_eq_ok.mp hcollect
      obtain ⟨-, result, hrun⟩ := Manager.run_of_runTasks htasks task hmem
      exact ⟨result, hrun⟩
    have hslave : ∀ slave ∈ config.modbus,
        Modbus.OrdersInside slave ∧ Modbus.Countable slave := by
      intro slave hmem
      by_contra houtside
      have hprotocol := Config.protocol_of_slave hconfig hmem
      obtain ⟨result, hrun⟩ := hpolled slave.pollTimeMs _ (hslaves hprotocol slave hmem)
      rw [Task.run, if_pos (isDue_answering slave.pollTimeMs),
        Modbus.request_outside (hfilled.slaves slave hmem).2 houtside _
          (send_answering slave.pollTimeMs)] at hrun
      cases hrun
    refine ⟨fun slave hmem => (hslave slave hmem).1, fun slave hmem => (hslave slave hmem).2, ?_⟩
    intro module hmem
    by_contra hcount
    have hprotocol := Config.protocol_of_module hconfig hmem
    obtain ⟨result, hrun⟩ := hpolled module.pollTimeMs _ (hmodules hprotocol module hmem)
    rw [Task.run, if_pos (isDue_answering module.pollTimeMs),
      Wago.request_overflow hcount (getSingle_answering module.pollTimeMs)] at hrun
    cases hrun
  · intro hdefined runs houtside
    refine alongRun_of_invariant (fun manager => ∀ task ∈ manager.tasks, task.Of config)
      Manager.step_of ?_ hof
    intro manager h outside hmem
    exact Manager.collect_reads hfilled hdefined h (houtside outside hmem)

def busJson : Config.ConfigJson where
  protocol := some (str "modbus")
  serial := some { path := some (str "/dev/ttyUSB0"), baudRate := some 9600,
                   stopBitsCount := some 1, parity := some (str "none"),
                   responseTimeoutMs := some 1000, lineTimeoutMs := some 100 }
  slaves := Modbus.subsequentJson.slaves

def serialPort : Config.Serial := ⟨str "/dev/ttyUSB0", 9600, 1, 1000, 100, .none⟩

theorem runsWhole_bus : ∃ config manager, Config.fromJson busJson = .ok config ∧
    initializeManager config = .ok manager ∧
      AlongRun Manager.step (Manager.RunsWhole config) manager
        [fun _ => answering 1000, fun _ => answering 3000] := by
  have hconfig : Config.fromJson busJson =
      .ok { protocol := str "modbus", modbus := [Modbus.subsequent],
            serial := some serialPort } := by
    decide +kernel
  refine ⟨_, _, hconfig, rfl, ?_⟩
  refine (runsWhole_iff_staysDefined hconfig rfl).mpr ⟨?_, ?_, by simp⟩ _ ?_
  · rw [List.forall_mem_singleton]
    unfold Modbus.OrdersInside Modbus.LettersInside
    decide
  · rw [List.forall_mem_singleton]
    exact ⟨Modbus.countsFit_of_sum_le (by decide), Modbus.countsFit_of_sum_le (by decide)⟩
  · simp [plausible_answering]

/-- A slave whose only order names the bytes 6 and 7 of two. -/
def misplacedJson : Config.ConfigJson where
  protocol := some (str "modbus")
  serial := busJson.serial
  slaves := some [{ name := some (str "Flow meter"), id := some 2, pollTimeMs := some 1000,
                    analogInputRegisters := some [{ name := some (str "Flow rate"),
                                                    address := some 4,
                                                    dataType := some (str "UINT"),
                                                    dataOrder := some (str "GH") }] }]

def misplaced : Config.Modbus.Slave where
  name := str "Flow meter"
  id := 2
  pollTimeMs := 1000
  inputRegisters := [⟨str "Flow rate", 4, [6, 7], .uint16⟩]
  outputRegisters := []

/-- Reading the only register leaves its two bytes. -/
theorem misplaced_undefined : ∃ config manager, Config.fromJson misplacedJson = .ok config ∧
    initializeManager config = .ok manager ∧
    (manager.collect fun _ => answering 1000) = .error .undefinedBehaviour ∧
    ¬ AlongRun Manager.step (Manager.RunsWhole config) manager [fun _ => answering 1000] := by
  have hconfig : Config.fromJson misplacedJson =
      .ok { protocol := str "modbus", modbus := [misplaced], serial := some serialPort } := by
    decide +kernel
  have hrequest : Modbus.request (.ok (answering 1000).pastEnd) (answering 1000).send
      (answering 1000).now misplaced = .error .undefinedBehaviour := by
    decide +kernel
  have hdue : Task.isDue (answering 1000).steadyNow 0 misplaced.pollTimeMs :=
    isDue_answering 1000
  have hrun : Task.run (answering 1000) (.pollSlave misplaced 0) =
      .error .undefinedBehaviour := by
    rw [Task.run, if_pos hdue, hrequest]
    rfl
  have hcollect : Manager.collect (fun _ => answering 1000)
      ⟨[.pollSlave misplaced 0], []⟩ = .error .undefinedBehaviour := by
    rw [Manager.collect, Manager.runTasks, hrun]
    rfl
  refine ⟨_, _, hconfig, rfl, hcollect, ?_⟩
  rintro ⟨⟨list, next, hok, -⟩, -⟩
  cases hcollect.symm.trans hok

end Rdbus
