import Rdbus.Out.FormattedTime
import Rdbus.Out.Output
import Rdbus.Foundation.Json
import Rdbus.Foundation.Widening

/-!
# What is written

`to_json` of readings and limits, and what a client gets back from the text.  A
double that is not finite is written as `null`.
-/

namespace Rdbus

open Foundation

inductive Numeral where
  | integer (value : Int)
  | double (bits : Nat)
  deriving DecidableEq

abbrev JsonValue := Json Bytes Numeral

/-- The members that assignments to a null value leave. -/
def record (assignments : List (Bytes × JsonValue)) : JsonValue :=
  .object (assignments.foldl (fun members entry => Json.assign entry.1 entry.2 members) [])

namespace Variant

/-- A `float` is converted to `double`. -/
def toJson : Variant → JsonValue
  | .int16 value => .number (.integer value.toInt)
  | .uint16 value => .number (.integer value.toNat)
  | .int32 value => .number (.integer value.toInt)
  | .uint32 value => .number (.integer value.toNat)
  | .int64 value => .number (.integer value.toInt)
  | .uint64 value => .number (.integer value.toNat)
  | .float bits => .number (.double (Format.binary32.widen Format.binary64 bits.toNat))
  | .double bits => .number (.double bits.toNat)
  | .string value => .text value

/-- The branches over `has_value`. -/
def toJson? : Option Variant → JsonValue
  | some value => value.toJson
  | none => .null

end Variant

namespace Data

def Field.toJson (localtime : Int → Tm) (x : Field) : JsonValue :=
  record [(str "name", .text x.name),
    (str "timestamp", .text (formattedTime localtime x.timestamp)),
    (str "value", Variant.toJson? x.value)]

/-- The enumeration starts with 1. -/
def Error.Code.toInt : Error.Code → Int
  | .os => 1
  | .modbus => 2
  | .nmea => 3
  | .wago => 4

def Error.toJson (x : Error) : JsonValue :=
  record [(str "code", .number (.integer x.code.toInt)), (str "what", .text x.what)]

/-- Either what went wrong or what was read. -/
def content (localtime : Int → Tm) (x : Data) : Bytes × JsonValue :=
  match x.error with
  | some error => (str "error", error.toJson)
  | none => (str "fields", .array (x.fields.map (Field.toJson localtime)))

def metadataMember (x : Data) : List (Bytes × JsonValue) :=
  match x.metadata with
  | some metadata => [(str "metadata", .text metadata)]
  | none => []

def toJson (localtime : Int → Tm) (x : Data) : JsonValue :=
  record ((str "device", .text x.deviceName) :: x.content localtime :: x.metadataMember)

end Data

namespace Processing.Limits

def FieldLimit.toJson (x : FieldLimit) : JsonValue :=
  record [(str "name", .text x.name), (str "min", Variant.toJson? x.min),
    (str "max", Variant.toJson? x.max)]

def Data.toJson (x : Data) : JsonValue :=
  record [(str "device", .text x.deviceName),
    (str "fields", .array (x.instanceLimits.map FieldLimit.toJson))]

end Processing.Limits

/-- The array `Pipe::send` prints and `Buffer::toJson` returns. -/
def Out.Document.toJson (localtime : Int → Tm) : Out.Document → JsonValue
  | .readings list => .array (list.map (Data.toJson localtime))
  | .limits list => .array (list.map Processing.Limits.Data.toJson)

/-! ## The order of the keys -/

theorem Data.Field.toJson_eq (localtime : Int → Tm) (x : Field) :
    toJson localtime x = .object [(str "name", .text x.name),
      (str "timestamp", .text (formattedTime localtime x.timestamp)),
      (str "value", Variant.toJson? x.value)] := by
  simp +decide only [toJson, record, List.foldl, Json.assign, if_false]

theorem Data.Error.toJson_eq (x : Error) : toJson x = .object
    [(str "code", .number (.integer x.code.toInt)), (str "what", .text x.what)] := by
  simp +decide only [toJson, record, List.foldl, Json.assign, if_false]

theorem Processing.Limits.FieldLimit.toJson_eq (x : FieldLimit) : toJson x = .object
    [(str "max", Variant.toJson? x.max), (str "min", Variant.toJson? x.min),
      (str "name", .text x.name)] := by
  simp +decide only [toJson, record, List.foldl, Json.assign, if_false, if_true]

theorem Processing.Limits.Data.toJson_eq (x : Data) : toJson x = .object
    [(str "device", .text x.deviceName),
      (str "fields", .array (x.instanceLimits.map FieldLimit.toJson))] := by
  simp +decide only [toJson, record, List.foldl, Json.assign, if_false]

theorem Data.toJson_eq (localtime : Int → Tm) (x : Data) :
    toJson localtime x = .object
      ((str "device", .text x.deviceName) :: x.content localtime :: x.metadataMember) := by
  rw [toJson, content, metadataMember]
  cases x.error <;> cases x.metadata <;>
    simp +decide only [record, List.foldl, Json.assign, if_false]

/-! ## What cannot be written -/

theorem Variant.strings_toJson? (value : Option Variant) :
    (toJson? value).strings = texts value := by
  cases value with
  | none => rfl
  | some value => cases value <;> rfl

section Dump

variable {dumpError : Bytes → Option Bytes}

/-- Only the texts of every part decide what is thrown. -/
theorem findSome?_flatMap_congr {α : Type} {left right : α → List Bytes} (xs : List α)
    (h : ∀ x ∈ xs, (left x).findSome? dumpError = (right x).findSome? dumpError) :
    (xs.flatMap left).findSome? dumpError = (xs.flatMap right).findSome? dumpError := by
  induction xs with
  | nil => rfl
  | cons x xs ih =>
      rw [List.flatMap_cons, List.flatMap_cons, List.findSome?_append, List.findSome?_append,
        h x List.mem_cons_self, ih fun y hy => h y (List.mem_cons_of_mem x hy)]

variable {localtime : Int → Tm}
  (hplain : ∀ text : Bytes, text.all (· < 128) → dumpError text = none)

include hplain

theorem Data.Error.dump_toJson (x : Error) :
    x.toJson.strings.findSome? dumpError = [x.what].findSome? dumpError := by
  simp [toJson_eq, List.findSome?_cons, hplain (str "code") (by decide),
    hplain (str "what") (by decide)]

theorem Processing.Limits.FieldLimit.dump_toJson (x : FieldLimit) :
    x.toJson.strings.findSome? dumpError =
      (Variant.texts x.max ++ Variant.texts x.min ++ [x.name]).findSome? dumpError := by
  simp [toJson_eq, Variant.strings_toJson?, List.findSome?_cons, List.findSome?_append,
    hplain (str "max") (by decide), hplain (str "min") (by decide),
    hplain (str "name") (by decide)]

theorem Processing.Limits.Data.dump_toJson (x : Data) :
    x.toJson.strings.findSome? dumpError = x.texts.findSome? dumpError := by
  have hlimits := findSome?_flatMap_congr x.instanceLimits fun limit _ =>
    FieldLimit.dump_toJson hplain limit
  simp [toJson_eq, texts, List.flatMap_map, List.findSome?_cons, hlimits,
    hplain (str "device") (by decide), hplain (str "fields") (by decide)]

theorem Data.dump_metadataMember (x : Data) :
    (x.metadataMember.flatMap fun entry => entry.1 :: entry.2.strings).findSome? dumpError =
      x.metadata.toList.findSome? dumpError := by
  rw [metadataMember]
  cases x.metadata with
  | some metadata => simp [List.findSome?_cons, hplain (str "metadata") (by decide)]
  | none => rfl

theorem Data.Field.dump_toJson (x : Field) :
    (toJson localtime x).strings.findSome? dumpError =
      (x.name :: Variant.texts x.value).findSome? dumpError := by
  simp [toJson_eq, Variant.strings_toJson?, List.findSome?_cons,
    hplain (str "name") (by decide), hplain (str "timestamp") (by decide),
    hplain (str "value") (by decide), hplain _ (ascii_formattedTime localtime x.timestamp)]

theorem Data.dump_toJson (x : Data) :
    (toJson localtime x).strings.findSome? dumpError = x.texts.findSome? dumpError := by
  have hmetadata := dump_metadataMember hplain x
  have hdevice := hplain (str "device") (by decide)
  rw [toJson_eq, texts, content]
  cases x.error with
  | some error =>
      have herror := Error.dump_toJson hplain error
      simp only [List.findSome?_cons, List.findSome?_nil] at herror
      simp [List.findSome?_cons, List.findSome?_append, hmetadata, hdevice, herror,
        hplain (str "error") (by decide)]
      cases dumpError x.deviceName <;> cases dumpError error.what <;> rfl
  | none =>
      have hfields : (x.fields.flatMap fun field =>
            (Field.toJson localtime field).strings).findSome? dumpError =
          (x.fields.flatMap fun field =>
            field.name :: Variant.texts field.value).findSome? dumpError :=
        findSome?_flatMap_congr x.fields fun field _ => Field.dump_toJson hplain field
      simp [List.flatMap_map, List.findSome?_cons, List.findSome?_append, hmetadata, hdevice,
        hfields, hplain (str "fields") (by decide)]

/-- A text of the document that cannot be written is one of the readings' own, and it is
the first of them that `json::dump` throws at. -/
theorem Out.Document.dump_eq_texts (document : Document) :
    (document.toJson localtime).strings.findSome? dumpError =
      document.texts.findSome? dumpError := by
  cases document with
  | readings list =>
      rw [toJson, Json.strings_array, texts, List.flatMap_map]
      exact findSome?_flatMap_congr list fun data _ => Data.dump_toJson hplain data
  | limits list =>
      rw [toJson, Json.strings_array, texts, List.flatMap_map]
      exact findSome?_flatMap_congr list fun data _ =>
        Processing.Limits.Data.dump_toJson hplain data

end Dump

/-- A name of a station in Latin-1. -/
def latin : Out.Document := .readings [{ deviceName := [0x43, 0xe9] }]

def incomplete : Bytes :=
  str "[json.exception.type_error.316] incomplete UTF-8 string; last byte: 0xE9"

theorem Out.Document.dump_eq_texts_latin :
    (latin.toJson fun _ => newYear).strings.findSome?
        (fun text => if text.all (· < 128) then none else some incomplete) =
      some incomplete := by
  rw [Out.Document.dump_eq_texts]
  case hplain =>
    intro text hascii
    exact if_pos hascii
  rfl

/-! ## What a client reads -/

namespace Shown

inductive Value where
  | nothing
  | text (value : Bytes)
  | integer (value : Int)
  | real (negative : Bool) (magnitude : ℚ)
  deriving DecidableEq

/-- A value that is not finite looks like a missing one. -/
def Value.ofFinite : Option (Bool × ℚ) → Value
  | some (negative, magnitude) => .real negative magnitude
  | none => .nothing

structure Field where
  name : Bytes
  timestamp : Bytes
  value : Value
  deriving DecidableEq

inductive Content where
  | error (error : Data.Error)
  | fields (fields : List Field)
  deriving DecidableEq

structure Limit where
  name : Bytes
  min : Value
  max : Value
  deriving DecidableEq

end Shown

/-- A reading as it can be told from its document. -/
structure Shown where
  device : Bytes
  content : Shown.Content
  metadata : Option Bytes
  deriving DecidableEq

/-- Limits as they can be told from their document. -/
structure ShownLimits where
  device : Bytes
  fields : List Shown.Limit
  deriving DecidableEq

namespace JsonValue

def text? : JsonValue → Option Bytes
  | .text value => some value
  | _ => none

def items? : JsonValue → Option (List JsonValue)
  | .array items => some items
  | _ => none

def value? : JsonValue → Option Shown.Value
  | .null => some .nothing
  | .text value => some (.text value)
  | .number (.integer value) => some (.integer value)
  | .number (.double bits) => some (.ofFinite (Format.binary64.finite? bits))
  | _ => none

def code? : JsonValue → Option Data.Error.Code
  | .number (.integer 1) => some .os
  | .number (.integer 2) => some .modbus
  | .number (.integer 3) => some .nmea
  | .number (.integer 4) => some .wago
  | _ => none

def field? (j : JsonValue) : Option Shown.Field := do
  let name ← (← j.at? (str "name")) |> text?
  let timestamp ← (← j.at? (str "timestamp")) |> text?
  let value ← (← j.at? (str "value")) |> value?
  some ⟨name, timestamp, value⟩

def error? (j : JsonValue) : Option Data.Error := do
  let code ← (← j.at? (str "code")) |> code?
  let what ← (← j.at? (str "what")) |> text?
  some ⟨code, what⟩

def limit? (j : JsonValue) : Option Shown.Limit := do
  let name ← (← j.at? (str "name")) |> text?
  let min ← (← j.at? (str "min")) |> value?
  let max ← (← j.at? (str "max")) |> value?
  some ⟨name, min, max⟩

/-- Without an `error` there are `fields`. -/
def content? (j : JsonValue) : Option Shown.Content :=
  match j.at? (str "error") with
  | some error => (error? error).map .error
  | none => do
      let fields ← (← j.at? (str "fields")) |> items?
      return .fields (← fields.mapM field?)

def reading? (j : JsonValue) : Option Shown := do
  let device ← (← j.at? (str "device")) |> text?
  let content ← content? j
  some ⟨device, content, (j.at? (str "metadata")).bind text?⟩

def limits? (j : JsonValue) : Option ShownLimits := do
  let device ← (← j.at? (str "device")) |> text?
  let fields ← (← j.at? (str "fields")) |> items?
  return ⟨device, ← fields.mapM limit?⟩

end JsonValue

/-- The value a client is shown, whatever the type of the register was. -/
def Variant.shown : Option Variant → Shown.Value
  | none => .nothing
  | some (.string value) => .text value
  | some (.float bits) => .ofFinite (Format.binary32.finite? bits.toNat)
  | some (.double bits) => .ofFinite (Format.binary64.finite? bits.toNat)
  | some (.uint64 value) => .integer value.toNat
  | some (.int64 value) => .integer value.toInt
  | some (.uint32 value) => .integer value.toNat
  | some (.int32 value) => .integer value.toInt
  | some (.uint16 value) => .integer value.toNat
  | some (.int16 value) => .integer value.toInt

def Data.Field.shown (localtime : Int → Tm) (x : Field) : Shown.Field :=
  ⟨x.name, formattedTime localtime x.timestamp, Variant.shown x.value⟩

/-- The fields of a reading with an error are not shown. -/
def Data.shown (localtime : Int → Tm) (x : Data) : Shown where
  device := x.deviceName
  content := match x.error with
    | some error => .error error
    | none => .fields (x.fields.map (Field.shown localtime))
  metadata := x.metadata

def Processing.Limits.FieldLimit.shown (x : FieldLimit) : Shown.Limit :=
  ⟨x.name, Variant.shown x.min, Variant.shown x.max⟩

def Processing.Limits.Data.shown (x : Data) : ShownLimits :=
  ⟨x.deviceName, x.instanceLimits.map FieldLimit.shown⟩

open JsonValue

theorem value?_toJson? (value : Option Variant) :
    value? (Variant.toJson? value) = some (Variant.shown value) := by
  cases value with
  | none => rfl
  | some value =>
      cases value with
      | float bits =>
          have hsame := Format.finite?_widen Format.binary64_widens bits.toNat
          exact congrArg (fun finite => some (Shown.Value.ofFinite finite)) hsame
      | string | double | uint64 | int64 | uint32 | int32 | uint16 | int16 => rfl

theorem field?_toJson (localtime : Int → Tm) (x : Data.Field) :
    field? (x.toJson localtime) = some (x.shown localtime) := by
  simp +decide [field?, Data.Field.toJson_eq, Json.at?, Json.member, text?, value?_toJson?,
    Data.Field.shown]

theorem error?_toJson (x : Data.Error) : error? x.toJson = some x := by
  obtain ⟨code, what⟩ := x
  cases code <;> simp +decide [error?, Data.Error.toJson_eq, Json.at?, Json.member, text?, code?,
    Data.Error.Code.toInt]

theorem limit?_toJson (x : Processing.Limits.FieldLimit) : limit? x.toJson = some x.shown := by
  simp +decide [limit?, Processing.Limits.FieldLimit.toJson_eq, Json.at?, Json.member, text?,
    value?_toJson?, Processing.Limits.FieldLimit.shown]

/-- An array of parts is read part by part. -/
theorem mapM_map_eq_some {α β : Type} {read : JsonValue → Option β} {write : α → JsonValue}
    {shown : α → β} (h : ∀ x, read (write x) = some (shown x)) (xs : List α) :
    (xs.map write).mapM read = some (xs.map shown) := by
  rw [List.mapM_map]
  exact (congrArg (xs.mapM ·) (funext h)).trans List.mapM_pure

/-- The keys of the rest are neither of these. -/
theorem content?_toJson (localtime : Int → Tm) (x : Data) :
    content? (x.toJson localtime) = some (x.shown localtime).content := by
  have hfields := mapM_map_eq_some (field?_toJson localtime) x.fields
  rw [Data.toJson_eq, Data.shown, Data.content, Data.metadataMember]
  cases x.error with
  | some error =>
      cases x.metadata <;>
        simp +decide [content?, Json.at?, Json.member, error?_toJson]
  | none =>
      cases x.metadata <;>
        simp +decide [content?, Json.at?, Json.member, items?, hfields]

theorem metadata_toJson (localtime : Int → Tm) (x : Data) :
    ((x.toJson localtime).at? (str "metadata")).bind text? = x.metadata := by
  rw [Data.toJson_eq, Data.content, Data.metadataMember]
  cases x.error <;> cases x.metadata <;> simp +decide [Json.at?, Json.member, text?]

theorem reading?_toJson (localtime : Int → Tm) (x : Data) :
    reading? (x.toJson localtime) = some (x.shown localtime) := by
  have hdevice : (x.toJson localtime).at? (str "device") = some (.text x.deviceName) := by
    rw [Data.toJson_eq, Json.at?, Json.member, if_pos rfl]
  simp [reading?, hdevice, text?, content?_toJson, metadata_toJson, Data.shown]

theorem limits?_toJson (x : Processing.Limits.Data) : limits? x.toJson = some x.shown := by
  have hfields := mapM_map_eq_some limit?_toJson x.instanceLimits
  simp +decide [limits?, Processing.Limits.Data.toJson_eq, Json.at?, Json.member, text?, items?,
    hfields, Processing.Limits.Data.shown]

end Rdbus
