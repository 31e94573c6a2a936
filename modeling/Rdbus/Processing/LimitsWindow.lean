import Rdbus.Processing.Limits
import Rdbus.Variant
import Rdbus.Foundation.Outcome
import Mathlib.Data.List.Induction
import Mathlib.Tactic.Common

/-!
# What the limits are the limits of

The processor drops values lazily, for all fields of a device at once and by the
first timestamp of each later reading.  `window` follows it reading by reading;
`mem_window_iff` says the same about the whole history.
-/

namespace Rdbus.Processing.Limits

open Foundation

/-- The non-error readings of a device. -/
def readingsOf (device : Bytes) (inputs : List Rdbus.Data) : List Rdbus.Data :=
  inputs.filter fun input => input.error.isNone && input.deviceName == device

def Considered (devices : List Bytes) (input : Rdbus.Data) : Prop :=
  input.error = none ∧ input.deviceName ∈ devices

instance (devices : List Bytes) (input : Rdbus.Data) :
    Decidable (Considered devices input) :=
  inferInstanceAs (Decidable (_ ∧ _))

/-- The timestamp of the first field. -/
def latestTime (reading : Rdbus.Data) : Timestamp :=
  match reading.fields with
  | [] => 0
  | field :: _ => field.timestamp

def valuesOf (fields : List Data.Field) (name : Bytes) : List TimestampedValue :=
  (fields.filter fun field => field.name = name).filterMap fun field =>
    field.value.map fun value => (field.timestamp, value)

def Mentions (fields : List Data.Field) (name : Bytes) : Prop :=
  ∃ field ∈ fields, field.name = name

instance (fields : List Data.Field) (name : Bytes) : Decidable (Mentions fields name) :=
  inferInstanceAs (Decidable (∃ field ∈ fields, _))

def Known (readings : List Rdbus.Data) (name : Bytes) : Prop :=
  ∃ reading ∈ readings, Mentions reading.fields name

instance (readings : List Rdbus.Data) (name : Bytes) : Decidable (Known readings name) :=
  inferInstanceAs (Decidable (∃ reading ∈ readings, _))

/-- The values held for a field after the readings. -/
def window (duration : Int) (readings : List Rdbus.Data) (name : Bytes) :
    List TimestampedValue :=
  readings.foldl (fun values reading =>
    (values.filter fun tv => !isOld duration (latestTime reading) tv) ++
      valuesOf reading.fields name) []

/-- Some reading gave the value, and it is not older than any later reading allows. -/
def InWindow (duration : Int) (readings : List Rdbus.Data) (name : Bytes)
    (tv : TimestampedValue) : Prop :=
  ∃ before reading after, readings = before ++ reading :: after ∧
    (∃ field ∈ reading.fields, field.name = name ∧ field.timestamp = tv.1 ∧
      field.value = some tv.2) ∧
    ∀ later ∈ after, latestTime later ≤ tv.1 + nanoseconds duration

/-! ## Windows -/

theorem mem_valuesOf {fields : List Data.Field} {name : Bytes} {tv : TimestampedValue} :
    tv ∈ valuesOf fields name ↔ ∃ field ∈ fields, field.name = name ∧
      field.timestamp = tv.1 ∧ field.value = some tv.2 := by
  rcases tv with ⟨timestamp, value⟩
  simp only [valuesOf, List.mem_filterMap, List.mem_filter, decide_eq_true_eq,
    Option.map_eq_some_iff, Prod.mk.injEq]
  constructor
  · rintro ⟨field, ⟨hmem, hname⟩, found, hfound, htimestamp, rfl⟩
    exact ⟨field, hmem, hname, htimestamp, hfound⟩
  · rintro ⟨field, hmem, hname, htimestamp, hvalue⟩
    exact ⟨field, ⟨hmem, hname⟩, value, hvalue, htimestamp, rfl⟩

theorem valuesOf_cons (field : Data.Field) (fields : List Data.Field) (name : Bytes) :
    valuesOf (field :: fields) name = valuesOf [field] name ++ valuesOf fields name := by
  rw [← List.singleton_append, valuesOf, List.filter_append, List.filterMap_append]
  rfl

theorem window_append (duration : Int) (readings : List Rdbus.Data)
    (reading : Rdbus.Data) (name : Bytes) :
    window duration (readings ++ [reading]) name =
      ((window duration readings name).filter fun tv =>
        !isOld duration (latestTime reading) tv) ++ valuesOf reading.fields name := by
  simp [window]

theorem known_append {readings : List Rdbus.Data} {reading : Rdbus.Data} {name : Bytes} :
    Known (readings ++ [reading]) name ↔
      Known readings name ∨ Mentions reading.fields name := by
  simp [Known, or_and_right, exists_or]

theorem mem_window_iff {duration : Int} {readings : List Rdbus.Data} {name : Bytes}
    {tv : TimestampedValue} :
    tv ∈ window duration readings name ↔ InWindow duration readings name tv := by
  induction readings using List.reverseRecOn with
  | nil =>
      simp [window, InWindow]
  | append_singleton readings reading ih =>
      rw [window_append, List.mem_append, List.mem_filter, ih, mem_valuesOf]
      have hrecent : (!isOld duration (latestTime reading) tv) = true ↔
          latestTime reading ≤ tv.1 + nanoseconds duration := by
        simp [isOld]
      rw [hrecent]
      constructor
      · rintro (⟨⟨before, old, after, rfl, hfield, hafter⟩, hkept⟩ | hfield)
        · refine ⟨before, old, after ++ [reading], by simp, hfield, ?_⟩
          intro later hlater
          rcases List.mem_append.mp hlater with hlater | hlater
          · exact hafter later hlater
          · rw [List.mem_singleton.mp hlater]
            exact hkept
        · exact ⟨readings, reading, [], rfl, hfield, by simp⟩
      · rintro ⟨before, old, after, heq, hfield, hafter⟩
        cases after using List.reverseRecOn with
        | nil =>
            rcases List.append_inj' heq rfl with ⟨-, hreading⟩
            cases hreading
            exact .inr hfield
        | append_singleton after last =>
            rw [← List.cons_append, ← List.append_assoc] at heq
            rcases List.append_inj' heq rfl with ⟨hreadings, hlast⟩
            cases hlast
            refine .inl ⟨⟨before, old, after, hreadings, hfield, ?_⟩, ?_⟩
            · exact fun later hlater => hafter later (by simp [hlater])
            · exact hafter reading (by simp)

/-! ## The methods on the map of one device -/

/-- `store'` is `store` with another map for the device. -/
def Sets (device : Bytes) (fieldsMap : FieldsMap) (store store' : Store) : Prop :=
  ∀ other, store'[other]? = if device = other then some fieldsMap else store[other]?

theorem Sets.self {device : Bytes} {fieldsMap : FieldsMap} {store store' : Store}
    (h : Sets device fieldsMap store store') : store'[device]? = some fieldsMap := by
  simp [h device]

theorem sets_self {device : Bytes} {fieldsMap : FieldsMap} {store : Store}
    (h : store[device]? = some fieldsMap) : Sets device fieldsMap store store := by
  intro other
  split
  case isTrue heq => rw [← heq, h]
  case isFalse => rfl

theorem Sets.trans {device : Bytes} {first second : FieldsMap}
    {store store' store'' : Store} (h : Sets device first store store')
    (h' : Sets device second store' store'') : Sets device second store store'' := by
  intro other
  rw [h' other, h other]
  split <;> rfl

theorem sets_modify {device : Bytes} {fieldsMap : FieldsMap} {store : Store}
    (h : store[device]? = some fieldsMap) (f : FieldsMap → FieldsMap) :
    Sets device (f fieldsMap) store (store.modify device f) := by
  intro other
  rw [Std.TreeMap.getElem?_modify, h]
  simp

section Actions

variable {α β : Type}

theorem bind_ok {action : Action α} {rest : α → Action β} {store store' : Store}
    {result : α} (h : action store = .ok result store') :
    (action >>= rest) store = rest result store' := by
  simp [bind, EStateM.bind, h]

theorem bind_error {action : Action α} {rest : α → Action β} {store store' : Store}
    {e : Throw} (h : action store = .error e store') :
    (action >>= rest) store = .error e store' := by
  simp [bind, EStateM.bind, h]

end Actions

theorem atDevice_ok {device : Bytes} {fieldsMap : FieldsMap} {store : Store}
    (h : store[device]? = some fieldsMap) :
    atDevice device store = .ok fieldsMap store := by
  unfold atDevice
  have hget : (get : Action Store) store = .ok store store := rfl
  rw [bind_ok hget, h]
  rfl

/-- Every value stored for the device can be compared. -/
def Comparable (duration : Int) (fieldsMap : FieldsMap) : Prop :=
  ∀ (name : Bytes) (values : List TimestampedValue),
    fieldsMap[name]? = some values → ∀ tv ∈ values, representable duration tv

theorem comparable_iff {duration : Int} {fieldsMap : FieldsMap} :
    (fieldsMap.toList.all fun entry => entry.2.all (representable duration)) = true ↔
      Comparable duration fieldsMap := by
  simp only [List.all_eq_true, Comparable]
  constructor
  · intro h name values hvalues
    exact h (name, values) (Std.TreeMap.mem_toList_iff_getElem?_eq_some.mpr hvalues)
  · rintro h ⟨name, values⟩ hmem
    exact h name values (Std.TreeMap.mem_toList_iff_getElem?_eq_some.mp hmem)

theorem removeOldValues_ok {duration : Int} {device : Bytes} (currentTime : Timestamp)
    {fieldsMap : FieldsMap} {store : Store} (h : store[device]? = some fieldsMap)
    (hcomparable : Comparable duration fieldsMap) :
    ∃ store', removeOldValues duration device currentTime store = .ok () store' ∧
      Sets device (fieldsMap.map fun _ values =>
        values.filter fun tv => !isOld duration currentTime tv) store store' := by
  refine ⟨_, ?_, sets_modify h _⟩
  rw [removeOldValues, bind_ok (atDevice_ok h), if_pos (comparable_iff.mpr hcomparable)]
  rfl

theorem removeOldValues_undefined {duration : Int} {device : Bytes}
    {currentTime : Timestamp} {fieldsMap : FieldsMap} {store : Store}
    (h : store[device]? = some fieldsMap)
    (hcomparable : ¬ Comparable duration fieldsMap) :
    removeOldValues duration device currentTime store =
      .error .undefinedBehaviour store := by
  rw [removeOldValues, bind_ok (atDevice_ok h), if_neg (mt comparable_iff.mp hcomparable)]
  rfl

theorem addMissingFields_ok {device : Bytes} {fieldsMap : FieldsMap} {store : Store}
    (h : store[device]? = some fieldsMap) (fields : List Data.Field) :
    ∃ fieldsMap' store', addMissingFields device fields store = .ok () store' ∧
      Sets device fieldsMap' store store' ∧
      ∀ name, fieldsMap'[name]? =
        if Mentions fields name then some (fieldsMap[name]?.getD [])
        else fieldsMap[name]? := by
  induction fields generalizing fieldsMap store with
  | nil =>
      exact ⟨fieldsMap, store, rfl, sets_self h, fun name => by simp [Mentions]⟩
  | cons field fields ih =>
      have hadded := sets_modify h fun fieldsMap => fieldsMap.insertIfNew field.name []
      rcases ih hadded.self with ⟨fieldsMap', store', hrun, hsets, hvalues⟩
      refine ⟨fieldsMap', store', ?_, hadded.trans hsets, ?_⟩
      · rw [addMissingFields, bind_ok (atDevice_ok h)]
        exact hrun
      · intro name
        rw [hvalues, Std.TreeMap.getElem?_insertIfNew]
        by_cases hname : field.name = name
        · subst hname
          have hmentions : Mentions (field :: fields) field.name :=
            ⟨field, by simp, rfl⟩
          rw [if_pos hmentions]
          cases hvalue : fieldsMap[field.name]? with
          | none => simp [← Std.TreeMap.isSome_getElem?_iff_mem, hvalue]
          | some values => simp [← Std.TreeMap.isSome_getElem?_iff_mem, hvalue]
        · have hmentions : Mentions (field :: fields) name ↔ Mentions fields name := by
            simp [Mentions, hname]
          simp [hname, hmentions]

/-- One iteration; a field without a value is passed over. -/
theorem insertNewValues_cons {device : Bytes} {fieldsMap : FieldsMap} {store : Store}
    (h : store[device]? = some fieldsMap) {field : Data.Field} (fields : List Data.Field)
    (hfield : (fieldsMap[field.name]?).isSome) :
    ∃ fieldsMap' store',
      insertNewValues device (field :: fields) store =
        insertNewValues device fields store' ∧
      Sets device fieldsMap' store store' ∧
      ∀ name, fieldsMap'[name]? = fieldsMap[name]?.map (· ++ valuesOf [field] name) := by
  cases hvalue : field.value with
  | none =>
      refine ⟨fieldsMap, store, ?_, sets_self h, fun name => ?_⟩
      · rw [insertNewValues, hvalue]
      · by_cases hname : field.name = name <;> simp [valuesOf, hvalue, hname]
  | some value =>
      rcases Option.isSome_iff_exists.mp hfield with ⟨values, hname⟩
      refine ⟨_, _, ?_, sets_modify h fun fieldsMap =>
        fieldsMap.modify field.name (· ++ [(field.timestamp, value)]), fun name => ?_⟩
      · rw [insertNewValues, hvalue]
        simp only
        rw [bind_ok (atDevice_ok h), hname]
        rfl
      · rw [Std.TreeMap.getElem?_modify]
        by_cases heq : field.name = name
        · subst heq
          simp [valuesOf, hname, hvalue]
        · simp [valuesOf, heq]

theorem insertNewValues_ok {device : Bytes} {fieldsMap : FieldsMap} {store : Store}
    (h : store[device]? = some fieldsMap) {fields : List Data.Field}
    (hfields : ∀ name, Mentions fields name → (fieldsMap[name]?).isSome) :
    ∃ fieldsMap' store', insertNewValues device fields store = .ok () store' ∧
      Sets device fieldsMap' store store' ∧
      ∀ name, fieldsMap'[name]? =
        fieldsMap[name]?.map (· ++ valuesOf fields name) := by
  induction fields generalizing fieldsMap store with
  | nil => exact ⟨fieldsMap, store, rfl, sets_self h, fun name => by simp [valuesOf]⟩
  | cons field fields ih =>
      rcases insertNewValues_cons h fields (hfields field.name ⟨field, by simp, rfl⟩) with
        ⟨fieldsMap₁, store₁, hstep, hsets₁, hvalues₁⟩
      have hrest : ∀ name, Mentions fields name → (fieldsMap₁[name]?).isSome := by
        rintro name ⟨other, hmem, hname⟩
        rw [hvalues₁, Option.isSome_map]
        exact hfields name ⟨other, by simp [hmem], hname⟩
      rcases ih hsets₁.self hrest with ⟨fieldsMap', store', hrun, hsets, hvalues⟩
      refine ⟨fieldsMap', store', hstep.trans hrun, hsets₁.trans hsets, fun name => ?_⟩
      rw [hvalues, hvalues₁, Option.map_map, valuesOf_cons field fields]
      simp [Function.comp_def]

/-! ## One reading -/

/-- The map holds the window of every field the readings know, and no other field. -/
def Represents (duration : Int) (readings : List Rdbus.Data) (fieldsMap : FieldsMap) :
    Prop :=
  ∀ name : Bytes, fieldsMap[name]? =
    if Known readings name then some (window duration readings name) else none

theorem represents_empty (duration : Int) : Represents duration [] ∅ := by
  intro name
  simp [Known]

theorem window_of_not_known {duration : Int} {readings : List Rdbus.Data} {name : Bytes}
    (h : ¬ Known readings name) : window duration readings name = [] := by
  rw [List.eq_nil_iff_forall_not_mem]
  intro tv hmem
  rcases mem_window_iff.mp hmem with ⟨before, reading, after, rfl, ⟨field, hfield,
    hname, -, -⟩, -⟩
  exact h ⟨reading, by simp, field, hfield, hname⟩

/-- The output for the map of one device. -/
def outputOf (device : Bytes) (fieldsMap : FieldsMap) : Data :=
  ⟨device, fieldsMap.toList.map fun entry => fieldLimit entry.1 entry.2⟩

theorem generateOutput_ok {store : Store} {device : Bytes} {fieldsMap : FieldsMap}
    (h : store[device]? = some fieldsMap) :
    generateOutput device store = .ok (outputOf device fieldsMap) store := by
  rw [generateOutput, bind_ok (atDevice_ok h)]
  rfl

/-- The methods run one after the other on the map of the reading's device. -/
theorem processReading_sets {duration : Int} {reading : Rdbus.Data} {fieldsMap : FieldsMap}
    {store : Store} (h : store[reading.deviceName]? = some fieldsMap)
    (hcomparable : Comparable duration fieldsMap) (hfields : reading.fields ≠ []) :
    ∃ fieldsMap' store',
      processReading duration reading store =
        .ok (outputOf reading.deviceName fieldsMap') store' ∧
      Sets reading.deviceName fieldsMap' store store' ∧
      ∀ name, fieldsMap'[name]? =
        (let kept := fieldsMap.map fun _ values =>
          values.filter fun tv => !isOld duration (latestTime reading) tv
        if Mentions reading.fields name then some (kept[name]?.getD []) else kept[name]?).map
          (· ++ valuesOf reading.fields name) := by
  have hlatest : getLatestTime reading store = .ok (latestTime reading) store := by
    unfold getLatestTime latestTime
    cases hlist : reading.fields with
    | nil => exact absurd hlist hfields
    | cons field fields => rfl
  rcases removeOldValues_ok (latestTime reading) h hcomparable with
    ⟨store₁, hrun₁, hsets₁⟩
  rcases addMissingFields_ok hsets₁.self reading.fields with
    ⟨fieldsMap₂, store₂, hrun₂, hsets₂, hvalues₂⟩
  have hmentioned : ∀ name, Mentions reading.fields name →
      (fieldsMap₂[name]?).isSome := by
    intro name hmentions
    rw [hvalues₂, if_pos hmentions]
    rfl
  rcases insertNewValues_ok hsets₂.self hmentioned with
    ⟨fieldsMap₃, store₃, hrun₃, hsets₃, hvalues₃⟩
  refine ⟨fieldsMap₃, store₃, ?_, (hsets₁.trans hsets₂).trans hsets₃, ?_⟩
  · rw [processReading, bind_ok hlatest, bind_ok hrun₁, bind_ok hrun₂, bind_ok hrun₃,
      generateOutput_ok hsets₃.self]
  · intro name
    rw [hvalues₃, hvalues₂]

theorem processReading_ok {duration : Int} {readings : List Rdbus.Data}
    {reading : Rdbus.Data} {fieldsMap : FieldsMap} {store : Store}
    (h : store[reading.deviceName]? = some fieldsMap)
    (hrepresents : Represents duration readings fieldsMap)
    (hcomparable : Comparable duration fieldsMap) (hfields : reading.fields ≠ []) :
    ∃ fieldsMap' store',
      processReading duration reading store =
        .ok (outputOf reading.deviceName fieldsMap') store' ∧
      Sets reading.deviceName fieldsMap' store store' ∧
      Represents duration (readings ++ [reading]) fieldsMap' := by
  rcases processReading_sets h hcomparable hfields with
    ⟨fieldsMap', store', hrun, hsets, hvalues⟩
  refine ⟨fieldsMap', store', hrun, hsets, fun name => ?_⟩
  rw [hvalues]
  simp only
  rw [Std.TreeMap.getElem?_map, hrepresents name, window_append]
  by_cases hknown : Known readings name
  · by_cases hmentions : Mentions reading.fields name <;>
      simp [known_append, hknown, hmentions]
  · by_cases hmentions : Mentions reading.fields name <;>
      simp [known_append, hknown, hmentions, window_of_not_known hknown]

theorem processReading_undefined {duration : Int} {reading : Rdbus.Data}
    {fieldsMap : FieldsMap} {store : Store}
    (h : store[reading.deviceName]? = some fieldsMap)
    (hcomparable : ¬ Comparable duration fieldsMap) :
    processReading duration reading store = .error .undefinedBehaviour store := by
  unfold processReading getLatestTime
  cases reading.fields with
  | nil => rfl
  | cons field fields =>
      have hlatest : (pure field.timestamp : Action Timestamp) store =
          .ok field.timestamp store := rfl
      simp only
      rw [bind_ok hlatest, bind_error (removeOldValues_undefined h hcomparable)]

/-! ## The output -/

/-- All values of one field have the same integer type. -/
def SameInteger (readings : List Rdbus.Data) : Prop :=
  ∀ name, ∃ type : DataType, type.isInteger ∧ ∀ reading ∈ readings,
    ∀ field ∈ reading.fields, field.name = name →
      ∀ value, field.value = some value → value.type = type

/-- Minimum and maximum of the values in the window, if there are any. -/
def IsLimits (duration : Int) (readings : List Rdbus.Data) (entry : FieldLimit) : Prop :=
  (entry.min = none ∧ entry.max = none ∧
    ∀ tv, ¬ InWindow duration readings entry.name tv) ∨
  ∃ least greatest, entry.min = some least.2 ∧ entry.max = some greatest.2 ∧
    InWindow duration readings entry.name least ∧
    InWindow duration readings entry.name greatest ∧
    ∀ tv, InWindow duration readings entry.name tv →
      least.2.integer ≤ tv.2.integer ∧ tv.2.integer ≤ greatest.2.integer

/-- What is to be emitted for the last of the readings of a device. -/
structure Extremes (duration : Int) (readings : List Rdbus.Data) (device : Bytes)
    (output : Data) : Prop where
  device : output.deviceName = device
  ascending : output.instanceLimits.Pairwise fun a b => compare a.name b.name = .lt
  names : ∀ name, (∃ entry ∈ output.instanceLimits, entry.name = name) ↔
    Known readings name
  limits : SameInteger readings →
    ∀ entry ∈ output.instanceLimits, IsLimits duration readings entry

@[simp] theorem name_fieldLimit (name : Bytes) (values : List TimestampedValue) :
    (fieldLimit name values).name = name := by
  unfold fieldLimit
  split <;> rfl

theorem isLimits_fieldLimit {duration : Int} {readings : List Rdbus.Data}
    (hsame : SameInteger readings) (name : Bytes) :
    IsLimits duration readings (fieldLimit name (window duration readings name)) := by
  cases hwindow : window duration readings name with
  | nil =>
      refine .inl ⟨rfl, rfl, ?_⟩
      intro tv htv
      rw [name_fieldLimit, ← mem_window_iff, hwindow] at htv
      cases htv
  | cons tv rest =>
      rw [← hwindow]
      rcases hsame name with ⟨type, hinteger, htype⟩
      have hmember : ∀ tv ∈ window duration readings name, tv.2.type = type := by
        intro tv htv
        rcases mem_window_iff.mp htv with ⟨before, reading, after, rfl, ⟨field, hfield,
          hname, -, hvalue⟩, -⟩
        exact htype reading (by simp) field hfield hname tv.2 hvalue
      have hless : ∀ a ∈ window duration readings name,
          ∀ b ∈ window duration readings name,
            Variant.lt a.2 b.2 = decide (a.2.integer < b.2.integer) := by
        intro a ha b hb
        rw [Bool.eq_iff_iff, decide_eq_true_iff]
        apply Variant.lt_iff_integer_lt
        · rw [hmember a ha, hmember b hb]
        · rw [hmember a ha]
          exact hinteger
      rcases bounds_minmaxElement hless (by simp [hwindow]) with
        ⟨least, greatest, hminmax, hbounds⟩
      refine .inr ⟨least, greatest, ?_, ?_, ?_, ?_, ?_⟩
      · simp [fieldLimit, hminmax]
      · simp [fieldLimit, hminmax]
      · simpa using mem_window_iff.mp hbounds.least_mem
      · simpa using mem_window_iff.mp hbounds.greatest_mem
      · intro tv htv
        rw [name_fieldLimit, ← mem_window_iff] at htv
        exact ⟨hbounds.least_le tv htv, hbounds.le_greatest tv htv⟩

theorem extremes_outputOf {duration : Int} {readings : List Rdbus.Data}
    {fieldsMap : FieldsMap} (h : Represents duration readings fieldsMap)
    (device : Bytes) : Extremes duration readings device (outputOf device fieldsMap) := by
  have hentry : ∀ {name : Bytes} {values : List TimestampedValue},
      (name, values) ∈ fieldsMap.toList ↔
        Known readings name ∧ values = window duration readings name := by
    intro name values
    rw [Std.TreeMap.mem_toList_iff_getElem?_eq_some, h name]
    split <;> simp [*, eq_comm]
  refine ⟨rfl, ?_, ?_, ?_⟩
  · apply List.pairwise_map.mpr
    simpa using Std.TreeMap.ordered_keys_toList
  · intro name
    constructor
    · rintro ⟨entry, hmem, rfl⟩
      rcases List.mem_map.mp hmem with ⟨⟨name, values⟩, hlist, rfl⟩
      simpa using (hentry.mp hlist).1
    · intro hknown
      refine ⟨_, List.mem_map_of_mem (hentry.mpr ⟨hknown, rfl⟩), ?_⟩
      simp
  · intro hsame entry hmem
    rcases List.mem_map.mp hmem with ⟨⟨name, values⟩, hlist, rfl⟩
    rw [(hentry.mp hlist).2]
    exact isLimits_fieldLimit hsame name

end Rdbus.Processing.Limits
