import Rdbus.Processing.LimitsWindow

/-!
# Limits over whole runs

A run is a list of `process` calls on a fresh processor.  Each considered
reading gets the extremes of the window of its device, in the order of the
inputs, unless a sum of a time point and the duration leaves the 64-bit range.
-/

namespace Rdbus.Processing.Limits

open Foundation

/-- What is emitted for the inputs that follow `history`. -/
inductive Emits (duration : Int) (devices : List Bytes) :
    List Rdbus.Data → List Rdbus.Data → List Data → Prop where
  | nil (history : List Rdbus.Data) : Emits duration devices history [] []
  | skip {history rest : List Rdbus.Data} {input : Rdbus.Data} {outputs : List Data} :
      ¬ Considered devices input → Emits duration devices (history ++ [input]) rest outputs →
      Emits duration devices history (input :: rest) outputs
  | emit {history rest : List Rdbus.Data} {input : Rdbus.Data} {output : Data}
      {outputs : List Data} : Considered devices input →
      Extremes duration (readingsOf input.deviceName (history ++ [input]))
        input.deviceName output →
      Emits duration devices (history ++ [input]) rest outputs →
      Emits duration devices history (input :: rest) (output :: outputs)

/-- The same for the lists that successive calls return. -/
def EmitsCalls (duration : Int) (devices : List Bytes) :
    List Rdbus.Data → List (List Rdbus.Data) → List (List Data) → Prop
  | _, [], [] => True
  | history, call :: calls, outputs :: rest =>
      Emits duration devices history call outputs ∧
        EmitsCalls duration devices (history ++ call) calls rest
  | _, _, _ => False

/-- `t + duration` is representable for every value followed by a reading of its device. -/
def Representable (duration : Int) (devices : List Bytes) (inputs : List Rdbus.Data) :
    Prop :=
  ∀ before reading after, inputs = before ++ reading :: after →
    Considered devices reading →
    (∃ later ∈ after, Considered devices later ∧
      later.deviceName = reading.deviceName) →
    ∀ field ∈ reading.fields, ∀ value, field.value = some value →
      representable duration (field.timestamp, value)

/-- The same, step by step: what is in the window when a reading arrives. -/
def ComparableFrom (duration : Int) (devices : List Bytes) :
    List Rdbus.Data → List Rdbus.Data → Prop
  | _, [] => True
  | history, input :: rest =>
      (Considered devices input → ∀ name tv,
        InWindow duration (readingsOf input.deviceName history) name tv →
          representable duration tv) ∧
      ComparableFrom duration devices (history ++ [input]) rest

structure Describes (duration : Int) (devices : List Bytes) (history : List Rdbus.Data)
    (store : Store) : Prop where
  configured : ∀ device ∈ devices, ∃ fieldsMap, store[device]? = some fieldsMap ∧
    Represents duration (readingsOf device history) fieldsMap
  others : ∀ device, device ∉ devices → store[device]? = none

/-! ## The condition -/

theorem mem_readingsOf {device : Bytes} {inputs : List Rdbus.Data}
    {reading : Rdbus.Data} : reading ∈ readingsOf device inputs ↔
      reading ∈ inputs ∧ reading.error = none ∧ reading.deviceName = device := by
  simp [readingsOf]

theorem readingsOf_append (device : Bytes) (first second : List Rdbus.Data) :
    readingsOf device (first ++ second) =
      readingsOf device first ++ readingsOf device second := by
  simp [readingsOf]

theorem comparableFrom_of_representable {duration : Int} {devices : List Bytes}
    {history inputs : List Rdbus.Data}
    (h : Representable duration devices (history ++ inputs)) :
    ComparableFrom duration devices history inputs := by
  induction inputs generalizing history with
  | nil => trivial
  | cons input rest ih =>
      refine ⟨?_, ih (by simpa using h)⟩
      rintro hconsidered name ⟨timestamp, value⟩ ⟨older, reading, newer, hreadings,
        ⟨field, hfield, -, rfl, hvalue⟩, -⟩
      have hmem : reading ∈ readingsOf input.deviceName history := by
        simp [hreadings]
      rcases mem_readingsOf.mp hmem with ⟨hhistory, hok, hdevice⟩
      rcases List.append_of_mem hhistory with ⟨before, after, rfl⟩
      refine h before reading (after ++ input :: rest) (by simp) ⟨hok, ?_⟩
        ⟨input, by simp, hconsidered, hdevice.symm⟩ field hfield value hvalue
      rw [hdevice]
      exact hconsidered.2

theorem comparableFrom_append {duration : Int} {devices : List Bytes}
    {history first second : List Rdbus.Data} :
    ComparableFrom duration devices history (first ++ second) ↔
      ComparableFrom duration devices history first ∧
        ComparableFrom duration devices (history ++ first) second := by
  induction first generalizing history with
  | nil => simp [ComparableFrom]
  | cons input first ih => simp [ComparableFrom, ih, and_assoc]

theorem representable_of_comparableFrom {duration : Int} {devices : List Bytes}
    {inputs : List Rdbus.Data} (h : ComparableFrom duration devices [] inputs) :
    Representable duration devices inputs := by
  rintro before reading after rfl hreading ⟨later, hlater, hconsidered, hdevice⟩ field
    hfield value hvalue
  let follows : Rdbus.Data → Bool := fun input =>
    input.error.isNone && input.deviceName == reading.deviceName
  have hfound : (after.find? follows).isSome := by
    rw [List.find?_isSome]
    exact ⟨later, hlater, by simp [follows, hconsidered.1, hdevice]⟩
  rcases Option.isSome_iff_exists.mp hfound with ⟨next, hnext⟩
  rcases List.find?_eq_some_iff_append.mp hnext with ⟨hfollows, between, rest, rfl,
    hbetween⟩
  simp only [follows, Bool.and_eq_true, Option.isNone_iff_eq_none, beq_iff_eq] at hfollows
  have hnextConsidered : Considered devices next := by
    refine ⟨hfollows.1, ?_⟩
    rw [hfollows.2]
    exact hreading.2
  have hsplit : before ++ reading :: (between ++ next :: rest) =
      (before ++ reading :: between) ++ next :: rest := by
    simp
  rw [hsplit] at h
  have hstep := (comparableFrom_append.mp h).2.1 hnextConsidered
  have hlast : readingsOf next.deviceName ([] ++ (before ++ reading :: between)) =
      readingsOf next.deviceName before ++ [reading] := by
    have hnone : readingsOf next.deviceName between = [] := by
      rw [List.eq_nil_iff_forall_not_mem]
      intro other hother
      rcases mem_readingsOf.mp hother with ⟨hmem, hok, hname⟩
      have hnot := hbetween other hmem
      simp [follows, hok, hname, hfollows.2] at hnot
    have hself : readingsOf next.deviceName [reading] = [reading] := by
      simp [readingsOf, hreading.1, hfollows.2]
    rw [List.nil_append, readingsOf_append, ← List.singleton_append, readingsOf_append,
      hnone, hself, List.append_nil]
  have hwindow : InWindow duration
      (readingsOf next.deviceName ([] ++ (before ++ reading :: between))) field.name
      (field.timestamp, value) := by
    rw [hlast]
    exact ⟨_, reading, [], rfl, ⟨field, hfield, rfl, rfl, hvalue⟩, by simp⟩
  exact hstep field.name _ hwindow

/-! ## Runs -/

theorem getElem?_initial (limits : Config.Processors.Limits) (device : Bytes) :
    (initial limits)[device]? = if device ∈ limits.devices then some ∅ else none := by
  have hinserted : ∀ (devices : List Bytes) (store : Store) (device : Bytes),
      (devices.foldl (fun data deviceName => data.insertIfNew deviceName ∅) store)[device]? =
        if device ∈ devices then some (store[device]?.getD ∅) else store[device]? := by
    intro devices
    induction devices with
    | nil => simp
    | cons first devices ih =>
        intro store device
        rw [List.foldl_cons, ih, Std.TreeMap.getElem?_insertIfNew]
        by_cases hfirst : first = device
        · subst hfirst
          cases hstored : store[first]? <;>
            simp [← Std.TreeMap.isSome_getElem?_iff_mem, hstored]
        · simp [hfirst, Ne.symm hfirst]
  rw [initial, hinserted]
  simp

theorem describes_initial (limits : Config.Processors.Limits) :
    Describes limits.durationMinutes limits.devices [] (initial limits) := by
  constructor
  · intro device hdevice
    refine ⟨∅, ?_, represents_empty _⟩
    rw [getElem?_initial, if_pos hdevice]
  · intro device hdevice
    rw [getElem?_initial, if_neg hdevice]

theorem Describes.skip {duration : Int} {devices : List Bytes}
    {history : List Rdbus.Data} {store : Store} {input : Rdbus.Data}
    (h : Describes duration devices history store)
    (hskip : ¬ Considered devices input) :
    Describes duration devices (history ++ [input]) store := by
  refine ⟨?_, h.others⟩
  intro device hdevice
  rw [readingsOf_append]
  have hnone : readingsOf device [input] = [] := by
    rw [List.eq_nil_iff_forall_not_mem]
    intro other hother
    rcases mem_readingsOf.mp hother with ⟨hmem, hok, hname⟩
    rw [List.mem_singleton.mp hmem] at hok hname
    exact hskip ⟨hok, hname ▸ hdevice⟩
  rw [hnone, List.append_nil]
  exact h.configured device hdevice

theorem Describes.emit {duration : Int} {devices : List Bytes}
    {history : List Rdbus.Data} {store store' : Store} {input : Rdbus.Data}
    {fieldsMap : FieldsMap} (h : Describes duration devices history store)
    (hconsidered : Considered devices input)
    (hsets : Sets input.deviceName fieldsMap store store')
    (hrepresents : Represents duration
      (readingsOf input.deviceName (history ++ [input])) fieldsMap) :
    Describes duration devices (history ++ [input]) store' := by
  constructor
  · intro device hdevice
    rw [hsets device]
    by_cases hsame : input.deviceName = device
    · rw [if_pos hsame, ← hsame]
      exact ⟨fieldsMap, rfl, hrepresents⟩
    · rw [if_neg hsame, readingsOf_append]
      have hnone : readingsOf device [input] = [] := by
        simp [readingsOf, hsame]
      rw [hnone, List.append_nil]
      exact h.configured device hdevice
  · intro device hdevice
    rw [hsets device, if_neg, h.others device hdevice]
    rintro rfl
    exact hdevice hconsidered.2

theorem readingsOf_self {devices : List Bytes} {history : List Rdbus.Data}
    {input : Rdbus.Data} (h : Considered devices input) :
    readingsOf input.deviceName (history ++ [input]) =
      readingsOf input.deviceName history ++ [input] := by
  simp [readingsOf, h.1]

/-- The guards of the loop, for a store that describes the history. -/
theorem processFrom_skip {duration : Int} {devices : List Bytes}
    {history : List Rdbus.Data} {store : Store} {input : Rdbus.Data}
    (h : Describes duration devices history store)
    (hskip : ¬ Considered devices input) (outputList : List Data)
    (rest : List Rdbus.Data) :
    processFrom duration outputList (input :: rest) store =
      processFrom duration outputList rest store := by
  rw [processFrom]
  by_cases herror : input.error = none
  · have hdevice : input.deviceName ∉ devices := fun hmem => hskip ⟨herror, hmem⟩
    simp [herror, h.others _ hdevice]
  · rw [if_pos (Option.isSome_iff_ne_none.mpr herror)]

theorem processFrom_considered {duration : Int} {devices : List Bytes} {store : Store}
    {input : Rdbus.Data} {fieldsMap : FieldsMap} (hconsidered : Considered devices input)
    (hstored : store[input.deviceName]? = some fieldsMap) (outputList : List Data)
    (rest : List Rdbus.Data) :
    processFrom duration outputList (input :: rest) store =
      match processReading duration input store with
      | .ok output store => processFrom duration (outputList ++ [output]) rest store
      | .error e store => caught e store := by
  cases hreading : processReading duration input store <;>
    simp [processFrom, hconsidered.1, hstored, hreading]

theorem comparable_iff_inWindow {duration : Int} {readings : List Rdbus.Data}
    {fieldsMap : FieldsMap} (h : Represents duration readings fieldsMap) :
    Comparable duration fieldsMap ↔
      ∀ name tv, InWindow duration readings name tv → representable duration tv := by
  constructor
  · intro hcomparable name tv hwindow
    rw [← mem_window_iff] at hwindow
    have hknown : Known readings name := by
      by_contra hnot
      rw [window_of_not_known hnot] at hwindow
      cases hwindow
    exact hcomparable name _ ((h name).trans (if_pos hknown)) tv hwindow
  · intro hall name values hvalues tv htv
    rw [h name] at hvalues
    split at hvalues
    · cases hvalues
      exact hall name tv (mem_window_iff.mp htv)
    · cases hvalues

theorem processFrom_ok {duration : Int} {devices : List Bytes}
    {history inputs : List Rdbus.Data} {store : Store}
    (h : Describes duration devices history store)
    (hfields : ∀ input ∈ inputs, Considered devices input → input.fields ≠ [])
    (hcomparable : ComparableFrom duration devices history inputs)
    (outputList : List Data) :
    ∃ outputs store', processFrom duration outputList inputs store =
        .ok (outputList ++ outputs) store' ∧
      Emits duration devices history inputs outputs ∧
      Describes duration devices (history ++ inputs) store' := by
  induction inputs generalizing history store outputList with
  | nil =>
      refine ⟨[], store, ?_, .nil history, by simpa using h⟩
      rw [List.append_nil]
      rfl
  | cons input rest ih =>
      have hrest : ∀ input ∈ rest, Considered devices input → input.fields ≠ [] :=
        fun other hmem => hfields other (by simp [hmem])
      by_cases hconsidered : Considered devices input
      · rcases h.configured _ hconsidered.2 with ⟨fieldsMap, hstored, hrepresents⟩
        rcases processReading_ok hstored hrepresents
          ((comparable_iff_inWindow hrepresents).mpr (hcomparable.1 hconsidered))
          (hfields input (by simp) hconsidered) with
          ⟨fieldsMap', store', hrun, hsets, hrepresents'⟩
        rw [← readingsOf_self hconsidered] at hrepresents'
        rcases ih (h.emit hconsidered hsets hrepresents') hrest hcomparable.2
          (outputList ++ [outputOf input.deviceName fieldsMap']) with
          ⟨outputs, final, hfinal, hemits, hdescribes⟩
        refine ⟨_ :: outputs, final, ?_, .emit hconsidered
          (extremes_outputOf hrepresents' input.deviceName) hemits, ?_⟩
        · rw [processFrom_considered hconsidered hstored, hrun]
          simpa using hfinal
        · simpa using hdescribes
      · rcases ih (h.skip hconsidered) hrest hcomparable.2 outputList with
          ⟨outputs, final, hfinal, hemits, hdescribes⟩
        refine ⟨outputs, final, ?_, .skip hconsidered hemits, by simpa using hdescribes⟩
        rw [processFrom_skip h hconsidered, hfinal]

theorem processFrom_undefined {duration : Int} {devices : List Bytes}
    {history inputs : List Rdbus.Data} {store : Store}
    (h : Describes duration devices history store)
    (hfields : ∀ input ∈ inputs, Considered devices input → input.fields ≠ [])
    (hcomparable : ¬ ComparableFrom duration devices history inputs)
    (outputList : List Data) :
    ∃ store', processFrom duration outputList inputs store =
      .error .undefinedBehaviour store' := by
  induction inputs generalizing history store outputList with
  | nil => exact absurd trivial hcomparable
  | cons input rest ih =>
      have hrest : ∀ input ∈ rest, Considered devices input → input.fields ≠ [] :=
        fun other hmem => hfields other (by simp [hmem])
      by_cases hconsidered : Considered devices input
      · rcases h.configured _ hconsidered.2 with ⟨fieldsMap, hstored, hrepresents⟩
        rw [processFrom_considered hconsidered hstored]
        by_cases hhere : Comparable duration fieldsMap
        · rcases processReading_ok hstored hrepresents hhere
            (hfields input (by simp) hconsidered) with
            ⟨fieldsMap', store', hrun, hsets, hrepresents'⟩
          rw [← readingsOf_self hconsidered] at hrepresents'
          rw [hrun]
          refine ih (h.emit hconsidered hsets hrepresents') hrest ?_ _
          intro hlater
          exact hcomparable
            ⟨fun _ => (comparable_iff_inWindow hrepresents).mp hhere, hlater⟩
        · rw [processReading_undefined hstored hhere]
          exact ⟨store, rfl⟩
      · rw [processFrom_skip h hconsidered]
        refine ih (h.skip hconsidered) hrest ?_ outputList
        intro hlater
        exact hcomparable ⟨fun hyes => absurd hyes hconsidered, hlater⟩

/-- The calls of a run, one after the other. -/
theorem mapM_process {duration : Int} {devices : List Bytes}
    {history : List Rdbus.Data} {store : Store} {calls : List (List Rdbus.Data)}
    (h : Describes duration devices history store)
    (hfields : ∀ input ∈ calls.flatten, Considered devices input → input.fields ≠ []) :
    (ComparableFrom duration devices history calls.flatten →
      ∃ outputs store', calls.mapM (process duration) store = .ok outputs store' ∧
        EmitsCalls duration devices history calls outputs) ∧
    (¬ ComparableFrom duration devices history calls.flatten →
      ∃ store', calls.mapM (process duration) store =
        .error .undefinedBehaviour store') := by
  induction calls generalizing history store with
  | nil => exact ⟨fun _ => ⟨[], store, rfl, trivial⟩, fun hnot => absurd trivial hnot⟩
  | cons call calls ih =>
      rw [List.flatten_cons] at hfields ⊢
      rw [comparableFrom_append, List.mapM_cons]
      have hcall : ∀ input ∈ call, Considered devices input → input.fields ≠ [] :=
        fun input hmem => hfields input (List.mem_append_left _ hmem)
      have hcalls : ∀ input ∈ calls.flatten, Considered devices input →
          input.fields ≠ [] :=
        fun input hmem => hfields input (List.mem_append_right _ hmem)
      by_cases hhere : ComparableFrom duration devices history call
      · rcases processFrom_ok h hcall hhere [] with
          ⟨outputs, store', hrun, hemits, hdescribes⟩
        rw [bind_ok (show process duration call store = .ok outputs store' from hrun)]
        rcases ih hdescribes hcalls with ⟨hok, hundefined⟩
        constructor
        · rintro ⟨-, hlater⟩
          rcases hok hlater with ⟨rest, final, hfinal, hrest⟩
          refine ⟨outputs :: rest, final, ?_, hemits, hrest⟩
          rw [bind_ok hfinal]
          rfl
        · intro hnot
          rcases hundefined (fun hlater => hnot ⟨hhere, hlater⟩) with ⟨final, hfinal⟩
          exact ⟨final, bind_error hfinal⟩
      · rcases processFrom_undefined h hcall hhere [] with ⟨final, hfinal⟩
        constructor
        · rintro ⟨hyes, -⟩
          exact absurd hyes hhere
        · intro _
          exact ⟨final, bind_error hfinal⟩

/--
A run emits what it should exactly when no sum of a time point and the duration
leaves the range of the nanosecond counts.
-/
theorem emits_iff_representable (limits : Config.Processors.Limits)
    (calls : List (List Rdbus.Data))
    (hfields : ∀ input ∈ calls.flatten,
      Considered limits.devices input → input.fields ≠ []) :
    (∃ outputs store, calls.mapM (process limits.durationMinutes) (initial limits) =
        .ok outputs store ∧
      EmitsCalls limits.durationMinutes limits.devices [] calls outputs) ↔
    Representable limits.durationMinutes limits.devices calls.flatten := by
  rcases mapM_process (describes_initial limits) hfields with ⟨hok, hundefined⟩
  constructor
  · rintro ⟨outputs, store, hrun, -⟩
    apply representable_of_comparableFrom
    by_contra hnot
    rcases hundefined hnot with ⟨store', herror⟩
    rw [hrun] at herror
    cases herror
  · intro h
    exact hok (comparableFrom_of_representable h)

/-- The torque of one engine, `seconds` after the epoch. -/
def torqueAt (seconds : Int) (value : Int16) : Rdbus.Data where
  deviceName := str "Engine"
  fields := [⟨str "Torque", some (.int16 value), seconds * 1000000000⟩]

def oneMinute : Config.Processors.Limits := ⟨1, [str "Engine"]⟩

def torques : List (List Rdbus.Data) := [[torqueAt 0 700, torqueAt 50 900], [torqueAt 70 800]]

theorem emits_torques : ∃ outputs store,
    torques.mapM (process 1) (initial oneMinute) = .ok outputs store ∧
      EmitsCalls 1 [str "Engine"] [] torques outputs := by
  refine (emits_iff_representable oneMinute torques ?_).mpr ?_
  · have hfields : ∀ input ∈ torques.flatten, input.fields ≠ [] := by decide
    exact fun input hmem _ => hfields input hmem
  · have hall : ∀ input ∈ torques.flatten, ∀ field ∈ input.fields,
        fits (nanoseconds 1) && fits (field.timestamp + nanoseconds 1) := by decide
    intro before reading after heq _ _ field hfield value _
    exact hall reading (by rw [heq]; simp) field hfield

/-- 200000000 minutes are more nanoseconds than 64 bits hold. -/
def centuries : Config.Processors.Limits := ⟨200000000, [str "Engine"]⟩

theorem centuries_undefined :
    (∀ input ∈ torques.flatten, input.error = none ∧ input.fields ≠ []) ∧
    ¬ ∃ outputs store, torques.mapM (process 200000000) (initial centuries) =
        .ok outputs store ∧
      EmitsCalls 200000000 [str "Engine"] [] torques outputs := by
  refine ⟨by decide, ?_⟩
  rintro ⟨outputs, store, hrun, -⟩
  have hundefined : (match torques.mapM (process 200000000) (initial centuries) with
      | .ok _ _ => false
      | .error e _ => e = .undefinedBehaviour) = true := by
    decide +kernel
  rw [hrun] at hundefined
  cases hundefined

end Rdbus.Processing.Limits
