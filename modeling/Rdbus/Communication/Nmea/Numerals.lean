import Rdbus.Communication.Nmea.Isolation
import Mathlib.Data.List.TakeWhile

/-!
# Numbers in a sentence

A field denotes a number when all of its text is a numeral of the configured
type.  `std::stoll` and `std::stoull` read every such number, and also what
merely begins like one.
-/

namespace Rdbus.Communication.Nmea

open Foundation
open Config Config.Nmea

/-- An optional sign and digits, and nothing else. -/
def numeral (text : Bytes) : Option Int :=
  match takeSign text with
  | (negative, digits) =>
      if digits ≠ [] ∧ digits.all isDigit then some (signedValue negative (decimal digits))
      else none

/-- All of the text is a number of the type, of whatever size. -/
def Numeral (type : DataType) (text : Bytes) : Prop :=
  match type with
  | .int64 => ∃ value, numeral text = some value
  | .uint64 => ∃ value, numeral text = some value ∧ 0 ≤ value
  | _ => True

/-- The value a field has to get; `none` where its text denotes none. -/
def denoted (type : DataType) (text : Bytes) : Option (Option Variant) :=
  if text.isEmpty then some none
  else match type with
    | .int64 => (numeral text).bind fun value =>
        if -2 ^ 63 ≤ value ∧ value < 2 ^ 63 then some (some (.int64 (Int64.ofInt value)))
        else none
    | .uint64 => (numeral text).bind fun value =>
        if 0 ≤ value ∧ value < 2 ^ 64 then some (some (.uint64 (UInt64.ofNat value.toNat)))
        else none
    | _ => some (some (.string text))

/-- The conversion of the library does not take the text. -/
def Refused (type : DataType) (text : Bytes) : Prop :=
  match type with
  | .int64 => strtoll (cString text) = none
  | .uint64 => strtoull (cString text) = none
  | _ => False

/-- The types of `INT`, `UINT` and `STRING`. -/
def Countable (type : DataType) : Prop :=
  type = .int64 ∨ type = .uint64 ∨ type = .string

/-! ## One field -/

theorem spells_of_numeral {text : Bytes} {value : Int} (h : numeral text = some value) :
    Spells text value := by
  cases hsign : takeSign text with
  | mk negative digits =>
      simp only [numeral, hsign, Option.ite_none_right_eq_some, Option.some.injEq] at h
      obtain ⟨⟨hne, hdigits⟩, rfl⟩ := h
      rw [← List.append_nil digits] at hsign
      obtain ⟨text, rfl, hspells⟩ :=
        spells_of_takeSign ⟨hne, List.all_eq_true.mp hdigits⟩ hsign
      rwa [List.append_nil]

/-- The library reads all of a numeral: no NUL ends it early, no blank leads it. -/
theorem scanInteger_numeral {text : Bytes} {value : Int} (h : numeral text = some value) :
    ∃ negative magnitude, scanInteger (cString text) = some (negative, magnitude) ∧
      value = signedValue negative magnitude := by
  have hspells := spells_of_numeral h
  have whole : cString text = text :=
    List.takeWhile_eq_self_iff.mpr fun c hc => by simpa using hspells.ne_zero c hc
  rw [whole]
  exact scanInteger_of_begins hspells.begins

theorem signedValue_bounds (negative : Bool) (magnitude : Nat) :
    signedValue negative magnitude = magnitude ∨ signedValue negative magnitude = -magnitude := by
  cases negative <;> simp [signedValue]

/-- Of a whole numeral the library refuses exactly what does not fit. -/
theorem refused_iff_of_whole {type : DataType} (htype : Countable type) {text : Bytes}
    (hne : text ≠ []) (whole : Numeral type text) :
    Refused type text ↔ denoted type text = none := by
  have hempty : ¬ text.isEmpty := by simpa using hne
  rcases htype with rfl | rfl | rfl
  · obtain ⟨value, hvalue⟩ := whole
    obtain ⟨negative, magnitude, hscan, rfl⟩ := scanInteger_numeral hvalue
    simp [Refused, denoted, strtoll, hscan, hvalue, hempty]
  · obtain ⟨value, hvalue, hsign⟩ := whole
    obtain ⟨negative, magnitude, hscan, rfl⟩ := scanInteger_numeral hvalue
    have hbounds := signedValue_bounds negative magnitude
    simp [Refused, denoted, strtoull, hscan, hvalue, hempty, hsign]
    omega
  · simp [Refused, denoted, hempty]

theorem parseField_ok_iff {timestamp : Timestamp} {field : Field} (htype : Countable field.type)
    {text : Bytes} : (∃ parsed, parseField timestamp field text = .ok parsed) ↔
      text = [] ∨ ¬ Refused field.type text := by
  by_cases hempty : text = []
  case pos => simp [parseField, hempty]
  case neg =>
    have hne : ¬ text.isEmpty := by simpa using hempty
    obtain ⟨name, type⟩ := field
    rw [parseField, if_neg hne]
    rcases htype with rfl | rfl | rfl
    · cases hvalue : strtoll (cString text) <;>
        simp [Refused, convert, stoll, stoa, hvalue, hempty, Except.map, rethrown, bind,
          Except.bind]
    · cases hvalue : strtoull (cString text) <;>
        simp [Refused, convert, stoull, stoa, hvalue, hempty, Except.map, rethrown, bind,
          Except.bind]
    · simp [Refused, convert, rethrown, bind, Except.bind]

theorem strtoll_numeral {text : Bytes} {value : Int} (h : numeral text = some value)
    (hrange : -2 ^ 63 ≤ value ∧ value < 2 ^ 63) :
    strtoll (cString text) = some (Int64.ofInt value) := by
  obtain ⟨negative, magnitude, hscan, rfl⟩ := scanInteger_numeral h
  rw [strtoll, hscan]
  exact if_pos hrange

theorem strtoull_numeral {text : Bytes} {value : Int} (h : numeral text = some value)
    (hrange : 0 ≤ value ∧ value < 2 ^ 64) :
    strtoull (cString text) = some (UInt64.ofNat value.toNat) := by
  obtain ⟨negative, magnitude, hscan, rfl⟩ := scanInteger_numeral h
  have hbounds := signedValue_bounds negative magnitude
  have hmagnitude : magnitude < 2 ^ 64 := by omega
  have hword : UInt64.ofInt (signedValue negative magnitude) =
      UInt64.ofNat (signedValue negative magnitude).toNat := by
    rw [UInt64.ofInt, Int.emod_eq_of_lt hrange.1 hrange.2]
  rw [strtoull, hscan, ← hword]
  exact if_pos hmagnitude

/-- What a text denotes is what its field gets. -/
theorem parseField_denoted {timestamp : Timestamp} {field : Field}
    (htype : Countable field.type) {text : Bytes} {value : Option Variant}
    (h : denoted field.type text = some value) :
    parseField timestamp field text = .ok { name := field.name, value, timestamp } := by
  unfold denoted at h
  unfold parseField
  split at h
  case isTrue hempty =>
    cases h
    rw [if_pos hempty]
  case isFalse hempty =>
    rw [if_neg hempty]
    obtain ⟨name, type⟩ := field
    rcases htype with rfl | rfl | rfl
    · obtain ⟨number, hnumber, hfits⟩ := Option.bind_eq_some_iff.mp h
      split at hfits
      case isFalse => cases hfits
      case isTrue hrange =>
        cases hfits
        have hread := strtoll_numeral hnumber hrange
        simp [convert, stoll, stoa, hread, Except.map, rethrown, bind, Except.bind]
    · obtain ⟨number, hnumber, hfits⟩ := Option.bind_eq_some_iff.mp h
      split at hfits
      case isFalse => cases hfits
      case isTrue hrange =>
        cases hfits
        have hread := strtoull_numeral hnumber hrange
        simp [convert, stoull, stoa, hread, Except.map, rethrown, bind, Except.bind]
    · cases h
      simp [convert, rethrown, bind, Except.bind]

/-! ## A sentence -/

/-- Returned are exactly the sentences whose numbers are all numbers, with these values. -/
structure ConvertsExactly (response : Response) (sentences : List Sentence)
    (sentence : Sentence) (timestamp : Timestamp) : Prop where
  returns : (∃ fields, parse response sentences timestamp = .ok fields) ↔
    sentence.fields.length = response.fields.length ∧
      ∀ pair ∈ sentence.fields.zip response.fields,
        ∃ value, denoted pair.1.type pair.2 = some value
  values : ∀ fields, parse response sentences timestamp = .ok fields →
    fields.map some = (sentence.fields.zip response.fields).map fun pair =>
      (denoted pair.1.type pair.2).map fun value => { name := pair.1.name, value, timestamp }
  throws : (¬ ∃ fields, parse response sentences timestamp = .ok fields) →
    ∃ what, parse response sentences timestamp = .error (.interpreter what)

/-- Either the sentence is refused for some other reason, or no text only begins as a number. -/
def NothingSlips (response : Response) (sentence : Sentence) : Prop :=
  sentence.fields.length ≠ response.fields.length ∨
    (∃ pair ∈ sentence.fields.zip response.fields,
      pair.2 ≠ [] ∧ Refused pair.1.type pair.2) ∨
    ∀ pair ∈ sentence.fields.zip response.fields, pair.2 ≠ [] → Numeral pair.1.type pair.2

theorem parse_eq {response : Response} {sentences : List Sentence} {sentence : Sentence}
    (hfind : findSentence sentences response.sentenceId = .ok sentence) (timestamp : Timestamp) :
    (sentence.fields.length ≠ response.fields.length ∧
      ∃ e, parse response sentences timestamp = .error e) ∨
    (sentence.fields.length = response.fields.length ∧
      parse response sentences timestamp = (sentence.fields.zip response.fields).mapM
        fun pair => parseField timestamp pair.1 pair.2) := by
  unfold parse
  rw [hfind, ok_bind]
  by_cases hcount : sentence.fields.length ≠ response.fields.length
  · exact .inl ⟨hcount, _, if_pos hcount⟩
  · exact .inr ⟨not_not.mp hcount, if_neg hcount⟩

theorem whole_of_denoted {type : DataType} {text : Bytes} {value : Option Variant}
    (hne : text ≠ []) (h : denoted type text = some value) : Numeral type text := by
  have hempty : ¬ text.isEmpty := by simpa using hne
  unfold denoted at h
  rw [if_neg hempty] at h
  cases type with
  | int64 =>
      obtain ⟨number, hnumber, -⟩ := Option.bind_eq_some_iff.mp h
      exact ⟨number, hnumber⟩
  | uint64 =>
      obtain ⟨number, hnumber, hfits⟩ := Option.bind_eq_some_iff.mp h
      split at hfits
      case isTrue hrange => exact ⟨number, hnumber, hrange.1⟩
      case isFalse => cases hfits
  | none | string | float | double | uint16 | int16 | uint32 | int32 => trivial

/-- A text has a value when it is empty, or whole and not refused. -/
theorem denoted_iff {type : DataType} (htype : Countable type) {text : Bytes} :
    (∃ value, denoted type text = some value) ↔
      text = [] ∨ (Numeral type text ∧ ¬ Refused type text) := by
  by_cases hempty : text = []
  case pos =>
    subst hempty
    simp [denoted]
  case neg =>
    simp only [hempty, false_or]
    constructor
    · rintro ⟨value, h⟩
      have whole := whole_of_denoted hempty h
      rw [refused_iff_of_whole htype hempty whole, h]
      exact ⟨whole, fun hnone => by cases hnone⟩
    · rintro ⟨whole, taken⟩
      rw [refused_iff_of_whole htype hempty whole] at taken
      exact Option.ne_none_iff_exists'.mp taken

theorem nothingSlips_iff {response : Response} {sentence : Sentence}
    (hcount : sentence.fields.length = response.fields.length)
    (htypes : ∀ field ∈ sentence.fields, Countable field.type) :
    NothingSlips response sentence ↔
      ((∀ pair ∈ sentence.fields.zip response.fields,
        pair.2 = [] ∨ ¬ Refused pair.1.type pair.2) ↔
      ∀ pair ∈ sentence.fields.zip response.fields,
        ∃ value, denoted pair.1.type pair.2 = some value) := by
  have wanted : (∀ pair ∈ sentence.fields.zip response.fields,
      ∃ value, denoted pair.1.type pair.2 = some value) ↔
      ∀ pair ∈ sentence.fields.zip response.fields,
        pair.2 = [] ∨ (Numeral pair.1.type pair.2 ∧ ¬ Refused pair.1.type pair.2) :=
    forall₂_congr fun pair hpair => denoted_iff (htypes pair.1 (List.of_mem_zip hpair).1)
  rw [wanted]
  constructor
  · rintro (differs | ⟨pair, hpair, hne, hrefused⟩ | whole)
    · exact absurd hcount differs
    · constructor
      · intro taken
        exact absurd hrefused ((taken pair hpair).resolve_left hne)
      · intro taken
        exact absurd hrefused ((taken pair hpair).resolve_left hne).2
    · refine forall₂_congr fun pair hpair => ?_
      by_cases hne : pair.2 = []
      · simp [hne]
      · simp [hne, whole pair hpair hne]
  · intro same
    by_cases refused : ∃ pair ∈ sentence.fields.zip response.fields,
        pair.2 ≠ [] ∧ Refused pair.1.type pair.2
    · exact .inr (.inl refused)
    · have taken : ∀ pair ∈ sentence.fields.zip response.fields,
          pair.2 = [] ∨ ¬ Refused pair.1.type pair.2 := by
        intro pair hpair
        by_contra hboth
        push Not at hboth
        exact refused ⟨pair, hpair, hboth⟩
      exact .inr (.inr fun pair hpair hne => ((same.mp taken pair hpair).resolve_left hne).1)

theorem throws_of_not_returned {response : Response} {sentences : List Sentence}
    {timestamp : Timestamp} (hnone : ¬ ∃ fields, parse response sentences timestamp = .ok fields) :
    ∃ what, parse response sentences timestamp = .error (.interpreter what) := by
  cases hparse : parse response sentences timestamp with
  | ok fields => exact absurd ⟨fields, hparse⟩ hnone
  | error e =>
      obtain ⟨what, rfl⟩ := parse_throws hparse
      exact ⟨what, rfl⟩

theorem map_of_denoted {timestamp : Timestamp} {pairs : List (Field × Bytes)}
    (htypes : ∀ pair ∈ pairs, Countable pair.1.type)
    (hvalues : ∀ pair ∈ pairs, ∃ value, denoted pair.1.type pair.2 = some value)
    {fields : List Data.Field}
    (h : (pairs.mapM fun pair => parseField timestamp pair.1 pair.2) = .ok fields) :
    fields.map some = pairs.map fun pair =>
      (denoted pair.1.type pair.2).map fun value => { name := pair.1.name, value, timestamp } := by
  refine map_of_mapM_ok (fun pair hpair parsed hfield => ?_) h
  obtain ⟨value, hvalue⟩ := hvalues pair hpair
  rw [parseField_denoted (htypes pair hpair) hvalue] at hfield
  cases hfield
  rw [hvalue]
  rfl

theorem convertsExactly_iff {response : Response} {sentences : List Sentence}
    {sentence : Sentence} (timestamp : Timestamp)
    (hfind : findSentence sentences response.sentenceId = .ok sentence)
    (htypes : ∀ field ∈ sentence.fields, Countable field.type) :
    ConvertsExactly response sentences sentence timestamp ↔ NothingSlips response sentence := by
  rcases parse_eq hfind timestamp with ⟨hcount, e, herror⟩ | ⟨hcount, hparse⟩
  · refine ⟨fun _ => .inl hcount, fun _ => ⟨?_, ?_, throws_of_not_returned⟩⟩
    · simp [herror, hcount]
    · intro fields h
      rw [herror] at h
      cases h
  · have countable : ∀ pair ∈ sentence.fields.zip response.fields, Countable pair.1.type :=
      fun pair hpair => htypes pair.1 (List.of_mem_zip hpair).1
    have accepted : (∃ fields, parse response sentences timestamp = .ok fields) ↔
        ∀ pair ∈ sentence.fields.zip response.fields,
          pair.2 = [] ∨ ¬ Refused pair.1.type pair.2 := by
      rw [hparse, mapM_ok_iff]
      exact forall₂_congr fun pair hpair => parseField_ok_iff (countable pair hpair)
    rw [nothingSlips_iff hcount htypes, ← accepted]
    constructor
    · intro exactly
      simpa [hcount] using exactly.returns
    · intro returns
      refine ⟨by simp [returns, hcount], fun fields h => ?_, throws_of_not_returned⟩
      exact map_of_denoted countable (returns.mp ⟨fields, h⟩) (hparse ▸ h)

def sounder : Sentence :=
  ⟨str "DPT", [⟨str "Depth", .int64⟩, ⟨str "Count", .uint64⟩, ⟨str "Unit", .string⟩]⟩

theorem convertsExactly_iff_sounder :
    ConvertsExactly ⟨str "SD", str "DPT", [str "-12", [], str "M"]⟩ [sounder] sounder 0 := by
  refine (convertsExactly_iff 0 rfl (by simp [sounder, Countable])).mpr (.inr (.inr ?_))
  simp only [sounder, List.zip_cons_cons, List.zip_nil_right, List.forall_mem_cons]
  exact ⟨fun _ => ⟨-12, rfl⟩, fun hne => absurd rfl hne, fun _ => trivial, by simp⟩

def sounderJson : NMEAJson where
  name := some (str "Sounder")
  checksum := some false
  sentences := some [⟨some (str "DPT"), some
    [⟨some (str "Depth"), some (str "INT")⟩, ⟨some (str "Count"), some (str "UINT")⟩,
      ⟨some (str "Unit"), some (str "STRING")⟩]⟩]

/-- A damaged depth and a negative count are returned as numbers. -/
theorem damaged_converted :
    (parseNMEA sounderJson).map (fun parsed => parsed.1.sentences) = .ok [sounder] ∧
    Response.parse 0 (str "$SDDPT,12abc,-1,M\r\n") false =
      .ok ⟨str "SD", str "DPT", [str "12abc", str "-1", str "M"]⟩ ∧
    parse ⟨str "SD", str "DPT", [str "12abc", str "-1", str "M"]⟩ [sounder] 0 =
      .ok [⟨str "Depth", some (.int64 12), 0⟩,
        ⟨str "Count", some (.uint64 18446744073709551615), 0⟩,
        ⟨str "Unit", some (.string (str "M")), 0⟩] ∧
    ¬ ConvertsExactly ⟨str "SD", str "DPT", [str "12abc", str "-1", str "M"]⟩ [sounder]
      sounder 0 := by
  have returned : parse ⟨str "SD", str "DPT", [str "12abc", str "-1", str "M"]⟩ [sounder] 0 =
      .ok [⟨str "Depth", some (.int64 12), 0⟩,
        ⟨str "Count", some (.uint64 18446744073709551615), 0⟩,
        ⟨str "Unit", some (.string (str "M")), 0⟩] := rfl
  refine ⟨rfl, rfl, returned, fun exactly => ?_⟩
  have values := (exactly.returns.mp ⟨_, returned⟩).2
  obtain ⟨value, hvalue⟩ := values (⟨str "Depth", .int64⟩, str "12abc") List.mem_cons_self
  cases hvalue

end Rdbus.Communication.Nmea
