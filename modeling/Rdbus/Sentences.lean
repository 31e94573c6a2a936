import Rdbus.Communication.Nmea.Gaps
import Rdbus.Communication.Nmea.Numerals
import Rdbus.Communication.Nmea.Streaming
import Rdbus.Out.Documents

/-!
# From the talker to the client

A talker says numbers and texts in sentences of the configuration.  What a
client reads in the documents of all reads is what was said, sentence by
sentence, exactly when every read has a sentence and nothing harmful stands
between them.
-/

namespace Rdbus

open Foundation
open Config Config.Nmea
open Communication.Nmea

/-- What a text says in a field of the type. -/
inductive Says : DataType → Bytes → Shown.Value → Prop where
  | nothing (type : DataType) : Says type [] .nothing
  | text {text : Bytes} (h : text ≠ []) : Says .string text (.text text)
  | int {text : Bytes} {value : Int} (h : numeral text = some value)
      (hrange : -2 ^ 63 ≤ value ∧ value < 2 ^ 63) : Says .int64 text (.integer value)
  | uint {text : Bytes} {value : Int} (h : numeral text = some value)
      (hrange : 0 ≤ value ∧ value < 2 ^ 64) : Says .uint64 text (.integer value)

/-- The sentence is one of the configuration and says the entries, field by field. -/
def Means (settings : NMEA) (s : Spoken) (entries : List (Bytes × Shown.Value)) : Prop :=
  ∃ sentence, findSentence settings.sentences s.sentenceId = .ok sentence ∧
    sentence.fields.length = s.fields.length ∧
    List.Forall₂ (fun pair entry => entry.1 = pair.1.name ∧ Says pair.1.type pair.2 entry.2)
      (sentence.fields.zip s.fields) entries

/-- A sentence, what it says and the bytes behind it. -/
structure Turn where
  spoken : Spoken
  entries : List (Bytes × Shown.Value)
  gap : Bytes

/-- What a client is to read of it. -/
def Turn.shown (settings : NMEA) (localtime : Int → Tm) (timestamp : Timestamp)
    (turn : Turn) : Shown where
  device := settings.name
  content := .fields (turn.entries.map fun entry =>
    ⟨entry.1, formattedTime localtime timestamp, entry.2⟩)
  metadata := some turn.spoken.sentenceId

/-- What one `getData` takes from the line. -/
structure Passage where
  timestamp : Timestamp
  trash : Bytes
  turns : List Turn

namespace Passage

def read (passage : Passage) : Timestamp × Bytes :=
  (passage.timestamp, blob passage.trash (passage.turns.map fun turn => (turn.spoken, turn.gap)))

/-- No `$` outside of the sentences, which are of the configuration. -/
structure Of (settings : NMEA) (passage : Passage) : Prop where
  trash : dollar ∉ passage.trash
  gaps : ∀ turn ∈ passage.turns, dollar ∉ turn.gap
  means : ∀ turn ∈ passage.turns, Means settings turn.spoken turn.entries

def shown (settings : NMEA) (localtime : Int → Tm) (passage : Passage) :
    List Shown :=
  passage.turns.map (Turn.shown settings localtime passage.timestamp)

end Passage

/-! ## One sentence -/

theorem denoted_int {text : Bytes} {value : Int} (h : numeral text = some value)
    (hrange : -2 ^ 63 ≤ value ∧ value < 2 ^ 63) :
    denoted .int64 text = some (some (.int64 (Int64.ofInt value))) := by
  cases text with
  | nil => cases h
  | cons c text => simpa [denoted, h] using hrange

theorem denoted_uint {text : Bytes} {value : Int} (h : numeral text = some value)
    (hrange : 0 ≤ value ∧ value < 2 ^ 64) :
    denoted .uint64 text = some (some (.uint64 (UInt64.ofNat value.toNat))) := by
  cases text with
  | nil => cases h
  | cons c text => simpa [denoted, h, hrange.1] using hrange.2

theorem parseField_says {timestamp : Timestamp} {field : Field} {text : Bytes}
    {value : Shown.Value} (h : Says field.type text value) :
    ∃ variant, parseField timestamp field text =
        .ok { name := field.name, value := variant, timestamp } ∧
      Variant.shown variant = value := by
  obtain ⟨name, type⟩ := field
  cases h with
  | nothing => exact ⟨none, rfl, rfl⟩
  | text hne =>
      refine ⟨some (.string text), ?_, rfl⟩
      rw [parseField_string rfl, stringField, if_neg hne]
  | @int _ number hnumeral hrange =>
      refine ⟨_, parseField_denoted (.inl rfl) (denoted_int hnumeral hrange), ?_⟩
      rw [Variant.shown, Int64.toInt_ofInt_of_le hrange.1 hrange.2]
  | @uint _ number hnumeral hrange =>
      refine ⟨_, parseField_denoted (.inr (.inl rfl)) (denoted_uint hnumeral hrange), ?_⟩
      have hword : (UInt64.ofNat number.toNat).toNat = number.toNat :=
        UInt64.toNat_ofNat_of_lt' (by rw [UInt64.size]; omega)
      rw [Variant.shown, hword, Int.toNat_of_nonneg hrange.1]

theorem mapM_parseField {timestamp : Timestamp} {pairs : List (Field × Bytes)}
    {entries : List (Bytes × Shown.Value)}
    (h : List.Forall₂ (fun pair entry => entry.1 = pair.1.name ∧ Says pair.1.type pair.2 entry.2)
      pairs entries) :
    ∃ fields, (pairs.mapM fun (field, text) => parseField timestamp field text) = .ok fields ∧
      ∀ localtime, fields.map (Data.Field.shown localtime) =
        entries.map fun entry => ⟨entry.1, formattedTime localtime timestamp, entry.2⟩ := by
  induction h with
  | nil => exact ⟨[], rfl, fun _ => rfl⟩
  | @cons pair entry pairs entries hentry _ ih =>
      obtain ⟨field, text⟩ := pair
      obtain ⟨hname, hsays⟩ := hentry
      obtain ⟨fields, hfields, hshown⟩ := ih
      obtain ⟨variant, hvariant, hvalue⟩ := parseField_says hsays
      refine ⟨{ name := field.name, value := variant, timestamp } :: fields, ?_, ?_⟩
      · rw [List.mapM_cons, hfields]
        change (parseField timestamp field text >>= _) = _
        rw [hvariant]
        rfl
      · intro localtime
        rw [List.map_cons, List.map_cons, hshown, Data.Field.shown, hvalue, hname]

theorem Means.length {settings : NMEA} {s : Spoken} {entries : List (Bytes × Shown.Value)}
    (h : Means settings s entries) : entries.length = s.fields.length := by
  obtain ⟨sentence, -, hlength, hsays⟩ := h
  rw [← hsays.length_eq, List.length_zip, hlength, Nat.min_self]

section

variable {settings : NMEA} {localtime : Int → Tm} {timestamp : Timestamp} {turn : Turn}

theorem shown_of_harmless (h : Means settings turn.spoken turn.entries)
    (hgap : Harmless turn.gap) :
    (entry settings timestamp (dollar :: (turn.spoken.rest ++ turn.gap))).shown localtime =
      turn.shown settings localtime timestamp := by
  obtain ⟨sentence, hfind, hlength, hsays⟩ := h
  obtain ⟨fields, hfields, hshown⟩ := mapM_parseField hsays
  have hparsed : parse turn.spoken.toResponse
      settings.sentences timestamp = .ok fields := by
    rw [parse, hfind, ok_bind, if_neg (by simpa using hlength)]
    exact hfields
  rw [entry, interpret, parse_harmless hgap, ok_bind, hparsed, ok_bind]
  simp only [Data.shown, Turn.shown, hshown]

theorem harmless_of_shown (h : Means settings turn.spoken turn.entries)
    (hshown : (entry settings timestamp
      (dollar :: (turn.spoken.rest ++ turn.gap))).shown localtime =
        turn.shown settings localtime timestamp) : Harmless turn.gap := by
  have hcontent := congrArg Shown.content hshown
  cases herror : (entry settings timestamp
      (dollar :: (turn.spoken.rest ++ turn.gap))).error with
  | some error =>
      rw [Data.shown, herror] at hcontent
      cases hcontent
  | none =>
      simp only [Data.shown, Turn.shown, herror, Shown.Content.fields.injEq] at hcontent
      have hlength := congrArg List.length hcontent
      rw [List.length_map, List.length_map, h.length] at hlength
      exact harmless_of_fields herror hlength

end

/-! ## One read -/

theorem entries_read {settings : NMEA} {passage : Passage} (h : passage.Of settings)
    (timestamp : Timestamp) :
    entries settings timestamp passage.read.2 =
      if passage.turns = [] then [unidentifiable settings]
      else passage.turns.map fun turn =>
        entry settings timestamp (dollar :: (turn.spoken.rest ++ turn.gap)) := by
  have hfree : Delimited dollar passage.trash
      (passage.turns.map fun turn => turn.spoken.rest ++ turn.gap) := by
    refine ⟨h.trash, ?_⟩
    rintro rest hrest
    obtain ⟨turn, hturn, rfl⟩ := List.mem_map.mp hrest
    simp [turn.spoken.dollar_not_mem_rest, h.gaps turn hturn]
  have hread : passage.read.2 = joined dollar passage.trash
      (passage.turns.map fun turn => turn.spoken.rest ++ turn.gap) := by
    rw [Passage.read, blob_eq, List.map_map]
    rfl
  rw [hread, entries, split_joined hfree, List.map_map]
  simp only [List.map_eq_nil_iff, List.map_map]
  rfl

theorem shown_passage_iff {settings : NMEA} {passage : Passage} (h : passage.Of settings)
    (localtime : Int → Tm) :
    (entries settings passage.timestamp passage.read.2).map (Data.shown localtime) =
        passage.shown settings localtime ↔
      passage.turns ≠ [] ∧ ∀ turn ∈ passage.turns, Harmless turn.gap := by
  rw [entries_read h, Passage.shown]
  split
  case isTrue hnone => simp [hnone]
  case isFalse hsome =>
    rw [List.map_map, List.map_inj_left, and_iff_right hsome]
    refine forall₂_congr fun turn hmem => ?_
    exact ⟨harmless_of_shown (h.means turn hmem), shown_of_harmless (h.means turn hmem)⟩

/-- A read without sentences has a document, too. -/
theorem length_shown_le {settings : NMEA} {passage : Passage} (h : passage.Of settings)
    (localtime : Int → Tm) :
    (passage.shown settings localtime).length ≤
      ((entries settings passage.read.1 passage.read.2).map
        (Data.shown localtime)).length := by
  rw [entries_read h, Passage.shown, List.length_map, List.length_map]
  split
  case isTrue hnone => simp [hnone]
  case isFalse => rw [List.length_map]

/-! ## All of the reads -/

theorem receiveAll_eq (outside : Nat → Nat → UInt8) (settings : NMEA) (n : Nat)
    (reads : List (Timestamp × Bytes)) :
    receiveAll outside settings n reads =
      .ok (reads.flatMap fun read => entries settings read.1 read.2) := by
  induction reads generalizing n with
  | nil => rfl
  | cons read reads ih =>
      rw [receiveAll, receive_entries, ok_bind, ih, ok_bind, List.flatMap_cons]

def spokenDepth : Spoken where
  talkerID := str "SD"
  sentenceId := str "DPT"
  fields := [str "-12", [], str "M"]
  high := 49
  low := 56
  encodable := by decide
  digits := ⟨1, 8, by decide⟩

def depth : List (Bytes × Shown.Value) :=
  [(str "Depth", .integer (-12)), (str "Count", .nothing), (str "Unit", .text (str "M"))]

end Rdbus
