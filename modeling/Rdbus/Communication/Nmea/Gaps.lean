import Rdbus.Communication.Nmea.Encoding
import Rdbus.Communication.Nmea.Isolation

/-!
# Bytes between sentences

What follows a sentence up to the next `$` belongs to its chunk.  The sentence
survives only when that tail again ends a line and brings no `*` and no `,`
with it.
-/

namespace Rdbus.Communication.Nmea

open Foundation
open Config Config.Nmea

/-- A sentence as a talker sends it. -/
structure Spoken extends Response where
  high : UInt8
  low : UInt8
  encodable : Encodable toResponse
  digits : Denotes high low (xor toResponse.body)

namespace Spoken

/-- The sentence behind its `$`. -/
def rest (s : Spoken) : Bytes := s.body ++ [star, s.high, s.low, cr, lf]

def text (s : Spoken) : Bytes := s.encodeWithChecksum s.high s.low

def Configured (settings : NMEA) (s : Spoken) : Prop :=
  ∃ sentence, findSentence settings.sentences s.sentenceId = .ok sentence ∧
    sentence.fields.length = s.fields.length ∧
    ∀ field ∈ sentence.fields, field.type = .string

end Spoken

/-- The value of a `STRING` field. -/
def stringField (timestamp : Timestamp) (field : Field) (text : Bytes) : Data.Field :=
  { name := field.name, value := if text = [] then none else some (.string text), timestamp }

/-- The entry the sentence stands for. -/
def reading (settings : NMEA) (timestamp : Timestamp) (s : Spoken) : Data :=
  match findSentence settings.sentences s.sentenceId with
  | .ok sentence =>
      { deviceName := settings.name
        fields := (sentence.fields.zip s.fields).map fun (field, text) =>
          stringField timestamp field text
        metadata := some s.sentenceId }
  | .error e => errorEntry settings .nmea e.what

/-- The blob: trash, then each sentence with what follows it. -/
def blob (trash : Bytes) (turns : List (Spoken × Bytes)) : Bytes :=
  trash ++ turns.flatMap fun turn => turn.1.text ++ turn.2

/-- A gap that goes unnoticed. -/
def Harmless (gap : Bytes) : Prop :=
  gap = [] ∨ ((∃ front, gap = front ++ [cr, lf]) ∧ star ∉ gap ∧ comma ∉ gap)

namespace Spoken

variable {s : Spoken}

theorem not_mem_rest {c : UInt8} (hbody : c ∉ s.body) (hhex : hexDigit c = none)
    (hend : c ∉ [star, cr, lf]) : c ∉ s.rest := by
  obtain ⟨a, b, ha, hb, -⟩ := s.digits
  have hdigits := not_mem_digits hhex ha hb
  simp only [rest, List.mem_append, List.mem_cons, List.not_mem_nil, or_false, not_or] at *
  grind

theorem dollar_not_mem_rest (s : Spoken) : dollar ∉ s.rest := by
  apply not_mem_rest ?_ (by decide) (by decide)
  apply not_mem_joined (by decide)
  intro part hpart
  rcases List.mem_cons.mp hpart with rfl | hpart
  · rw [List.mem_append, not_or]
    exact ⟨s.encodable.talker.dollar, s.encodable.sentence.dollar⟩
  · exact (s.encodable.fields part hpart).dollar

theorem count_comma_rest (s : Spoken) : s.rest.count comma = s.fields.length := by
  obtain ⟨a, b, ha, hb, -⟩ := s.digits
  have hend : comma ∉ [star, s.high, s.low, cr, lf] := by
    have hdigits : comma ∉ [s.high, s.low] := not_mem_digits (by decide) ha hb
    simp_all [star, comma, cr, lf]
  rw [rest, List.count_append, List.count_eq_zero.mpr hend, Response.body,
    s.encodable.delimited.count_joined, Nat.add_zero]

theorem count_star_rest (s : Spoken) : s.rest.count star = 1 := by
  obtain ⟨a, b, ha, hb, -⟩ := s.digits
  have hend : star ∉ [s.high, s.low, cr, lf] := by
    have hdigits : star ∉ [s.high, s.low] := not_mem_digits (by decide) ha hb
    simp_all [star, cr, lf]
  rw [rest, List.count_append, List.count_cons_self, List.count_eq_zero.mpr hend,
    List.count_eq_zero.mpr s.encodable.star_not_mem_body]

end Spoken

/-! ## A harmless gap -/

theorem trailer_of_harmless {s : Spoken} {gap : Bytes} (h : Harmless gap) :
    ∃ more, Trailer (dollar :: (s.rest ++ gap)) s.body (s.high :: s.low :: more) := by
  obtain ⟨a, b, ha, hb, -⟩ := s.digits
  have hdigits : star ∉ [s.high, s.low] := not_mem_digits (by decide) ha hb
  rcases h with rfl | ⟨⟨front, rfl⟩, hstar, -⟩
  · exact ⟨[], by simp [Spoken.rest], s.encodable.star_not_mem_body, hdigits⟩
  · refine ⟨cr :: lf :: front, by simp [Spoken.rest], s.encodable.star_not_mem_body, ?_⟩
    simp_all [star, cr, lf]

theorem parse_harmless {s : Spoken} {gap : Bytes} (h : Harmless gap) (outside : UInt8)
    (validateChecksum : Bool) :
    Response.parse outside (dollar :: (s.rest ++ gap)) validateChecksum =
      .ok s.toResponse := by
  obtain ⟨a, b, ha, hb, hvalue⟩ := s.digits
  obtain ⟨more, htrailer⟩ := trailer_of_harmless (s := s) h
  have hchecksum : extractHex ((s.high :: s.low :: more ++ [cr, lf]).take 2) =
      (xor s.body).toNat := by
    rw [← hvalue]
    exact extractHex_digits ha hb
  have hvalid := htrailer.validate_ok hchecksum outside validateChecksum
  have hdata : dollar :: (s.rest ++ gap) =
      dollar :: joined comma (s.talkerID ++ s.sentenceId) s.fields ++
        star :: ([s.high, s.low, cr, lf] ++ gap) := by
    simp [Spoken.rest, Response.body]
  have hgap : comma ∉ gap := by
    rcases h with rfl | ⟨-, -, hgap⟩
    · simp
    · exact hgap
  have htail : comma ∉ star :: ([s.high, s.low, cr, lf] ++ gap) := by
    have hdigits : comma ∉ [s.high, s.low] := not_mem_digits (by decide) ha hb
    simp_all [star, comma, cr, lf]
  have hclean : ∀ part ∈ (dollar :: (s.talkerID ++ s.sentenceId)) :: s.fields,
      cleanBack (part ++ star :: ([s.high, s.low, cr, lf] ++ gap)) = .ok part :=
    fun part hpart => cleanBack_star (s.encodable.star_not_mem hpart) _
  rw [hdata] at hvalid ⊢
  rw [Response.parse_joined hvalid s.encodable.delimited htail (by simp) hclean,
    s.encodable.ofParts_eq]

theorem parseField_string {timestamp : Timestamp} {field : Field} {text : Bytes}
    (h : field.type = .string) :
    parseField timestamp field text = .ok (stringField timestamp field text) := by
  unfold parseField stringField
  rw [h]
  cases text <;> rfl

theorem entry_harmless {settings : NMEA} {s : Spoken} {gap : Bytes} (h : Harmless gap)
    (hconf : s.Configured settings) (timestamp : Timestamp) :
    entry settings timestamp (dollar :: (s.rest ++ gap)) = reading settings timestamp s := by
  obtain ⟨sentence, hfind, hlen, htype⟩ := hconf
  have hfields : parse s.toResponse settings.sentences timestamp =
      .ok ((sentence.fields.zip s.fields).map fun (field, text) =>
        stringField timestamp field text) := by
    unfold parse
    rw [hfind, ok_bind, if_neg (by simpa using hlen)]
    apply mapM_eq_ok_map
    rintro ⟨field, text⟩ hmem
    exact parseField_string (htype field (List.of_mem_zip hmem).1)
  rw [entry, interpret, parse_harmless h, ok_bind, hfields, ok_bind, reading, hfind]

/-! ## A gap that does harm -/

theorem length_parse {response : Response} {sentences : List Sentence}
    {timestamp : Timestamp} {fields : List Data.Field}
    (h : parse response sentences timestamp = .ok fields) :
    fields.length = response.fields.length := by
  unfold parse at h
  rcases bind_eq_ok.mp h with ⟨sentence, -, h⟩
  split_ifs at h with hlen
  rw [length_of_mapM_ok h, List.length_zip]
  omega

theorem entry_ok {settings : NMEA} {timestamp : Timestamp} {chunk : Bytes}
    (h : (entry settings timestamp chunk).error = none) :
    ∃ response, Response.parse 0 chunk settings.withChecksum = .ok response ∧
      (entry settings timestamp chunk).fields.length = response.fields.length := by
  cases hentry : interpret 0 settings timestamp chunk with
  | error e => simp [entry, hentry, errorEntry] at h
  | ok data =>
      rcases bind_eq_ok.mp hentry with ⟨response, hparse, hrest⟩
      rcases bind_eq_ok.mp hrest with ⟨fields, hfields, hdata⟩
      cases hdata
      refine ⟨response, hparse, ?_⟩
      rw [entry, hentry]
      exact length_parse hfields

theorem reading_configured {settings : NMEA} {s : Spoken} (hconf : s.Configured settings)
    (timestamp : Timestamp) : (reading settings timestamp s).error = none ∧
      (reading settings timestamp s).fields.length = s.fields.length := by
  obtain ⟨sentence, hfind, hlen, -⟩ := hconf
  simp [reading, hfind, hlen]

/-- The line end of a chunk that is longer than its sentence is the gap's own. -/
theorem gap_ends {front inner gap : Bytes}
    (h : front ++ [cr, lf] ++ gap = inner ++ [cr, lf]) :
    gap = [] ∨ ∃ rest, gap = rest ++ [cr, lf] := by
  have hreverse := congrArg List.reverse h
  rcases List.eq_nil_or_concat gap with rfl | ⟨gap, last, rfl⟩
  · exact .inl rfl
  rcases List.eq_nil_or_concat gap with rfl | ⟨gap, before, rfl⟩
  · simp [cr, lf] at hreverse
  · right
    refine ⟨gap, ?_⟩
    simp only [List.concat_eq_append, List.reverse_append, List.reverse_cons,
      List.reverse_nil, List.nil_append, List.cons_append, List.cons.injEq] at hreverse
    rw [List.concat_eq_append, List.concat_eq_append, hreverse.1, hreverse.2.1,
      List.append_assoc]
    rfl

/-- A gap that leaves an entry with as many fields goes unnoticed. -/
theorem harmless_of_fields {settings : NMEA} {s : Spoken} {gap : Bytes} {timestamp : Timestamp}
    (herror : (entry settings timestamp (dollar :: (s.rest ++ gap))).error = none)
    (hlen : (entry settings timestamp (dollar :: (s.rest ++ gap))).fields.length =
      s.fields.length) : Harmless gap := by
  obtain ⟨response, hparse, hfields⟩ := entry_ok herror
  obtain ⟨inner, hinner, hstar, hcount⟩ := Response.of_parse_ok (by simp) hparse
  have hrest : s.rest ++ gap = inner ++ [cr, lf] := by simpa using hinner
  have hstars := congrArg (List.count star) hrest
  have hcommas := congrArg (List.count comma) hrest
  rw [List.count_append, List.count_append, s.count_star_rest] at hstars
  rw [List.count_append, List.count_append, s.count_comma_rest] at hcommas
  have hend₁ : List.count star [cr, lf] = 0 := by decide
  have hend₂ : List.count comma [cr, lf] = 0 := by decide
  have hends : s.body ++ [star, s.high, s.low] ++ [cr, lf] ++ gap = inner ++ [cr, lf] := by
    simpa [Spoken.rest] using hrest
  rcases gap_ends hends with hgap | hgap
  · exact .inl hgap
  · exact .inr ⟨hgap, List.count_eq_zero.mp (by omega), List.count_eq_zero.mp (by omega)⟩

theorem harmless_of_entry {settings : NMEA} {s : Spoken} {gap : Bytes}
    {timestamp : Timestamp} (hconf : s.Configured settings)
    (h : entry settings timestamp (dollar :: (s.rest ++ gap)) = reading settings timestamp s) :
    Harmless gap := by
  obtain ⟨herror, hlen⟩ := reading_configured hconf timestamp
  exact harmless_of_fields (h ▸ herror) (h ▸ hlen)

/-! ## The blob -/

theorem blob_eq (trash : Bytes) (turns : List (Spoken × Bytes)) :
    blob trash turns = joined dollar trash (turns.map fun turn => turn.1.rest ++ turn.2) := by
  simp [blob, joined, Spoken.text, Spoken.rest, Response.encodeWithChecksum, List.flatMap_map]

theorem receive_blob_iff {settings : NMEA} {timestamp : Timestamp} {outside : Nat → UInt8}
    {trash : Bytes} {turns : List (Spoken × Bytes)} (htrash : dollar ∉ trash)
    (hgaps : ∀ turn ∈ turns, dollar ∉ turn.2)
    (hconf : ∀ turn ∈ turns, turn.1.Configured settings) :
    receive outside (.ok (blob trash turns)) timestamp settings =
        .ok (turns.map fun turn => reading settings timestamp turn.1) ↔
      turns ≠ [] ∧ ∀ turn ∈ turns, Harmless turn.2 := by
  have hfree : Delimited dollar trash (turns.map fun turn => turn.1.rest ++ turn.2) := by
    refine ⟨htrash, ?_⟩
    rintro rest hrest
    obtain ⟨turn, hturn, rfl⟩ := List.mem_map.mp hrest
    simp [turn.1.dollar_not_mem_rest, hgaps turn hturn]
  rw [blob_eq, receive_joined outside settings timestamp hfree]
  by_cases hturns : turns = []
  · simp [hturns]
  · rw [if_neg (by simpa using hturns), List.map_map, Except.ok.injEq, List.map_inj_left]
    constructor
    · intro hentries
      exact ⟨hturns, fun turn hturn => harmless_of_entry (hconf turn hturn) (hentries turn hturn)⟩
    · rintro ⟨-, hharmless⟩ turn hturn
      exact entry_harmless (hharmless turn hturn) (hconf turn hturn) timestamp

/-- `$VDVHW,11,*5B`, whose second field is empty. -/
def spokenSpeed : Spoken where
  talkerID := str "VD"
  sentenceId := str "VHW"
  fields := [str "11", []]
  high := 53
  low := 66
  encodable := by decide
  digits := ⟨5, 11, by decide⟩

def speedSettings : NMEA :=
  ⟨[⟨str "VHW", [⟨str "Speed", .string⟩, ⟨str "Unit", .string⟩]⟩], str "Sensor", true⟩

theorem spokenSpeed_configured : spokenSpeed.Configured speedSettings :=
  ⟨_, rfl, rfl, by decide⟩

theorem receive_speed_twice :
    receive (fun _ => 0) (.ok (blob (str "8H86L0Yh")
        [(spokenSpeed, []), (spokenSpeed, str "!AIVDM\r\n")])) 0 speedSettings =
      .ok [reading speedSettings 0 spokenSpeed, reading speedSettings 0 spokenSpeed] := by
  have hturns : ∀ turn ∈ [(spokenSpeed, []), (spokenSpeed, str "!AIVDM\r\n")],
      dollar ∉ turn.2 ∧ turn.1 = spokenSpeed ∧ Harmless turn.2 := by
    rintro turn hturn
    rcases List.mem_pair.mp hturn with rfl | rfl
    · exact ⟨by decide, rfl, .inl rfl⟩
    · exact ⟨by decide, rfl, .inr ⟨⟨str "!AIVDM", by decide⟩, by decide, by decide⟩⟩
  refine (receive_blob_iff (by decide) (fun turn hturn => (hturns turn hturn).1) ?_).mpr
    ⟨by simp, fun turn hturn => (hturns turn hturn).2.2⟩
  rintro turn hturn
  rw [(hturns turn hturn).2.1]
  exact spokenSpeed_configured

/-- An encapsulated sentence behind it brings a second `*` into the chunk. -/
theorem encapsulated_behind_loses :
    spokenSpeed.Configured speedSettings ∧ dollar ∉ str "!AIVDM,1,1,,A,H86L0Yh,0*42\r\n" ∧
      receive (fun _ => 0)
          (.ok (blob [] [(spokenSpeed, str "!AIVDM,1,1,,A,H86L0Yh,0*42\r\n")])) 0
          speedSettings ≠
        .ok [reading speedSettings 0 spokenSpeed] :=
  ⟨spokenSpeed_configured, by decide, by decide⟩

end Rdbus.Communication.Nmea
