import Rdbus.Communication.Nmea.Checksum
import Rdbus.Communication.Nmea.Communicator

/-!
# One entry for every chunk

A chunk starts with its `$`, so the structural test fails on the last character
of a chunk of one byte whatever lies in front of it.  Everything else that can
go wrong in a chunk is one of the two exceptions `receive` catches.
-/

namespace Rdbus.Communication.Nmea

open Foundation
open Config Config.Nmea

/-! ## Splitting -/

theorem splitStep_plain {c : UInt8} (hc : c ≠ dollar) (chunks : List Bytes)
    (chunk : Bytes) : splitStep (chunks ++ [chunk]) c = chunks ++ [chunk ++ [c]] := by
  simp [splitStep, hc, appendToBack]

theorem splitStep_dollar (chunks : List Bytes) :
    splitStep chunks dollar = chunks ++ [[dollar]] := by
  simp [splitStep, appendToBack]

theorem foldl_splitStep_plain {rest : Bytes} (hfree : dollar ∉ rest)
    (chunks : List Bytes) (chunk : Bytes) :
    rest.foldl splitStep (chunks ++ [chunk]) = chunks ++ [chunk ++ rest] := by
  induction rest generalizing chunk with
  | nil => simp
  | cons c rest ih =>
      have hc : c ≠ dollar := by
        rintro rfl
        exact hfree (by simp)
      rw [List.foldl_cons, splitStep_plain hc, ih (by simp_all)]
      simp

theorem foldl_splitStep_trash {trash : Bytes} (hfree : dollar ∉ trash) :
    trash.foldl splitStep [] = [] := by
  induction trash with
  | nil => rfl
  | cons c trash ih =>
      have hc : c ≠ dollar := by
        rintro rfl
        exact hfree (by simp)
      rw [List.foldl_cons, show splitStep [] c = [] by simp [splitStep, hc, appendToBack]]
      exact ih (by simp_all)

theorem foldl_splitStep_chunks {rests : List Bytes} (hfree : ∀ rest ∈ rests, dollar ∉ rest)
    (chunks : List Bytes) :
    (rests.flatMap (dollar :: ·)).foldl splitStep chunks =
      chunks ++ rests.map (dollar :: ·) := by
  induction rests generalizing chunks with
  | nil => simp
  | cons rest rests ih =>
      rw [List.flatMap_cons, List.foldl_append, List.foldl_cons, splitStep_dollar,
        foldl_splitStep_plain (hfree rest (by simp)), ih fun r hr => hfree r (by simp [hr])]
      simp

theorem split_joined {trash : Bytes} {rests : List Bytes}
    (h : Delimited dollar trash rests) :
    split (joined dollar trash rests) = rests.map (dollar :: ·) := by
  unfold split joined
  rw [List.foldl_append, foldl_splitStep_trash h.first, foldl_splitStep_chunks h.parts,
    List.nil_append]

/-! ## What a chunk can throw -/

theorem Response.parse_outside (outside : UInt8) (rest : Bytes) (validateChecksum : Bool) :
    Response.parse outside (dollar :: rest) validateChecksum =
      Response.parse 0 (dollar :: rest) validateChecksum := by
  by_cases hframed : Framed (dollar :: rest)
  · obtain ⟨inner, hrest⟩ := hframed
    obtain ⟨response, -, hparse⟩ := Response.parse_framed inner
    rw [hrest, hparse, hparse, validate_framed, validate_framed]
  · rw [Response.parse_of_invalid (validate_not_framed (by simp) hframed validateChecksum),
      Response.parse_of_invalid (validate_not_framed (by simp) hframed validateChecksum)]

theorem validate_throws {outside : UInt8} {data : Bytes} {validateChecksum : Bool}
    {e : Throw} (hne : data ≠ []) (h : validate outside data validateChecksum = .error e) :
    ∃ what, e = .response what := by
  by_cases hframed : Framed data
  · obtain ⟨rest, rfl⟩ := hframed
    rw [validate_framed] at h
    split_ifs at h with hcount hflag hmem
    · exact ⟨_, (Except.error.inj h).symm⟩
    · obtain ⟨body, trailer, htrailer⟩ := exists_trailer hmem (by omega)
      rw [htrailer.checksum_eq, ok_bind] at h
      split_ifs at h
      exact ⟨_, (Except.error.inj h).symm⟩
    · exact ⟨_, (Except.error.inj h).symm⟩
  · rw [validate_not_framed hne hframed] at h
    exact ⟨_, (Except.error.inj h).symm⟩

theorem Response.parse_throws {outside : UInt8} {data : Bytes} {validateChecksum : Bool}
    {e : Throw} (hne : data ≠ [])
    (h : Response.parse outside data validateChecksum = .error e) :
    ∃ what, e = .response what := by
  cases hvalid : validate outside data validateChecksum with
  | error e' =>
      rw [Response.parse_of_invalid hvalid] at h
      cases h
      exact validate_throws hne hvalid
  | ok u =>
      by_cases hframed : Framed data
      · obtain ⟨rest, rfl⟩ := hframed
        obtain ⟨response, -, hparse⟩ := Response.parse_framed rest
        rw [hparse, hvalid, ok_bind] at h
        cases h
      · rw [validate_not_framed hne hframed] at hvalid
        cases hvalid

theorem convert_throws {type : DataType} {text : Bytes} {e : Throw}
    (h : convert type text = .error e) :
    (∃ what, e = .std what) ∨ ∃ what, e = .interpreter what := by
  cases type with
  | none | string => cases h
  | int64 | uint64 | double => exact .inl ⟨_, stoa_throws (of_map_eq_error h)⟩
  | float | uint16 | int16 | uint32 | int32 => exact .inr ⟨_, (Except.error.inj h).symm⟩

theorem parseField_throws {timestamp : Timestamp} {field : Field} {text : Bytes}
    {e : Throw} (h : parseField timestamp field text = .error e) :
    ∃ what, e = .interpreter what := by
  unfold parseField at h
  split_ifs at h
  cases hconvert : convert field.type text with
  | ok value => simp [hconvert, rethrown] at h
  | error e' =>
      rw [hconvert] at h
      rcases convert_throws hconvert with ⟨what, rfl⟩ | ⟨what, rfl⟩ <;>
        exact ⟨_, (Except.error.inj h).symm⟩

theorem parse_throws {response : Response} {sentences : List Sentence}
    {timestamp : Timestamp} {e : Throw} (h : parse response sentences timestamp = .error e) :
    ∃ what, e = .interpreter what := by
  unfold parse findSentence at h
  split at h
  · rw [ok_bind] at h
    split_ifs at h
    · exact ⟨_, (Except.error.inj h).symm⟩
    · obtain ⟨⟨field, text⟩, -, hfield⟩ := mapM_error h
      exact parseField_throws hfield
  · exact ⟨_, (Except.error.inj h).symm⟩

theorem parseField_eq_error {field : Field} {text : Bytes} {e : Throw}
    (timestamp : Timestamp) (hne : text ≠ []) (h : convert field.type text = .error e) :
    ∃ e', parseField timestamp field text = .error e' := by
  unfold parseField
  rw [if_neg (by simpa using hne), h]
  rcases convert_throws h with ⟨what, rfl⟩ | ⟨what, rfl⟩ <;> exact ⟨_, rfl⟩

/-! ## Entries -/

/-- The entry of a chunk, a function of the configuration, the time and the chunk. -/
def entry (settings : NMEA) (timestamp : Timestamp) (chunk : Bytes) : Data :=
  match interpret 0 settings timestamp chunk with
  | .ok data => data
  | .error e => errorEntry settings .nmea e.what

theorem interpret_outside (outside : UInt8) (settings : NMEA) (timestamp : Timestamp)
    (rest : Bytes) : interpret outside settings timestamp (dollar :: rest) =
      interpret 0 settings timestamp (dollar :: rest) := by
  unfold interpret
  rw [Response.parse_outside]

theorem interpret_throws {settings : NMEA} {timestamp : Timestamp} {rest : Bytes}
    {e : Throw} (h : interpret 0 settings timestamp (dollar :: rest) = .error e) :
    (∃ what, e = .response what) ∨ ∃ what, e = .interpreter what := by
  unfold interpret at h
  cases hresponse : Response.parse 0 (dollar :: rest) settings.withChecksum with
  | error e' =>
      rw [hresponse, error_bind] at h
      cases h
      exact .inl (Response.parse_throws (by simp) hresponse)
  | ok response =>
      rw [hresponse, ok_bind] at h
      cases hfields : parse response settings.sentences timestamp with
      | error e' =>
          rw [hfields, error_bind] at h
          cases h
          exact .inr (parse_throws hfields)
      | ok fields =>
          rw [hfields, ok_bind] at h
          cases h

theorem caught_interpret (outside : UInt8) (settings : NMEA) (timestamp : Timestamp)
    (rest : Bytes) :
    caught settings (interpret outside settings timestamp (dollar :: rest)) =
      .ok (entry settings timestamp (dollar :: rest)) := by
  rw [interpret_outside, entry]
  cases hentry : interpret 0 settings timestamp (dollar :: rest) with
  | ok data => rfl
  | error e => rcases interpret_throws hentry with ⟨what, rfl⟩ | ⟨what, rfl⟩ <;> rfl

theorem receiveFrom_chunks (outside : Nat → UInt8) (settings : NMEA)
    (timestamp : Timestamp) (k : Nat) (rests : List Bytes) :
    receiveFrom outside settings timestamp k (rests.map (dollar :: ·)) =
      .ok (rests.map fun rest => entry settings timestamp (dollar :: rest)) := by
  induction rests generalizing k with
  | nil => rfl
  | cons rest rests ih =>
      rw [List.map_cons, receiveFrom, caught_interpret, ok_bind, ih, ok_bind, List.map_cons]

def unidentifiable (settings : NMEA) : Data :=
  errorEntry settings .nmea (str "Unidentifiable response!")

theorem receive_joined (outside : Nat → UInt8) (settings : NMEA) (timestamp : Timestamp)
    {trash : Bytes} {rests : List Bytes} (h : Delimited dollar trash rests) :
    receive outside (.ok (joined dollar trash rests)) timestamp settings =
      if rests = [] then .ok [unidentifiable settings]
      else .ok (rests.map fun rest => entry settings timestamp (dollar :: rest)) := by
  cases rests with
  | nil =>
      rw [receive, split_joined h]
      rfl
  | cons rest rests =>
      rw [if_neg (by simp), receive, split_joined h]
      exact receiveFrom_chunks outside settings timestamp 0 (rest :: rests)

/-! ## Chunks that are rejected -/

/-- Two digits behind the `*` that denote another number than the exclusive or. -/
def WrongChecksum (chunk : Bytes) : Prop :=
  ∃ body h₁ h₂ a b rest, chunk = dollar :: body ++ star :: h₁ :: h₂ :: rest ∧
    star ∉ body ∧ hexDigit h₁ = some a ∧ hexDigit h₂ = some b ∧
    16 * a + b ≠ (xor body).toNat

inductive Rejected (settings : NMEA) (chunk : Bytes) : Prop where
  | manyStars (h : 1 < chunk.count star)
  | noEnd (h : ¬ ∃ front, chunk = front ++ [cr, lf])
  | noChecksum (hflag : settings.withChecksum) (h : star ∉ chunk)
  | checksum (hflag : settings.withChecksum) (h : WrongChecksum chunk)
  | unknownId (response : Response)
      (hparse : Response.parse 0 chunk settings.withChecksum = .ok response)
      (h : ∀ sentence ∈ settings.sentences, sentence.id ≠ response.sentenceId)
  | fieldCount (response : Response) (sentence : Sentence)
      (hparse : Response.parse 0 chunk settings.withChecksum = .ok response)
      (hfind : findSentence settings.sentences response.sentenceId = .ok sentence)
      (h : sentence.fields.length ≠ response.fields.length)
  | field (response : Response) (sentence : Sentence) (field : Field) (text : Bytes)
      (hparse : Response.parse 0 chunk settings.withChecksum = .ok response)
      (hfind : findSentence settings.sentences response.sentenceId = .ok sentence)
      (hmem : (field, text) ∈ sentence.fields.zip response.fields) (hne : text ≠ [])
      (h : ∃ e, convert field.type text = .error e)

theorem entry_of_response {settings : NMEA} {timestamp : Timestamp} {chunk : Bytes}
    (h : ∃ what, Response.parse 0 chunk settings.withChecksum = .error (.response what)) :
    ∃ what, entry settings timestamp chunk = errorEntry settings .nmea what := by
  obtain ⟨what, hparse⟩ := h
  refine ⟨what, ?_⟩
  rw [entry, interpret, hparse, error_bind]
  rfl

theorem entry_of_parse {settings : NMEA} {timestamp : Timestamp} {chunk : Bytes}
    {response : Response} {e : Throw}
    (hparse : Response.parse 0 chunk settings.withChecksum = .ok response)
    (h : parse response settings.sentences timestamp = .error e) :
    ∃ what, entry settings timestamp chunk = errorEntry settings .nmea what := by
  refine ⟨e.what, ?_⟩
  rw [entry, interpret, hparse, ok_bind, h, error_bind]

theorem WrongChecksum.parse_error {chunk : Bytes} (hne : chunk ≠ [])
    (h : WrongChecksum chunk) :
    ∃ what, Response.parse 0 chunk true = .error (.response what) := by
  by_cases htrailer : ∃ body trailer, Trailer chunk body trailer
  · obtain ⟨body, trailer, htrailer⟩ := htrailer
    obtain ⟨body', h₁, h₂, a, b, rest, heq, hbody, ha, hb, hvalue⟩ := h
    have hparts : body ++ star :: (trailer ++ [cr, lf]) = body' ++ star :: h₁ :: h₂ :: rest := by
      simpa using htrailer.eq.symm.trans heq
    have htake := congrArg (List.takeWhile (· ≠ star)) hparts
    rw [takeWhile_ne_star htrailer.body, takeWhile_ne_star hbody] at htake
    obtain rfl : body = body' := by simpa using htake
    have hdigits : trailer ++ [cr, lf] = h₁ :: h₂ :: rest := by simpa using hparts
    apply htrailer.parse_error
    rw [hdigits, List.take_succ_cons, List.take_succ_cons, List.take_zero,
      extractHex_digits ha hb]
    exact_mod_cast hvalue
  · exact parse_without_trailer hne htrailer 0

theorem Response.parse_manyStars {data : Bytes} (hne : data ≠ []) (h : 1 < data.count star)
    (validateChecksum : Bool) :
    ∃ what, Response.parse 0 data validateChecksum = .error (.response what) := by
  by_cases hframed : Framed data
  · obtain ⟨rest, rfl⟩ := hframed
    have hcount : 1 < rest.count star := by
      simpa [List.count_append, dollar, star, cr, lf] using h
    exact Response.parse_rejected ((validate_framed _ _ _).trans (if_pos hcount))
  · exact Response.parse_rejected (validate_not_framed hne hframed _)

theorem parse_of_unknownId {response : Response} {sentences : List Sentence}
    (h : ∀ sentence ∈ sentences, sentence.id ≠ response.sentenceId) (timestamp : Timestamp) :
    ∃ e, parse response sentences timestamp = .error e := by
  have hfind : sentences.find? (fun sentence => sentence.id = response.sentenceId) = none := by
    simpa using h
  unfold parse findSentence
  rw [hfind]
  exact ⟨_, rfl⟩

/-- A field that cannot be converted fails the whole sentence. -/
theorem parse_of_field {response : Response} {sentences : List Sentence} {sentence : Sentence}
    {field : Field} {text : Bytes}
    (hfind : findSentence sentences response.sentenceId = .ok sentence)
    (hmem : (field, text) ∈ sentence.fields.zip response.fields) (hne : text ≠ [])
    (h : ∃ e, convert field.type text = .error e) (timestamp : Timestamp) :
    ∃ e, parse response sentences timestamp = .error e := by
  cases hfields : parse response sentences timestamp with
  | error e => exact ⟨e, rfl⟩
  | ok fields =>
      unfold parse at hfields
      rw [hfind, ok_bind] at hfields
      split_ifs at hfields
      obtain ⟨e, hconvert⟩ := h
      obtain ⟨e', hfield⟩ := parseField_eq_error timestamp hne hconvert
      obtain ⟨result, hresult⟩ := ok_of_mapM_ok hfields hmem
      cases hfield.symm.trans hresult

theorem Rejected.entry_eq {settings : NMEA} {rest : Bytes}
    (h : Rejected settings (dollar :: rest)) (timestamp : Timestamp) :
    ∃ what, entry settings timestamp (dollar :: rest) = errorEntry settings .nmea what := by
  have hne : dollar :: rest ≠ [] := by simp
  cases h with
  | manyStars h => exact entry_of_response (Response.parse_manyStars hne h _)
  | noEnd h =>
      apply entry_of_response
      apply Response.parse_rejected
      apply validate_not_framed hne
      rintro ⟨inner, hrest⟩
      exact h ⟨dollar :: inner, hrest⟩
  | noChecksum hflag h =>
      apply entry_of_response
      rw [hflag]
      apply parse_without_trailer hne
      rintro ⟨body, trailer, htrailer⟩
      apply h
      rw [htrailer.eq]
      simp
  | checksum hflag h =>
      apply entry_of_response
      rw [hflag]
      exact h.parse_error hne
  | unknownId response hparse h =>
      obtain ⟨e, he⟩ := parse_of_unknownId h timestamp
      exact entry_of_parse hparse he
  | fieldCount response sentence hparse hfind h =>
      apply entry_of_parse hparse
      unfold parse
      rw [hfind, ok_bind, if_pos h]
  | field response sentence field text hparse hfind hmem hne h =>
      obtain ⟨e, he⟩ := parse_of_field hfind hmem hne h timestamp
      exact entry_of_parse hparse he

/-! ## The blob -/

/-- The bytes in front of the first `$` and those behind each `$`. -/
structure Chunks (b trash : Bytes) (rests : List Bytes) : Prop where
  eq : b = joined dollar trash rests
  free : Delimited dollar trash rests
  length : rests.length = b.count dollar

/-- One entry for every `$`, or a single error; a rejected chunk has no fields. -/
theorem receive_isolates (settings : NMEA) (timestamp : Timestamp) (b : Bytes) :
    ∃ trash rests, Chunks b trash rests ∧
      (∀ outside, receive outside (.ok b) timestamp settings = .ok
        (if dollar ∈ b then rests.map fun rest => entry settings timestamp (dollar :: rest)
        else [unidentifiable settings])) ∧
      ∀ rest ∈ rests, Rejected settings (dollar :: rest) →
        ∃ what, entry settings timestamp (dollar :: rest) = errorEntry settings .nmea what := by
  obtain ⟨trash, rests, rfl, hfree⟩ := exists_joined dollar b
  refine ⟨trash, rests, ⟨rfl, hfree, hfree.count_joined.symm⟩, ?_, ?_⟩
  · intro outside
    have hmem : dollar ∈ joined dollar trash rests ↔ rests ≠ [] := by
      rw [← List.count_pos_iff, hfree.count_joined, List.length_pos_iff]
    rw [receive_joined outside settings timestamp hfree]
    by_cases hrests : rests = []
    · rw [if_pos hrests, if_neg (by rw [hmem]; simp [hrests])]
    · rw [if_neg hrests, if_pos (hmem.mpr hrests)]
  · rintro rest - hrejected
    exact hrejected.entry_eq timestamp

/-- The configuration of a talker whose checksums are not looked at. -/
def uncheckedSpeed : NMEAJson :=
  { name := some (str "Sensor")
    checksum := some false
    sentences := some [⟨some (str "VHW"), some [⟨some (str "Speed"), some (str "STRING")⟩]⟩] }

def uncheckedSettings : NMEA :=
  { sentences := [⟨str "VHW", [⟨str "Speed", .string⟩]⟩], name := str "Sensor" }

/-- Without validation a wrong checksum is accepted. -/
theorem wrongChecksum_accepted :
    parseNMEA uncheckedSpeed = .ok (uncheckedSettings, {}) ∧
      WrongChecksum (str "$VDVHW,11*00\r\n") ∧
      ¬ ∃ what, receive (fun _ => 0) (.ok (str "$VDVHW,11*00\r\n")) 0 uncheckedSettings =
        .ok [errorEntry uncheckedSettings .nmea what] := by
  refine ⟨by decide, ⟨str "VDVHW,11", 48, 48, 0, 0, [cr, lf], by decide⟩, ?_⟩
  rintro ⟨what, h⟩
  have hreceived : receive (fun _ => 0) (.ok (str "$VDVHW,11*00\r\n")) 0 uncheckedSettings =
      .ok [⟨str "Sensor", [⟨str "Speed", some (.string (str "11")), 0⟩], none,
        some (str "VHW")⟩] := by
    decide
  rw [hreceived] at h
  cases h

end Rdbus.Communication.Nmea
