import Rdbus.Communication.Nmea.Checksum

/-!
# What a talker sends

A talker writes its id, the sentence id and the fields between `$` and the end
of the line, with or without the checksum.  The constructor takes all of it
apart again.
-/

namespace Rdbus.Communication.Nmea

open Foundation

/-- Two characters, or `P` and three. -/
def IsTalkerID (talkerID : Bytes) : Prop :=
  (talkerID.length = 2 ∧ talkerID.head? ≠ some 80) ∨
    (talkerID.length = 4 ∧ talkerID.head? = some 80)

/-- No character that the message itself uses. -/
structure Plain (text : Bytes) : Prop where
  dollar : dollar ∉ text
  comma : comma ∉ text
  star : star ∉ text

structure Encodable (response : Response) : Prop where
  talkerID : IsTalkerID response.talkerID
  talker : Plain response.talkerID
  sentence : Plain response.sentenceId
  fields : ∀ field ∈ response.fields, Plain field

instance (talkerID : Bytes) : Decidable (IsTalkerID talkerID) :=
  inferInstanceAs (Decidable (_ ∨ _))

instance (text : Bytes) : Decidable (Plain text) :=
  decidable_of_iff (dollar ∉ text ∧ comma ∉ text ∧ star ∉ text)
    ⟨fun h => ⟨h.1, h.2.1, h.2.2⟩, fun h => ⟨h.dollar, h.comma, h.star⟩⟩

instance (response : Response) : Decidable (Encodable response) :=
  decidable_of_iff (IsTalkerID response.talkerID ∧ Plain response.talkerID ∧
      Plain response.sentenceId ∧ ∀ field ∈ response.fields, Plain field)
    ⟨fun h => ⟨h.1, h.2.1, h.2.2.1, h.2.2.2⟩,
      fun h => ⟨h.talkerID, h.talker, h.sentence, h.fields⟩⟩

def Response.encode (response : Response) : Bytes :=
  dollar :: response.body ++ [cr, lf]

def Response.encodeWithChecksum (response : Response) (h₁ h₂ : UInt8) : Bytes :=
  dollar :: response.body ++ [star, h₁, h₂, cr, lf]

/-- `h₁ h₂` denote the checksum, with digits of either case. -/
def Denotes (h₁ h₂ checksum : UInt8) : Prop :=
  ∃ a b, hexDigit h₁ = some a ∧ hexDigit h₂ = some b ∧ 16 * a + b = checksum.toNat

theorem IsTalkerID.length_eq {talkerID : Bytes} (h : IsTalkerID talkerID) (rest : Bytes) :
    talkerLength (talkerID ++ rest) = talkerID.length := by
  have hne : talkerID ≠ [] := by
    rintro rfl
    simp [IsTalkerID] at h
  rw [talkerLength, List.head?_append_of_ne_nil _ hne]
  rcases h with ⟨hlength, hhead⟩ | ⟨hlength, hhead⟩
  · rw [if_neg hhead, hlength]
  · rw [if_pos hhead, hlength]

theorem Encodable.ofParts_eq {response : Response} (h : Encodable response) :
    Response.ofParts (response.talkerID ++ response.sentenceId) response.fields = response := by
  rw [Response.ofParts, h.talkerID.length_eq, List.take_left, List.drop_left]

theorem Encodable.delimited {response : Response} (h : Encodable response) :
    Delimited comma (response.talkerID ++ response.sentenceId) response.fields := by
  refine ⟨?_, fun field hfield => (h.fields field hfield).comma⟩
  rw [List.mem_append, not_or]
  exact ⟨h.talker.comma, h.sentence.comma⟩

/-- No token of the message has a `*`, the first with its `$` included. -/
theorem Encodable.star_not_mem {response : Response} (h : Encodable response) {part : Bytes}
    (hpart : part ∈ (dollar :: (response.talkerID ++ response.sentenceId)) :: response.fields) :
    star ∉ part := by
  rcases List.mem_cons.mp hpart with rfl | hpart
  · simp only [List.mem_cons, List.mem_append, not_or]
    exact ⟨by decide, h.talker.star, h.sentence.star⟩
  · exact (h.fields part hpart).star

theorem Encodable.star_not_mem_body {response : Response} (h : Encodable response) :
    star ∉ response.body := by
  apply not_mem_joined (by decide)
  intro part hpart
  rcases List.mem_cons.mp hpart with rfl | hpart
  · rw [List.mem_append, not_or]
    exact ⟨h.talker.star, h.sentence.star⟩
  · exact (h.fields part hpart).star

theorem Encodable.trailer {response : Response} (h : Encodable response) {h₁ h₂ : UInt8}
    (digits : Denotes h₁ h₂ (xor response.body)) :
    Trailer (response.encodeWithChecksum h₁ h₂) response.body [h₁, h₂] := by
  obtain ⟨a, b, ha, hb, -⟩ := digits
  exact ⟨by simp [Response.encodeWithChecksum], h.star_not_mem_body,
    not_mem_digits (by decide) ha hb⟩

theorem parse_encode (outside : UInt8) {response : Response} (h : Encodable response) :
    Response.parse outside response.encode false = .ok response := by
  have hcount : response.body.count star = 0 := List.count_eq_zero.mpr h.star_not_mem_body
  have hvalid : validate outside response.encode false = .ok () := by
    rw [Response.encode, validate_framed, if_neg (by omega), if_neg (by simp)]
  have hclean : ∀ part ∈ (dollar :: (response.talkerID ++ response.sentenceId)) ::
      response.fields, cleanBack (part ++ [cr, lf]) = .ok part :=
    fun part hpart => cleanBack_end (h.star_not_mem hpart)
  have hparse := Response.parse_joined hvalid h.delimited (by decide) (by simp) hclean
  rwa [h.ofParts_eq] at hparse

theorem parse_encodeWithChecksum (outside : UInt8) {response : Response} (h : Encodable response)
    {h₁ h₂ : UInt8} (digits : Denotes h₁ h₂ (xor response.body)) (validateChecksum : Bool) :
    Response.parse outside (response.encodeWithChecksum h₁ h₂) validateChecksum =
      .ok response := by
  have htrailer := h.trailer digits
  obtain ⟨a, b, ha, hb, hvalue⟩ := digits
  have hchecksum : extractHex (([h₁, h₂] ++ [cr, lf]).take 2) = (xor response.body).toNat := by
    rw [← hvalue]
    exact extractHex_digits ha hb
  have hvalid := htrailer.validate_ok hchecksum outside validateChecksum
  have hcomma : comma ∉ [star, h₁, h₂, cr, lf] := by
    have hdigits := not_mem_digits (c := comma) (by decide) ha hb
    simp only [List.mem_cons, List.not_mem_nil, or_false, not_or] at hdigits ⊢
    exact ⟨by decide, hdigits.1, hdigits.2, by decide, by decide⟩
  have hclean : ∀ part ∈ (dollar :: (response.talkerID ++ response.sentenceId)) ::
      response.fields, cleanBack (part ++ [star, h₁, h₂, cr, lf]) = .ok part :=
    fun part hpart => cleanBack_star (h.star_not_mem hpart) _
  have hparse := Response.parse_joined hvalid h.delimited hcomma (by simp) hclean
  rwa [h.ofParts_eq] at hparse

/-- The constructor decodes what a talker encodes, with and without a checksum. -/
theorem parse_decodes (outside : UInt8) (response : Response) (h : Encodable response) :
    Response.parse outside response.encode false = .ok response ∧
    ∀ h₁ h₂, Denotes h₁ h₂ (xor response.body) → ∀ validateChecksum,
      Response.parse outside (response.encodeWithChecksum h₁ h₂) validateChecksum =
        .ok response :=
  ⟨parse_encode outside h, fun _ _ digits validateChecksum =>
    parse_encodeWithChecksum outside h digits validateChecksum⟩

/-- A proprietary sentence with an empty field. -/
def proprietary : Response := ⟨str "PGRM", str "E", [str "15.0", [], str "M"]⟩

theorem parse_decodes_proprietary :
    Response.parse 0 (str "$PGRME,15.0,,M\r\n") false = .ok proprietary ∧
    Response.parse 0 (str "$PGRME,15.0,,M*36\r\n") true = .ok proprietary := by
  have encodable : Encodable proprietary := by decide
  obtain ⟨without, withChecksum⟩ := parse_decodes 0 proprietary encodable
  exact ⟨without, withChecksum 51 54 ⟨3, 6, rfl, rfl, rfl⟩ true⟩

end Rdbus.Communication.Nmea
