import Rdbus.Communication.Nmea.Parsing
import Rdbus.Numbers

/-!
# The checksummed grammar

A message with a checksum is `$ body * h₁ h₂ CR LF`, the two hexadecimal digits
denoting the exclusive or of the body.  The constructor reads the digits with a
stream extraction and looks at nothing behind them, so it also accepts messages
of other shapes.
-/

namespace Rdbus.Communication.Nmea

open Foundation

/-! ## Hexadecimal digits -/

theorem not_mem_digits {c h₁ h₂ : UInt8} {a b : Nat} (hc : hexDigit c = none)
    (ha : hexDigit h₁ = some a) (hb : hexDigit h₂ = some b) : c ∉ [h₁, h₂] := by
  rintro hmem
  rcases List.mem_pair.mp hmem with rfl | rfl
  · simp [hc] at ha
  · simp [hc] at hb

theorem extractHex_digits {h₁ h₂ : UInt8} {a b : Nat} (ha : hexDigit h₁ = some a)
    (hb : hexDigit h₂ = some b) : extractHex [h₁, h₂] = (16 * a + b : Nat) := by
  have hdigit₁ : isHexDigit h₁ := by simp [isHexDigit, ha]
  have hdigit₂ : isHexDigit h₂ := by simp [isHexDigit, hb]
  obtain ⟨hspace, hminus, hplus, -⟩ := isHexDigit_plain hdigit₁
  obtain ⟨-, -, -, hx⟩ := isHexDigit_plain hdigit₂
  have hsign : takeSign [h₁, h₂] = (false, [h₁, h₂]) := by
    simp [takeSign, hminus, hplus]
  have hskip : skipHexPrefix [h₁, h₂] = [h₁, h₂] := by
    simp [skipHexPrefix, hx]
  unfold extractHex
  rw [List.dropWhile_cons_of_neg (by simp [hspace]), hsign]
  simp [hskip, hdigit₁, hdigit₂, hexadecimal, ha, hb, signedValue]

/-! ## The grammar -/

structure Checksummed (data body : Bytes) : Prop where
  covered : star ∉ body
  ends : ∃ h₁ h₂ a b, data = dollar :: body ++ [star, h₁, h₂, cr, lf] ∧
    hexDigit h₁ = some a ∧ hexDigit h₂ = some b ∧ 16 * a + b = (xor body).toNat

/-- What stands between the `*` and the end of the line. -/
structure Trailer (data body trailer : Bytes) : Prop where
  eq : data = dollar :: (body ++ star :: trailer) ++ [cr, lf]
  body : star ∉ body
  trailer : star ∉ trailer

def TwoDigits (trailer : Bytes) : Prop :=
  ∃ h₁ h₂, trailer = [h₁, h₂] ∧ isHexDigit h₁ ∧ isHexDigit h₂

/-- Accepted although the trailer is not two digits. -/
def Lenient (data : Bytes) : Prop :=
  ∃ body trailer, Trailer data body trailer ∧ ¬ TwoDigits trailer ∧
    extractHex ((trailer ++ [cr, lf]).take 2) = (xor body).toNat

/-- The constructor accepts the grammar and reports what the checksum covers. -/
structure AcceptsGrammar (outside : UInt8) (data : Bytes) : Prop where
  accepts : (∃ response, Response.parse outside data true = .ok response) ↔
    ∃ body, Checksummed data body
  rejects : (¬ ∃ body, Checksummed data body) →
    ∃ what, Response.parse outside data true = .error (.response what)
  reports : ∀ response, Response.parse outside data true = .ok response →
    Checksummed data response.body

theorem Trailer.unique {data body trailer body' trailer' : Bytes}
    (h : Trailer data body trailer) (h' : Trailer data body' trailer') :
    body = body' ∧ trailer = trailer' := by
  have heq := h.eq.symm.trans h'.eq
  rw [List.append_left_inj, List.cons_inj_right] at heq
  have htake := congrArg (List.takeWhile (· ≠ star)) heq
  rw [takeWhile_ne_star h.body, takeWhile_ne_star h'.body] at htake
  obtain rfl : body = body' := by simpa using htake
  simpa using heq

theorem Trailer.checksummed_iff {data body trailer : Bytes}
    (h : Trailer data body trailer) {body' : Bytes} :
    Checksummed data body' ↔ body' = body ∧ TwoDigits trailer ∧
      extractHex ((trailer ++ [cr, lf]).take 2) = (xor body).toNat := by
  constructor
  · rintro ⟨hbody, h₁, h₂, a, b, heq, ha, hb, hvalue⟩
    have hdigits : star ∉ [h₁, h₂] := not_mem_digits (by decide) ha hb
    obtain ⟨rfl, rfl⟩ := h.unique ⟨by simpa using heq, hbody, hdigits⟩
    refine ⟨rfl, ⟨h₁, h₂, rfl, by simp [isHexDigit, ha], by simp [isHexDigit, hb]⟩, ?_⟩
    rw [← hvalue]
    exact extractHex_digits ha hb
  · rintro ⟨rfl, ⟨h₁, h₂, rfl, hdigit₁, hdigit₂⟩, hvalue⟩
    obtain ⟨a, ha⟩ := Option.isSome_iff_exists.mp hdigit₁
    obtain ⟨b, hb⟩ := Option.isSome_iff_exists.mp hdigit₂
    refine ⟨h.body, h₁, h₂, a, b, by simpa using h.eq, ha, hb, ?_⟩
    have hextract : ((16 * a + b : Nat) : Int) = ((xor body').toNat : Nat) :=
      (extractHex_digits ha hb).symm.trans hvalue
    exact_mod_cast hextract

theorem Checksummed.trailer {data body : Bytes} (h : Checksummed data body) :
    ∃ trailer, Trailer data body trailer := by
  obtain ⟨hbody, h₁, h₂, a, b, heq, ha, hb, -⟩ := h
  exact ⟨[h₁, h₂], by simpa using heq, hbody, not_mem_digits (by decide) ha hb⟩

theorem exists_trailer {rest : Bytes} (hmem : star ∈ rest) (hcount : rest.count star ≤ 1) :
    ∃ body trailer, Trailer (dollar :: rest ++ [cr, lf]) body trailer := by
  obtain ⟨body, trailer, rfl, hbody⟩ := List.eq_append_cons_of_mem hmem
  refine ⟨body, trailer, rfl, hbody, ?_⟩
  rw [List.count_append, List.count_cons_self] at hcount
  apply List.count_eq_zero.mp
  omega

/-! ## What the constructor does -/

theorem Trailer.checksum_eq {data body trailer : Bytes} (h : Trailer data body trailer) :
    checksum data = .ok (decide (((xor body).toNat : Int) =
      extractHex ((trailer ++ [cr, lf]).take 2))) := by
  have hdata : data = (dollar :: body) ++ star :: (trailer ++ [cr, lf]) := by
    simpa using h.eq
  have hidx : data.idxOf star = body.length + 1 := by
    rw [hdata, List.idxOf_append_of_notMem]
    · simp
    · rintro hmem
      rcases List.mem_cons.mp hmem with hstar | hmem
      · exact absurd hstar (by decide)
      · exact h.body hmem
  have hlen : body.length + 2 ≤ data.length := by
    rw [hdata]
    simp
  unfold checksum computeChecksum
  rw [hidx, sizeSub_of_le (by omega), substr_of_le (by omega), substr_of_le (by omega),
    ok_bind, ok_bind, hdata]
  simp

theorem Trailer.count_eq {data body trailer : Bytes} (h : Trailer data body trailer) :
    (body ++ star :: trailer).count star = 1 := by
  rw [List.count_append, List.count_cons_self, List.count_eq_zero.mpr h.body,
    List.count_eq_zero.mpr h.trailer]

theorem Trailer.validate_eq {data body trailer : Bytes} (h : Trailer data body trailer)
    (outside : UInt8) :
    validate outside data true =
      if extractHex ((trailer ++ [cr, lf]).take 2) = (xor body).toNat then .ok ()
      else .error (responseException (str "Checksum error!")) := by
  have hcount := h.count_eq
  have hsum := h.checksum_eq
  rw [h.eq] at hsum ⊢
  rw [validate_framed, if_neg (by omega), if_pos rfl, if_neg (by simp), hsum, ok_bind]
  simp [eq_comm]

theorem Trailer.validate_ok {data body trailer : Bytes} (h : Trailer data body trailer)
    (hvalue : extractHex ((trailer ++ [cr, lf]).take 2) = (xor body).toNat)
    (outside : UInt8) (validateChecksum : Bool) :
    validate outside data validateChecksum = .ok () := by
  cases validateChecksum with
  | true => rw [h.validate_eq, if_pos hvalue]
  | false =>
      have hcount := h.count_eq
      rw [h.eq, validate_framed, if_neg (by omega), if_neg (by simp)]

/-- Without exactly one `*` in its frame a message is rejected. -/
theorem parse_without_trailer {data : Bytes} (hne : data ≠ [])
    (h : ¬ ∃ body trailer, Trailer data body trailer) (outside : UInt8) :
    ∃ what, Response.parse outside data true = .error (.response what) := by
  by_cases hframed : Framed data
  · obtain ⟨rest, rfl⟩ := hframed
    by_cases hcount : 1 < rest.count star
    · exact Response.parse_rejected ((validate_framed _ _ _).trans (if_pos hcount))
    · by_cases hmem : star ∈ rest
      · exact absurd (exists_trailer hmem (by omega)) h
      · apply Response.parse_rejected
        rw [validate_framed, if_neg hcount, if_pos rfl, if_pos hmem]
  · exact Response.parse_rejected (validate_not_framed hne hframed true)

theorem Trailer.parse_iff {data body trailer : Bytes} (h : Trailer data body trailer)
    (outside : UInt8) :
    (∃ response, Response.parse outside data true = .ok response) ↔
      extractHex ((trailer ++ [cr, lf]).take 2) = (xor body).toNat := by
  obtain ⟨response, -, hparse⟩ := Response.parse_framed (body ++ star :: trailer)
  rw [h.eq, hparse, ← h.eq, h.validate_eq]
  split <;> simp_all

theorem Trailer.parse_error {data body trailer : Bytes} (h : Trailer data body trailer)
    {outside : UInt8}
    (hvalue : extractHex ((trailer ++ [cr, lf]).take 2) ≠ (xor body).toNat) :
    ∃ what, Response.parse outside data true = .error (.response what) := by
  apply Response.parse_rejected
  rw [h.validate_eq, if_neg hvalue]

/-- With two digits behind the `*` the tokens are the parts of the body. -/
theorem Trailer.parse_twoDigits {data body trailer : Bytes} (h : Trailer data body trailer)
    {outside : UInt8} {response : Response} (hdigits : TwoDigits trailer)
    (hparse : Response.parse outside data true = .ok response) : response.body = body := by
  obtain ⟨head, fields, rfl, hfree⟩ := exists_joined comma body
  obtain ⟨h₁, h₂, rfl, hdigit₁, hdigit₂⟩ := hdigits
  have hdata : data = dollar :: joined comma head fields ++ star :: [h₁, h₂, cr, lf] := by
    simpa using h.eq
  have hplain : comma ∉ star :: [h₁, h₂, cr, lf] := by
    obtain ⟨a, ha⟩ := Option.isSome_iff_exists.mp hdigit₁
    obtain ⟨b, hb⟩ := Option.isSome_iff_exists.mp hdigit₂
    have hdigits : comma ∉ [h₁, h₂] := not_mem_digits (by decide) ha hb
    simp_all [star, comma, cr, lf]
  have hclean : ∀ part ∈ (dollar :: head) :: fields,
      cleanBack (part ++ star :: [h₁, h₂, cr, lf]) = .ok part := by
    rintro part hpart
    apply cleanBack_star
    rintro hstar
    rcases List.mem_cons.mp (cons_joined .. ▸ subset_joined hpart hstar) with hstar | hstar
    · exact absurd hstar (by decide)
    · exact h.body hstar
  have hvalid : validate outside data true = .ok () := by
    cases hvalid : validate outside data true with
    | error e => rw [Response.parse_of_invalid hvalid] at hparse; cases hparse
    | ok u => rfl
  rw [hdata] at hvalid hparse
  rw [Response.parse_joined hvalid hfree hplain (by simp) hclean] at hparse
  cases hparse
  exact Response.body_ofParts head fields

/-! ## The grammar and the constructor -/

theorem acceptsGrammar_iff {outside : UInt8} {data : Bytes} (hlen : 2 ≤ data.length) :
    AcceptsGrammar outside data ↔ ¬ Lenient data := by
  have hne : data ≠ [] := List.ne_nil_of_length_pos (by omega)
  by_cases htrailer : ∃ body trailer, Trailer data body trailer
  · obtain ⟨body, trailer, h⟩ := htrailer
    constructor
    · rintro hclaim ⟨body', trailer', h', hdigits, hvalue⟩
      obtain ⟨rfl, rfl⟩ := h.unique h'
      obtain ⟨body', hsummed⟩ := hclaim.accepts.mp ((h.parse_iff outside).mpr hvalue)
      exact hdigits (h.checksummed_iff.mp hsummed).2.1
    · intro hstrict
      have hdigits : extractHex ((trailer ++ [cr, lf]).take 2) = (xor body).toNat →
          TwoDigits trailer := by
        intro hvalue
        by_contra hdigits
        exact hstrict ⟨body, trailer, h, hdigits, hvalue⟩
      refine ⟨?_, ?_, ?_⟩
      · rw [h.parse_iff]
        constructor
        · intro hvalue
          exact ⟨body, h.checksummed_iff.mpr ⟨rfl, hdigits hvalue, hvalue⟩⟩
        · rintro ⟨body', hsummed⟩
          exact (h.checksummed_iff.mp hsummed).2.2
      · intro hnone
        apply h.parse_error
        intro hvalue
        exact hnone ⟨body, h.checksummed_iff.mpr ⟨rfl, hdigits hvalue, hvalue⟩⟩
      · intro response hparse
        have hvalue := (h.parse_iff outside).mp ⟨response, hparse⟩
        rw [h.parse_twoDigits (hdigits hvalue) hparse]
        exact h.checksummed_iff.mpr ⟨rfl, hdigits hvalue, hvalue⟩
  · obtain ⟨what, hparse⟩ := parse_without_trailer hne htrailer outside
    have hnone : ¬ ∃ body, Checksummed data body := by
      rintro ⟨body, hsummed⟩
      exact htrailer ⟨body, hsummed.trailer⟩
    constructor
    · rintro - ⟨body, trailer, h, -⟩
      exact htrailer ⟨body, trailer, h⟩
    · rintro -
      refine ⟨?_, fun _ => ⟨what, hparse⟩, ?_⟩
      · simp [hparse, hnone]
      · simp [hparse]

theorem acceptsGrammar_speed :
    2 ≤ (str "$VDVHW,11*77\r\n").length ∧
      AcceptsGrammar 0 (str "$VDVHW,11*77\r\n") := by
  have hlen : 2 ≤ (str "$VDVHW,11*77\r\n").length := by decide
  have h : Trailer (str "$VDVHW,11*77\r\n") (str "VDVHW,11") (str "77") :=
    ⟨by decide, by decide, by decide⟩
  refine ⟨hlen, (acceptsGrammar_iff hlen).mpr ?_⟩
  rintro ⟨body, trailer, h', hdigits, -⟩
  obtain ⟨rfl, rfl⟩ := h.unique h'
  exact hdigits ⟨_, _, rfl, by decide, by decide⟩

/-- `zz` is no number; the failed extraction stores 0, the exclusive or of `VDVD`. -/
theorem noDigits_accepted : ¬ AcceptsGrammar 0 (str "$VDVD*zz\r\n") := by
  have h : Trailer (str "$VDVD*zz\r\n") (str "VDVD") (str "zz") :=
    ⟨by decide, by decide, by decide⟩
  rintro hclaim
  have hparse : Response.parse 0 (str "$VDVD*zz\r\n") true = .ok ⟨str "VD", str "VD", []⟩ := by
    decide
  obtain ⟨body, hsummed⟩ := hclaim.accepts.mp ⟨_, hparse⟩
  obtain ⟨-, ⟨h₁, h₂, heq, hdigit, -⟩, -⟩ := h.checksummed_iff.mp hsummed
  rw [show str "zz" = [122, 122] by decide] at heq
  cases heq
  exact absurd hdigit (by decide)

end Rdbus.Communication.Nmea
