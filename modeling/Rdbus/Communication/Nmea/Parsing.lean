import Rdbus.Communication.Nmea.Response
import Rdbus.Foundation.Delimited
import Rdbus.Foundation.Outcome

/-!
# What the Response constructor computes

Validation accepts only `$ ... CR LF`.  The tokens of such a message are its
parts between commas, the last one with everything behind it, and `cleanBack`
cuts that remainder off.
-/

namespace Rdbus.Communication.Nmea

open Foundation

/-! ## Tokens -/

theorem tokensFrom_last {token part : Bytes} (hfree : comma ∉ part)
    (hlast : token ++ part ≠ []) : tokensFrom token part = [token ++ part] := by
  induction part generalizing token with
  | nil => simp_all [tokensFrom]
  | cons c part ih =>
      have hc : c ≠ comma := by
        rintro rfl
        exact hfree (by simp)
      rw [tokensFrom, if_neg hc, ih (by simp_all) (by simp), List.append_assoc]
      rfl

theorem tokensFrom_comma {token part : Bytes} (hfree : comma ∉ part) (rest : Bytes) :
    tokensFrom token (part ++ comma :: rest) = (token ++ part) :: tokensFrom [] rest := by
  induction part generalizing token with
  | nil => simp [tokensFrom]
  | cons c part ih =>
      have hc : c ≠ comma := by
        rintro rfl
        exact hfree (by simp)
      rw [List.cons_append, tokensFrom, if_neg hc, ih (by simp_all)]
      simp

theorem tokensFrom_joined {first : Bytes} {parts : List Bytes} {tail : Bytes}
    (hfree : Delimited comma first parts) (htail : comma ∉ tail) (hne : tail ≠ []) :
    tokensFrom [] (joined comma first parts ++ tail) =
      (first :: parts).dropLast ++ [(first :: parts).getLast (by simp) ++ tail] := by
  induction parts generalizing first with
  | nil =>
      have hlast : comma ∉ first ++ tail := by simp [hfree.first, htail]
      simpa using tokensFrom_last hlast (show [] ++ (first ++ tail) ≠ [] by simp [hne])
  | cons part parts ih =>
      rw [joined_cons, List.append_assoc, List.cons_append,
        tokensFrom_comma hfree.first, ih hfree.tail]
      simp

theorem cleanTokens_snoc {front : List Bytes} {token cleaned : Bytes}
    (h : cleanBack token = .ok cleaned) :
    cleanTokens (front ++ [token]) = .ok (front ++ [cleaned]) := by
  unfold cleanTokens
  rw [index_of_lt (by simp)]
  simp [h, bind, Except.bind]

theorem cleanBack_star {token : Bytes} (hfree : star ∉ token) (rest : Bytes) :
    cleanBack (token ++ star :: rest) = .ok token := by
  unfold cleanBack
  rw [if_pos (by simp), substr_of_le (Nat.zero_le _)]
  simp [List.idxOf_append_of_notMem hfree]

theorem cleanBack_end {token : Bytes} (hfree : star ∉ token) :
    cleanBack (token ++ [cr, lf]) = .ok token := by
  have hend : star ∉ token ++ [cr, lf] := by
    simp only [List.mem_append, hfree, false_or]
    decide
  unfold cleanBack
  rw [if_neg hend, substr_of_le (Nat.zero_le _), sizeSub_of_le (by simp)]
  simp

theorem takeWhile_ne_star {token : Bytes} (hfree : star ∉ token) (rest : Bytes) :
    (token ++ rest).takeWhile (· ≠ star) = token ++ rest.takeWhile (· ≠ star) := by
  apply List.takeWhile_append_of_pos
  rintro c hc
  simp only [decide_eq_true_eq]
  rintro rfl
  exact hfree hc

/-- A token that ends the message keeps what stands in front of its `*`. -/
theorem cleanBack_eq (token : Bytes) :
    cleanBack (token ++ [cr, lf]) = .ok (token.takeWhile (· ≠ star)) := by
  by_cases h : star ∈ token
  · obtain ⟨front, rest, rfl, hfree⟩ := List.eq_append_cons_of_mem h
    rw [List.append_assoc, List.cons_append, cleanBack_star hfree,
      takeWhile_ne_star hfree]
    simp
  · have hall := takeWhile_ne_star h []
    rw [cleanBack_end h]
    simpa using hall.symm

/-! ## From tokens to a response -/

/-- The talker has two characters, or four when it starts with `P`. -/
def talkerLength (head : Bytes) : Nat := if head.head? = some 80 then 4 else 2

def Response.ofParts (head : Bytes) (fields : List Bytes) : Response :=
  ⟨head.take (talkerLength head), head.drop (talkerLength head), fields⟩

/-- The part of the message a response reports. -/
def Response.body (response : Response) : Bytes :=
  joined comma (response.talkerID ++ response.sentenceId) response.fields

@[simp] theorem Response.body_ofParts (head : Bytes) (fields : List Bytes) :
    (Response.ofParts head fields).body = joined comma head fields := by
  simp [Response.body, Response.ofParts]

theorem extractTalkerID_eq (head : Bytes) :
    extractTalkerID (dollar :: head) = .ok (head.take (talkerLength head)) := by
  have hkind : characterAt (dollar :: head) 1 = .ok (head.headD 0) := by
    cases head <;> rfl
  have hproprietary : head.headD 0 = 80 ↔ head.head? = some 80 := by
    cases head <;> simp
  unfold extractTalkerID talkerLength
  rw [hkind, ok_bind]
  simp only [hproprietary]
  split <;> rw [substr_of_le (by simp)] <;> rfl

theorem extractSentenceID_eq (head : Bytes) (n : Nat) :
    extractSentenceID (dollar :: head) (head.take n) = .ok (head.drop n) := by
  unfold extractSentenceID
  rw [substr_of_le (by simp)]
  rcases Nat.le_total n head.length with h | h
  · rw [List.length_take, Nat.min_eq_left h, List.drop_succ_cons, List.take_of_length_le]
    simp
    omega
  · rw [List.length_take, Nat.min_eq_right h]
    simp [List.drop_eq_nil_of_le h]

theorem Response.parse_of_tokens {outside : UInt8} {data head : Bytes}
    {validateChecksum : Bool} {fields : List Bytes}
    (hvalid : validate outside data validateChecksum = .ok ())
    (htokens : cleanTokens (tokensFrom [] data) = .ok ((dollar :: head) :: fields)) :
    Response.parse outside data validateChecksum = .ok (Response.ofParts head fields) := by
  unfold Response.parse
  rw [hvalid, ok_bind, htokens, ok_bind, index_of_lt (by simp), ok_bind,
    List.getElem_cons_zero, extractTalkerID_eq, ok_bind, extractSentenceID_eq, ok_bind]
  rfl

/-- A message with the checksum, or the end of the line, behind its parts. -/
theorem Response.parse_joined {outside : UInt8} {head tail : Bytes}
    {validateChecksum : Bool} {fields : List Bytes}
    (hvalid : validate outside (dollar :: joined comma head fields ++ tail)
      validateChecksum = .ok ())
    (hfree : Delimited comma head fields) (htail : comma ∉ tail) (hne : tail ≠ [])
    (hclean : ∀ part ∈ (dollar :: head) :: fields, cleanBack (part ++ tail) = .ok part) :
    Response.parse outside (dollar :: joined comma head fields ++ tail) validateChecksum =
      .ok (Response.ofParts head fields) := by
  have hfree' : Delimited comma (dollar :: head) fields := hfree.cons (by decide)
  apply Response.parse_of_tokens hvalid
  rw [cons_joined, tokensFrom_joined hfree' htail hne,
    cleanTokens_snoc (hclean _ (List.getLast_mem _)), List.dropLast_append_getLast]

theorem Response.parse_of_invalid {outside : UInt8} {data : Bytes}
    {validateChecksum : Bool} {e : Throw}
    (h : validate outside data validateChecksum = .error e) :
    Response.parse outside data validateChecksum = .error e := by
  rw [Response.parse, h, error_bind]

theorem Response.parse_rejected {outside : UInt8} {data what : Bytes}
    {validateChecksum : Bool}
    (h : validate outside data validateChecksum = .error (responseException what)) :
    ∃ what, Response.parse outside data validateChecksum = .error (.response what) :=
  ⟨_, Response.parse_of_invalid h⟩

/-- The first token keeps its `$`, also when it is the one that is cut. -/
theorem cleanTokens_framed (rest : Bytes) :
    ∃ head fields, fields.length = rest.count comma ∧
      cleanTokens (tokensFrom [] (dollar :: rest ++ [cr, lf])) =
        .ok ((dollar :: head) :: fields) := by
  obtain ⟨head, fields, rfl, hfree⟩ := exists_joined comma rest
  rw [hfree.count_joined]
  have hfree' : Delimited comma (dollar :: head) fields := hfree.cons (by decide)
  rw [cons_joined, tokensFrom_joined hfree' (by decide) (by simp),
    cleanTokens_snoc (cleanBack_eq _)]
  cases fields with
  | nil => exact ⟨head.takeWhile (· ≠ star), [], rfl, rfl⟩
  | cons field fields => exact ⟨head, _, by simp, rfl⟩

/-! ## Validation -/

/-- The frame every accepted message has. -/
def Framed (data : Bytes) : Prop :=
  ∃ rest, data = dollar :: rest ++ [cr, lf]

theorem framed_iff {outside : UInt8} {data : Bytes} (hne : data ≠ []) :
    Framed data ↔ data.head? = some dollar ∧ beforeLast outside data = cr ∧
      data.getLast? = some lf := by
  constructor
  · rintro ⟨rest, rfl⟩
    rw [List.getLast?_append_of_ne_nil _ (by simp)]
    simp [beforeLast]
  · rintro ⟨hfirst, hbefore, hlast⟩
    obtain ⟨first, data, rfl⟩ := List.exists_cons_of_ne_nil hne
    obtain rfl : first = dollar := by simpa using hfirst
    rcases List.eq_nil_or_concat data with rfl | ⟨data, last, rfl⟩
    · exact absurd hlast (by decide)
    rcases List.eq_nil_or_concat data with rfl | ⟨data, before, rfl⟩
    · exact absurd hbefore (by simp [beforeLast, dollar, cr])
    obtain rfl : last = lf := by
      rw [List.concat_eq_append, ← List.cons_append, List.getLast?_concat] at hlast
      exact Option.some.inj hlast
    obtain rfl : before = cr := by simpa [beforeLast] using hbefore
    exact ⟨data, by simp⟩

theorem validate_framed (outside : UInt8) (rest : Bytes) (validateChecksum : Bool) :
    validate outside (dollar :: rest ++ [cr, lf]) validateChecksum =
      if 1 < rest.count star then
        .error (responseException (str "Invalid message structure!"))
      else if validateChecksum then
        if star ∉ rest then .error (responseException (str "No checksum found!"))
        else checksum (dollar :: rest ++ [cr, lf]) >>= fun valid =>
          if valid then .ok () else .error (responseException (str "Checksum error!"))
      else .ok () := by
  have hcount : (dollar :: rest ++ [cr, lf]).count star = rest.count star := by
    simp [List.count_append, dollar, star, cr, lf]
  have hmem : star ∈ dollar :: rest ++ [cr, lf] ↔ star ∈ rest := by
    simp [dollar, star, cr, lf]
  have hlast : (dollar :: rest ++ [cr, lf])[(dollar :: rest ++ [cr, lf]).length - 1] = lf := by
    simp [List.getElem_cons]
  unfold validate
  rw [index_of_lt (by simp), ok_bind, index_of_lt (by simp), ok_bind, hcount, hlast]
  simp only [hmem]
  simp [beforeLast]

theorem validate_not_framed {outside : UInt8} {data : Bytes} (hne : data ≠ [])
    (h : ¬ Framed data) (validateChecksum : Bool) :
    validate outside data validateChecksum =
      .error (responseException (str "Invalid message structure!")) := by
  have hlen : 0 < data.length := List.length_pos_iff.mpr hne
  unfold validate
  rw [index_of_lt hlen, ok_bind, index_of_lt (by omega), ok_bind, if_pos]
  by_contra hall
  push Not at hall
  obtain ⟨-, hfirst, hbefore, hlast⟩ := hall
  apply h
  rw [framed_iff hne]
  refine ⟨?_, hbefore, ?_⟩
  · rw [List.head?_eq_getElem?, List.getElem?_eq_getElem hlen, hfirst]
  · rw [List.getLast?_eq_getElem?, List.getElem?_eq_getElem (by omega), hlast]

/-- The constructor throws what `validate` throws, and nothing else. -/
theorem Response.parse_framed (rest : Bytes) :
    ∃ response : Response, response.fields.length = rest.count comma ∧
      ∀ outside validateChecksum,
        Response.parse outside (dollar :: rest ++ [cr, lf]) validateChecksum =
          validate outside (dollar :: rest ++ [cr, lf]) validateChecksum >>= fun _ =>
            .ok response := by
  obtain ⟨head, fields, hlen, htokens⟩ := cleanTokens_framed rest
  refine ⟨Response.ofParts head fields, hlen, ?_⟩
  intro outside validateChecksum
  cases hvalid : validate outside (dollar :: rest ++ [cr, lf]) validateChecksum with
  | error e => rw [Response.parse_of_invalid hvalid, error_bind]
  | ok u => rw [Response.parse_of_tokens hvalid htokens, ok_bind]

/-- What is known of an accepted message. -/
theorem Response.of_parse_ok {outside : UInt8} {data : Bytes} {validateChecksum : Bool}
    {response : Response} (hne : data ≠ [])
    (h : Response.parse outside data validateChecksum = .ok response) :
    ∃ rest, data = dollar :: rest ++ [cr, lf] ∧ rest.count star ≤ 1 ∧
      response.fields.length = rest.count comma := by
  by_cases hframed : Framed data
  · obtain ⟨rest, rfl⟩ := hframed
    obtain ⟨response', hlen, hparse⟩ := Response.parse_framed rest
    refine ⟨rest, rfl, ?_, ?_⟩
    · by_contra hcount
      rw [Response.parse_of_invalid ((validate_framed _ _ _).trans (if_pos (by omega)))] at h
      cases h
    · rw [hparse] at h
      rcases bind_eq_ok.mp h with ⟨-, -, hresponse⟩
      cases hresponse
      exact hlen
  · rw [Response.parse_of_invalid (validate_not_framed hne hframed _)] at h
    cases h

end Rdbus.Communication.Nmea
