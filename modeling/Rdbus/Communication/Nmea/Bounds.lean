import Rdbus.Communication.Nmea.Isolation

/-!
# The reads of the Response constructor

Here the structural test takes its characters one by one, in the order of the
source and by their positions, so that a read outside the message is undefined
behaviour.  With at least two characters this is the test of `validate`.
-/

namespace Rdbus.Communication.Nmea

open Foundation

/-- The first condition of `validate`; `data.rbegin()` is at `size() - 1`. -/
def invalidStructure (data : Bytes) : Except Throw Bool :=
  if 1 < data.count star then .ok true
  else do
    let first ← index data 0
    if first ≠ dollar then .ok true
    else do
      let beforeLast ← index data (sizeSub data.length 2)
      if beforeLast ≠ cr then .ok true
      else do
        let last ← index data (sizeSub data.length 1)
        .ok (last ≠ lf)

/-- `validate`, with nothing assumed of a read outside. -/
def validateReads (data : Bytes) (validateChecksum : Bool) : Except Throw Unit := do
  let invalid ← invalidStructure data
  if invalid then .error (responseException (str "Invalid message structure!"))
  else if validateChecksum then
    if star ∉ data then .error (responseException (str "No checksum found!"))
    else
      let valid ← checksum data
      if valid then .ok () else .error (responseException (str "Checksum error!"))
  else .ok ()

/-- The constructor of `Response`. -/
def Response.parseReads (data : Bytes) (validateChecksum : Bool) : Except Throw Response := do
  validateReads data validateChecksum
  let tokens ← cleanTokens (tokensFrom [] data)
  let token ← index tokens 0
  let talkerID ← extractTalkerID token
  let sentenceId ← extractSentenceID token talkerID
  .ok ⟨talkerID, sentenceId, tokens.tail⟩

/--
The constructor returns or throws its own exception: no character was read
outside, and no `substr` was given a position behind the end.
-/
def ReadsInside (data : Bytes) (validateChecksum : Bool) : Prop :=
  ∀ e, Response.parseReads data validateChecksum = .error e → ∃ what, e = .response what

/-! ## Two characters or more -/

theorem index_beforeLast {data : Bytes} (h : 2 ≤ data.length) (outside : UInt8) :
    index data (sizeSub data.length 2) = .ok (beforeLast outside data) := by
  rw [sizeSub_of_le h, index_of_lt (by omega)]
  rcases List.eq_nil_or_concat data with rfl | ⟨data, last, rfl⟩
  · cases h
  rcases List.eq_nil_or_concat data with rfl | ⟨data, before, rfl⟩
  · simp at h
  simp [beforeLast]

theorem invalidStructure_eq {data : Bytes} (h : 2 ≤ data.length) (outside : UInt8) :
    invalidStructure data = .ok (1 < data.count star ∨ data[0] ≠ dollar ∨
      beforeLast outside data ≠ cr ∨ data[data.length - 1] ≠ lf) := by
  unfold invalidStructure
  rw [index_of_lt (by omega), ok_bind, index_beforeLast h outside, ok_bind,
    sizeSub_of_le (by omega), index_of_lt (by omega), ok_bind]
  split_ifs <;> simp_all

theorem validateReads_eq {data : Bytes} (h : 2 ≤ data.length) (outside : UInt8)
    (validateChecksum : Bool) :
    validateReads data validateChecksum = validate outside data validateChecksum := by
  unfold validateReads validate
  rw [invalidStructure_eq h outside, ok_bind, index_of_lt (by omega), ok_bind,
    index_of_lt (by omega), ok_bind]
  simp only [decide_eq_true_eq]

theorem Response.parseReads_eq {data : Bytes} (h : 2 ≤ data.length) (outside : UInt8)
    (validateChecksum : Bool) :
    Response.parseReads data validateChecksum =
      Response.parse outside data validateChecksum := by
  rw [Response.parseReads, validateReads_eq h outside, Response.parse]

/-! ## Chunks -/

/-- The last but one of a single `$` is in front of it. -/
theorem Response.parseReads_dollar (validateChecksum : Bool) :
    Response.parseReads [dollar] validateChecksum = .error .undefinedBehaviour := by
  have outside : index [dollar] (sizeSub 1 2) = .error .undefinedBehaviour :=
    index_of_ge (by decide)
  have fault : invalidStructure [dollar] = .error .undefinedBehaviour := by
    unfold invalidStructure
    rw [if_neg (by decide), index_of_lt (by decide), ok_bind, if_neg (by decide)]
    rw [List.length_singleton, outside, error_bind]
  rw [Response.parseReads, validateReads, fault, error_bind, error_bind]

theorem readsInside_iff (rest : Bytes) (validateChecksum : Bool) :
    ReadsInside (dollar :: rest) validateChecksum ↔ rest ≠ [] := by
  constructor
  · rintro hinside rfl
    obtain ⟨what, hwhat⟩ := hinside _ (Response.parseReads_dollar validateChecksum)
    cases hwhat
  · intro hne e he
    have hlength : 2 ≤ (dollar :: rest).length := by
      have := List.length_pos_iff.mpr hne
      rw [List.length_cons]
      omega
    rw [Response.parseReads_eq hlength 0] at he
    exact Response.parse_throws (by simp) he

/--
All chunks of a blob are read inside exactly if each `$` of the blob has
something else behind it than another `$` or the end.
-/
theorem split_readsInside_iff (blob : Bytes) :
    (∀ chunk ∈ split blob, ∀ validateChecksum, ReadsInside chunk validateChecksum) ↔
      ¬ ∃ before after, blob = before ++ dollar :: after ∧ ∀ c ∈ after.head?, c = dollar := by
  obtain ⟨trash, rests, rfl, hfree⟩ := exists_joined dollar blob
  rw [split_joined hfree, ← hfree.nil_mem_parts_iff]
  constructor
  · intro hinside hnil
    exact (readsInside_iff [] true).mp
      (hinside _ (List.mem_map_of_mem hnil) true) rfl
  · intro hnil chunk hchunk validateChecksum
    obtain ⟨rest, hrest, rfl⟩ := List.mem_map.mp hchunk
    apply (readsInside_iff rest validateChecksum).mpr
    rintro rfl
    exact hnil hrest

theorem cut_behind_dollar_not_inside :
    split (str "$GPVTG,5\r\n$") = [str "$GPVTG,5\r\n", str "$"] ∧
      ∀ validateChecksum,
        Response.parseReads (str "$") validateChecksum = .error .undefinedBehaviour ∧
        ¬ ReadsInside (str "$") validateChecksum := by
  refine ⟨by decide, fun validateChecksum => ?_⟩
  have outside : Response.parseReads (str "$") validateChecksum = .error .undefinedBehaviour :=
    Response.parseReads_dollar validateChecksum
  refine ⟨outside, fun hinside => ?_⟩
  obtain ⟨what, hwhat⟩ := hinside _ outside
  cases hwhat

end Rdbus.Communication.Nmea
