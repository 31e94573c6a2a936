import Rdbus.Numbers
import Rdbus.Out.Sessions

/-!
# The session among other cookies

A client sends all cookies it holds for the host in one header.  The handler
takes the number behind the first `=`, whatever the name in front of it.
-/

namespace Rdbus.Out.Http

open Foundation

/-- A pair of the `Cookie` header; a `=` ends the name and a `;` the value. -/
structure Cookie where
  name : Bytes
  value : Bytes
  name_free : 61 ∉ name ∧ 59 ∉ name
  value_free : 59 ∉ value

def Cookie.pair (cookie : Cookie) : Bytes := cookie.name ++ 61 :: cookie.value

/-- The pairs, separated by `"; "`. -/
def header : List Cookie → Bytes
  | [] => []
  | cookie :: rest => cookie.pair ++ rest.flatMap fun cookie => str "; " ++ cookie.pair

/-- The pair `id=<n>`. -/
structure Cookie.IsSession (cookie : Cookie) (n : Int) : Prop where
  name : cookie.name = str "id"
  value : Spells cookie.value n
  range : -2 ^ 31 ≤ n ∧ n < 2 ^ 31

/-- Exactly one of the pairs is `id=<n>`. -/
structure OneSession (before : List Cookie) (session : Cookie) (after : List Cookie)
    (n : Int) : Prop where
  session : session.IsSession n
  others : ∀ cookie ∈ before ++ after, ∀ m, ¬ cookie.IsSession m

/-- The `/read` handler once it has its session. -/
def readSession (now : Timestamp) (http : Http) (id : Int) : Response × Http :=
  match Sessioner.getLastAccessTime http.cookies id now with
  | (.ok lastTime, cookies) =>
      ({ content := .data (http.rdbusDataStorage.parseFrom lastTime) }, { http with cookies })
  | (.error e, cookies) => (exceptionHandler e, { http with cookies })

/-- Whatever is stored, the handler does what it does for session `n`. -/
def LooksUp (sessionString : Bytes) (n : Int) : Prop :=
  ∀ now http, read now http (some sessionString) = .ok (readSession now http n)

theorem readSession_others {now : Timestamp} {http : Http} {id other : Int}
    (hne : other ≠ id) : (readSession now http id).2.cookies[other]? =
      http.cookies[other]?.filter fun lastAccess => !Sessioner.isExpired now lastAccess := by
  have hcleared := Sessioner.getElem?_clearExpiredCookies http.cookies now other
  rw [readSession, Sessioner.getLastAccessTime]
  cases (Sessioner.clearExpiredCookies http.cookies now)[id]? with
  | none => exact hcleared
  | some lastTime =>
      rw [← hcleared]
      simp [Std.TreeMap.getElem?_insert, Ne.symm hne]

/-! ## The session of a header -/

theorem read_some (now : Timestamp) (http : Http) (sessionString : Bytes) :
    read now http (some sessionString) =
      .ok (readSession now http (sessionId sessionString)) := by
  rw [read, readSession]
  split <;> simp_all

/-- A server that has only session `n` tells it from every other number. -/
theorem readSession_injective {m n : Int}
    (h : ∀ now http, readSession now http m = readSession now http n) : m = n := by
  by_contra hne
  obtain ⟨cookies, hn, hm⟩ : ∃ cookies : Sessioner.Cookies,
      cookies[n]? = some 0 ∧ cookies[m]? = none :=
    ⟨(∅ : Sessioner.Cookies).insert n 0, by simp, by simp [Ne.symm hne]⟩
  have hfound : Sessioner.getLastAccessTime cookies n 0 = _ :=
    Sessioner.getLastAccessTime_of_some hn (by decide)
  have hmissing : Sessioner.getLastAccessTime cookies m 0 = _ :=
    Sessioner.getLastAccessTime_of_not (by simp [hm])
  have hstatus := congrArg (fun result => result.1.status)
    (h 0 { initial false with cookies })
  simp only [readSession, hfound, hmissing] at hstatus
  cases hstatus

theorem looksUp_iff_sessionId {sessionString : Bytes} {n : Int} :
    LooksUp sessionString n ↔ sessionId sessionString = n := by
  constructor
  · intro h
    exact readSession_injective fun now http =>
      Except.ok.inj ((read_some now http sessionString).symm.trans (h now http))
  · rintro rfl
    exact fun now http => read_some now http sessionString

/-! ## What stands behind the first `=` -/

theorem foreign_semicolon : Foreign 59 := by
  constructor <;> decide

theorem cookieValue_pair {name : Bytes} (hfree : 61 ∉ name) (behind : Bytes) :
    cookieValue (name ++ 61 :: behind) = behind := by
  have hnone : name.findIdx? (· = 61) = none := by
    rw [List.findIdx?_eq_none_iff]
    intro c hc
    simpa using fun h : c = 61 => hfree (h ▸ hc)
  have hfirst : (name ++ 61 :: behind).findIdx? (· = 61) = some name.length := by
    simp [List.findIdx?_append, hnone, List.findIdx?_cons]
  rw [cookieValue, hfirst]
  simp

/-- The other pairs come behind a `;`, where the number of the first one has ended. -/
theorem sessionId_header (first : Cookie) (rest : List Cookie) :
    sessionId (header (first :: rest)) = atoi first.value := by
  have hhead : ∀ c ∈ (rest.flatMap fun cookie => str "; " ++ cookie.pair).head?, Foreign c := by
    cases rest with
    | nil => simp
    | cons cookie rest =>
        intro c hc
        cases hc
        exact foreign_semicolon
  rw [sessionId, header, Cookie.pair, List.append_assoc, List.cons_append,
    cookieValue_pair first.name_free.1, atoi, strtol, scanInteger_append hhead, atoi, strtol]

theorem looksUp_header_iff {first : Cookie} {rest : List Cookie} {n : Int} :
    LooksUp (header (first :: rest)) n ↔ Yields first.value n := by
  rw [looksUp_iff_sessionId, sessionId_header, atoi_eq_iff]

theorem Cookie.IsSession.yields {cookie : Cookie} {n : Int} (h : cookie.IsSession n) :
    Yields cookie.value n := by
  refine .inl ⟨n, h.value.begins, ?_⟩
  have hrange := h.range
  rw [narrowed, Int.min_eq_right (by omega), Int.max_eq_right (by omega)]
  exact Int.bmod_eq_of_le_mul_two (by omega) (by omega)

/--
The session is looked up exactly if its pair comes first, or the value that
comes first yields the same number.
-/
theorem looksUp_iff_first {before after : List Cookie} {session : Cookie} {n : Int}
    (h : OneSession before session after n) :
    LooksUp (header (before ++ session :: after)) n ↔
      before = [] ∨ ∃ first ∈ before.head?, Yields first.value n := by
  cases before with
  | nil => simpa using looksUp_header_iff.mpr h.session.yields
  | cons first before =>
      rw [List.cons_append, looksUp_header_iff]
      simp

/-! Two pairs in either order. -/

def language : Cookie := ⟨str "lang", str "2", by decide, by decide⟩

def sessionOne : Cookie := ⟨str "id", str "1", by decide, by decide⟩

theorem isSession_sessionOne : sessionOne.IsSession 1 where
  name := rfl
  value := .plain ⟨by decide, List.all_eq_true.mp (by decide)⟩
  range := by decide

theorem not_isSession_language (m : Int) : ¬ language.IsSession m :=
  fun h => absurd h.name (by decide)

theorem looksUp_iff_first_session :
    OneSession [] sessionOne [language] 1 ∧
      header [sessionOne, language] = str "id=1; lang=2" ∧
      LooksUp (header [sessionOne, language]) 1 := by
  have h : OneSession [] sessionOne [language] 1 :=
    ⟨isSession_sessionOne, by simpa using not_isSession_language⟩
  exact ⟨h, by decide, (looksUp_iff_first h).mpr (.inl rfl)⟩

/-- Session 2 is read and advanced in place of session 1. -/
theorem language_first_not_looksUp :
    OneSession [language] sessionOne [] 1 ∧
      header [language, sessionOne] = str "lang=2; id=1" ∧
      LooksUp (header [language, sessionOne]) 2 ∧
      ¬ LooksUp (header [language, sessionOne]) 1 := by
  have hid : sessionId (header [language, sessionOne]) = 2 := by decide
  refine ⟨⟨isSession_sessionOne, by simpa using not_isSession_language⟩, by decide,
    looksUp_iff_sessionId.mpr hid, ?_⟩
  rw [looksUp_iff_sessionId, hid]
  decide

end Rdbus.Out.Http
