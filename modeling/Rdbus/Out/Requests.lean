import Rdbus.Out.Delivery

/-!
# Requests with dead sessions

The server of any run, with any clock, and beside it the sessions it issued.
-/

namespace Rdbus.Out

open Foundation

/-- `clock` is the time of the last `/read` request. -/
structure Server where
  http : Http
  clock : Timestamp := 0
  sessions : List Sessioner.Session := []

namespace Server

def history (server : Server) : Sessioner.History where
  cookies := server.http.cookies
  clock := server.clock
  sessions := server.sessions

def call (now : Timestamp) : Option Bytes → Sessioner.Call
  | none => .create now
  | some sessionString => .getLastAccessTime (Http.sessionId sessionString) now

def step (sizeofData : Nat) (dumpError : Bytes → Option Bytes) (server : Server) :
    Event → Option Server
  | .send now list => some { server with http := server.http.send sizeofData now list }
  | .sendLimits now list =>
      match server.http.sendLimits sizeofData now list with
      | .ok http => some { server with http }
      | .error _ => none
  | .read now cookie =>
      match server.http.handleRead dumpError now cookie with
      | .ok (_, http) => (Sessioner.step server.history (call now cookie)).map
          fun history => { http, clock := now, sessions := history.sessions }
      | .error _ => none
  | .processLimits => some server

def NotEarlier (server : Server) : Event → Prop
  | .read now _ => server.clock ≤ now
  | _ => True

/-- The cookie names a session never issued, or idle for too long. -/
def Dead (sessions : List Sessioner.Session) (now : Timestamp) : Option Bytes → Prop
  | none => False
  | some sessionString => ¬ Sessioner.Live sessions now (Http.sessionId sessionString)

/-- No data in the reply, and what is stored and the other live sessions are as before. -/
structure Harmless (server : Server) (now : Timestamp) (response : Http.Response)
    (http : Http) : Prop where
  noData : ∃ message, response.content = .text message
  data : http.rdbusDataStorage = server.http.rdbusDataStorage
  limits : http.limitsStorage = server.http.limitsStorage
  others : ∀ id : Int, Sessioner.Live server.sessions now id →
    http.cookies[id]? = server.http.cookies[id]?

/-- 401 and no harm for a dead session, 200 for a live one and for no cookie. -/
def AnswersCleanly (dumpError : Bytes → Option Bytes) (server : Server) (now : Timestamp)
    (cookie : Option Bytes) : Prop :=
  ∃ response http, server.http.handleRead dumpError now cookie = .ok (response, http) ∧
    (Dead server.sessions now cookie →
      response.status = 401 ∧ Harmless server now response http) ∧
    (¬ Dead server.sessions now cookie → response.status = 200)

/-- `json::dump` writes every reading stored since `lastTime`. -/
def WrittenSince (dumpError : Bytes → Option Bytes) (server : Server)
    (lastTime : Timestamp) : Prop :=
  ∀ data ∈ server.http.rdbusDataStorage.parseFrom lastTime,
    data.texts.findSome? dumpError = none

/-- There is a session to answer: a next id, or a live session that is still stored. -/
def Answerable (dumpError : Bytes → Option Bytes) (server : Server) (now : Timestamp) :
    Option Bytes → Prop
  | none => (∀ id ∈ server.http.cookies, id + 1 < 2 ^ 31) ∧ server.WrittenSince dumpError 0
  | some sessionString =>
      let id := Http.sessionId sessionString
      Sessioner.Live server.sessions now id ∧ id ∈ server.http.cookies ∧
        ∀ time ∈ Sessioner.lastAccess server.sessions id, server.WrittenSince dumpError time

instance (sessions : List Sessioner.Session) (now : Timestamp) (cookie : Option Bytes) :
    Decidable (Dead sessions now cookie) := by
  unfold Dead
  cases cookie <;> infer_instance

section

variable {sizeofData : Nat} {dumpError : Bytes → Option Bytes}

/-! ## The sessions of a server -/

theorem cookies_call {server : Server} {now : Timestamp} {cookie : Option Bytes}
    {response : Http.Response} {http : Http} {history : Sessioner.History}
    (hhandle : server.http.handleRead dumpError now cookie = .ok (response, http))
    (hcall : Sessioner.step server.history (call now cookie) = some history) :
    history.cookies = http.cookies ∧ history.clock = now := by
  obtain ⟨unwritten, hread, -⟩ := handleRead_ok hhandle
  cases cookie with
  | none =>
      obtain ⟨id, cookies, hcreate, -, rfl⟩ := read_none hread
      have hcreate' : Sessioner.create server.history.cookies now = .ok (id, cookies) := hcreate
      simp only [call, Sessioner.step, hcreate', Option.some.injEq] at hcall
      rw [← hcall]
      exact ⟨rfl, rfl⟩
  | some sessionString =>
      unfold Http.read at hread
      simp only [call, Sessioner.step] at hcall hread
      have hcookies : server.history.cookies = server.http.cookies := rfl
      rw [hcookies] at hcall
      split at hread
      case h_1 hfound =>
        simp only [hfound, Option.some.injEq] at hcall
        cases hread
        rw [← hcall]
        exact ⟨rfl, rfl⟩
      case h_2 hfound =>
        simp only [hfound, Option.some.injEq] at hcall
        cases hread
        rw [← hcall]
        exact ⟨rfl, rfl⟩

/-- Only requests move the sessions, and they move as their calls move them. -/
theorem step_history {server next : Server} {event : Event}
    (h : step sizeofData dumpError server event = some next) :
    next.history = server.history ∨ ∃ now cookie, event = .read now cookie ∧
      Sessioner.step server.history (call now cookie) = some next.history := by
  cases event with
  | send now list =>
      cases h
      exact .inl rfl
  | processLimits =>
      cases h
      exact .inl rfl
  | sendLimits now list =>
      left
      unfold step Http.sendLimits at h
      cases hlimits : server.http.limitsStorage with
      | none => simp [hlimits] at h
      | some buffer =>
          simp only [hlimits, Option.some.injEq] at h
          rw [← h]
          rfl
  | read now cookie =>
      right
      refine ⟨now, cookie, rfl, ?_⟩
      unfold step at h
      cases hhandle : server.http.handleRead dumpError now cookie with
      | error e => simp [hhandle] at h
      | ok result =>
          obtain ⟨response, http⟩ := result
          simp only [hhandle, Option.map_eq_some_iff] at h
          obtain ⟨history, hcall, rfl⟩ := h
          obtain ⟨hcookies, hclock⟩ := cookies_call hhandle hcall
          rw [hcall, Server.history, ← hcookies, ← hclock]

theorem recent_step {server next : Server} {event : Event}
    (h : Sessioner.Recent server.history)
    (hnext : step sizeofData dumpError server event = some next) :
    Sessioner.Recent next.history := by
  obtain hsame | ⟨now, cookie, rfl, hcall⟩ := step_history hnext
  · rwa [hsame]
  · exact h.step hcall

theorem tracked_step {server next : Server} {event : Event}
    (hclock : NotEarlier server event) (h : Sessioner.Tracked server.history)
    (hnext : step sizeofData dumpError server event = some next) :
    Sessioner.Tracked next.history := by
  obtain hsame | ⟨now, cookie, rfl, hcall⟩ := step_history hnext
  · rwa [hsame]
  · refine h.step ?_ hcall
    cases cookie <;> exact hclock

/-! ## Replies -/

theorem status_dump {response : Http.Response} (h : response.status = 200)
    {entries : List Rdbus.Data} (hcontent : response.content = .data entries) :
    (response.dump dumpError).status = 200 ↔
      ∀ data ∈ entries, data.texts.findSome? dumpError = none := by
  have htexts : (entries.flatMap Rdbus.Data.texts).findSome? dumpError = none ↔
      ∀ data ∈ entries, data.texts.findSome? dumpError = none := by
    simp only [List.findSome?_eq_none_iff, List.mem_flatMap]
    exact ⟨fun h data hdata text htext => h text ⟨data, hdata, htext⟩,
      fun h text ⟨data, hdata, htext⟩ => h data hdata text htext⟩
  rw [← htexts]
  unfold Http.Response.dump
  simp only [hcontent]
  cases hdump : (entries.flatMap Rdbus.Data.texts).findSome? dumpError with
  | none => simp [h]
  | some what => simp [Http.exceptionHandler]

/-- A session that is not stored, or expired, gets the exception handler's reply. -/
theorem handleRead_of_not (dumpError : Bytes → Option Bytes) {server : Server}
    {now : Timestamp} {sessionString : Bytes}
    (h : ∀ time, server.http.cookies[Http.sessionId sessionString]? = some time →
      Sessioner.isExpired now time) :
    server.http.handleRead dumpError now (some sessionString) =
      .ok (Http.exceptionHandler (Sessioner.exception (str "Expired!")),
        { server.http with
          cookies := Sessioner.clearExpiredCookies server.http.cookies now }) := by
  simp only [Http.handleRead, Http.read, Sessioner.getLastAccessTime_of_not h, bind, Except.bind]
  rfl

theorem handleRead_of_some (dumpError : Bytes → Option Bytes) {server : Server}
    {now time : Timestamp} {sessionString : Bytes}
    (h : server.http.cookies[Http.sessionId sessionString]? = some time)
    (hlive : ¬ Sessioner.isExpired now time) :
    ∃ http, server.http.handleRead dumpError now (some sessionString) =
      .ok (Http.Response.dump dumpError
        { content := .data (server.http.rdbusDataStorage.parseFrom time) }, http) := by
  simp only [Http.handleRead, Http.read, Sessioner.getLastAccessTime_of_some h hlive, bind,
    Except.bind]
  exact ⟨_, rfl⟩

theorem create_isOk_iff {cookies : Sessioner.Cookies} (now : Timestamp) :
    (∃ id after, Sessioner.create cookies now = .ok (id, after)) ↔
      ∀ id ∈ cookies, id + 1 < 2 ^ 31 := by
  unfold Sessioner.create
  rw [← Std.TreeMap.maxKey?_eq_getLast?_keys]
  cases hmax : cookies.maxKey? with
  | none =>
      have hempty := Std.TreeMap.maxKey?_eq_none_iff.mp hmax
      exact ⟨fun _ id hmem => absurd hmem (Std.TreeMap.not_mem_of_isEmpty hempty),
        fun _ => ⟨1, _, rfl⟩⟩
  | some last =>
      obtain ⟨hmem, hle⟩ := Std.TreeMap.maxKey?_eq_some_iff_mem_and_forall.mp hmax
      have hlast : (∀ id ∈ cookies, id + 1 < 2 ^ 31) ↔ last + 1 < 2 ^ 31 := by
        refine ⟨fun h => h last hmem, fun h id hid => ?_⟩
        have := Std.isLE_compare.mp (hle id hid)
        omega
      rw [hlast]
      simp only
      constructor
      · rintro ⟨id, after, hcreate⟩
        split at hcreate
        case isTrue hfits => exact hfits
        case isFalse => cases hcreate
      · intro hfits
        exact ⟨_, _, if_pos hfits⟩

theorem answersCleanly_none {server : Server} {now : Timestamp} :
    AnswersCleanly dumpError server now none ↔ Answerable dumpError server now none := by
  rw [Answerable, ← create_isOk_iff now]
  have hread : ∀ {id : Int} {after : Sessioner.Cookies},
      Sessioner.create server.http.cookies now = .ok (id, after) →
      server.http.handleRead dumpError now none = .ok (Http.Response.dump dumpError
        { setCookie := some id, content := .data (server.http.rdbusDataStorage.parseFrom 0) },
        { server.http with cookies := after }) := by
    intro id after hcreate
    simp only [Http.handleRead, Http.read, hcreate, bind, Except.bind]
  constructor
  · rintro ⟨response, http, hhandle, -, hstatus⟩
    obtain ⟨unwritten, hinner, -⟩ := handleRead_ok hhandle
    obtain ⟨id, after, hcreate, -, -⟩ := read_none hinner
    rw [hread hcreate] at hhandle
    cases hhandle
    exact ⟨⟨id, after, hcreate⟩, (status_dump rfl rfl).mp (hstatus not_false)⟩
  · rintro ⟨⟨id, after, hcreate⟩, hwritten⟩
    exact ⟨_, _, hread hcreate, False.elim, fun _ => (status_dump rfl rfl).mpr hwritten⟩

/-- A request with a cookie: only the exception handler's status is in the way. -/
theorem answersCleanly_some {server : Server} (h : Sessioner.Recent server.history)
    {now : Timestamp} {sessionString : Bytes} :
    AnswersCleanly dumpError server now (some sessionString) ↔
      Answerable dumpError server now (some sessionString) := by
  by_cases hfound : ∃ time, server.http.cookies[Http.sessionId sessionString]? = some time ∧
      ¬ Sessioner.isExpired now time
  · obtain ⟨time, hcookie, hfresh⟩ := hfound
    obtain ⟨http, hhandle⟩ := handleRead_of_some dumpError hcookie hfresh
    have hlast : Sessioner.lastAccess server.sessions (Http.sessionId sessionString) =
        some time := h _ _ hcookie
    have hlive : Sessioner.Live server.sessions now (Http.sessionId sessionString) :=
      ⟨time, hlast, hfresh⟩
    have hmem : Http.sessionId sessionString ∈ server.http.cookies :=
      Std.TreeMap.mem_iff_isSome_getElem?.mpr (by simp [hcookie])
    constructor
    · rintro ⟨response, http', heq, -, hstatus⟩
      rw [hhandle] at heq
      cases heq
      refine ⟨hlive, hmem, fun time' hlast' => ?_⟩
      cases hlast.symm.trans hlast'
      exact (status_dump rfl rfl).mp (hstatus (not_not.mpr hlive))
    · rintro ⟨-, -, hwritten⟩
      exact ⟨_, _, hhandle, fun hdead => absurd hlive hdead,
        fun _ => (status_dump rfl rfl).mpr (hwritten time hlast)⟩
  · push Not at hfound
    have hhandle := handleRead_of_not dumpError hfound
    constructor
    · rintro ⟨response, http, heq, hdead, hlive⟩
      rw [hhandle] at heq
      cases heq
      by_cases hsession : Dead server.sessions now (some sessionString)
      · exact absurd (hdead hsession).1 (by simp [Http.exceptionHandler, Sessioner.exception])
      · exact absurd (hlive hsession) (by simp [Http.exceptionHandler, Sessioner.exception])
    · rintro ⟨⟨time, hlast, hfresh⟩, hmem, -⟩
      have hcookie := Std.TreeMap.getElem?_eq_some_getElem hmem
      cases hlast.symm.trans (h _ _ hcookie)
      exact absurd (hfound _ hcookie) hfresh

theorem harmless_of_dead {server : Server} (h : Sessioner.Recent server.history)
    {now : Timestamp} {cookie : Option Bytes} (hdead : Dead server.sessions now cookie) :
    ∃ response http, server.http.handleRead dumpError now cookie = .ok (response, http) ∧
      response.status = 500 ∧ Harmless server now response http := by
  cases cookie with
  | none => exact hdead.elim
  | some sessionString =>
      have hfound : ∀ time,
          server.http.cookies[Http.sessionId sessionString]? = some time →
          Sessioner.isExpired now time := by
        intro time hcookie
        by_contra hfresh
        exact hdead ⟨time, h _ _ hcookie, hfresh⟩
      refine ⟨_, _, handleRead_of_not _ hfound, rfl, ⟨_, rfl⟩, rfl, rfl, fun id hlive => ?_⟩
      obtain ⟨time, hlast, hfresh⟩ := hlive
      rw [Sessioner.getElem?_clearExpiredCookies]
      cases hcookie : server.http.cookies[id]? with
      | none => rfl
      | some stored =>
          cases hlast.symm.trans (h id stored hcookie)
          simp [Option.filter, hfresh]

theorem recent_run {withLimits : Bool} {events : List Event} {server : Server}
    (hrun : run (step sizeofData dumpError) { http := .initial withLimits } events =
      some server) : Sessioner.Recent server.history := by
  refine run_invariant (fun server => Sessioner.Recent server.history)
    (fun _ h hnext => recent_step h hnext) alongRun_true ?_ hrun
  intro id time hcookie
  simp [history, Http.initial] at hcookie

end

/--
In every state of every run: a request is answered as it should be exactly
when there is a session to answer and its readings can be written.  A request
with a dead session leaves everything as it should, but for the status.
-/
theorem answersCleanly_iff_answerable (sizeofData : Nat) (dumpError : Bytes → Option Bytes)
    (withLimits : Bool) (events : List Event) {server : Server}
    (hrun : run (step sizeofData dumpError) { http := .initial withLimits } events =
      some server) (now : Timestamp) (cookie : Option Bytes) :
    (AnswersCleanly dumpError server now cookie ↔ Answerable dumpError server now cookie) ∧
      (Dead server.sessions now cookie →
        ∃ response http, server.http.handleRead dumpError now cookie = .ok (response, http) ∧
          response.status = 500 ∧ Harmless server now response http) := by
  have hrecent := recent_run hrun
  refine ⟨?_, harmless_of_dead hrecent⟩
  cases cookie with
  | none => exact answersCleanly_none
  | some sessionString => exact answersCleanly_some hrecent

/-- While the clock is not set back, the live sessions are among the stored ones. -/
theorem stored_of_live (sizeofData : Nat) (dumpError : Bytes → Option Bytes)
    (withLimits : Bool) (events : List Event)
    (hclock : AlongRun (step sizeofData dumpError) NotEarlier
      { http := .initial withLimits } events) {server : Server}
    (hrun : run (step sizeofData dumpError) { http := .initial withLimits } events =
      some server) {now : Timestamp} (hnow : server.clock ≤ now) {id : Int}
    (hlive : Sessioner.Live server.sessions now id) : id ∈ server.http.cookies := by
  have htracked : Sessioner.Tracked server.history := by
    refine run_invariant (fun server => Sessioner.Tracked server.history)
      (fun hclock h hnext => tracked_step hclock h hnext) hclock ?_ hrun
    exact Sessioner.tracked_initial 0
  exact htracked.stored_of_live hnow hlive

def oneSession : List Event := [.send 10 [speedReading 5 9], .read 20 none]

theorem run_oneSession :
    ∃ server, run (step 200 invalidFirstByte) { http := .initial true } oneSession =
      some server ∧ server.sessions = [⟨1, 20⟩] ∧ server.http.cookies[(1 : Int)]? = some 20 ∧
      server.http.rdbusDataStorage.parseFrom 20 = [] := by
  have hrun : (run (step 200 invalidFirstByte) { http := .initial true } oneSession).map
      (fun server => (server.sessions, server.http.cookies[(1 : Int)]?,
        server.http.rdbusDataStorage.parseFrom 20)) = some ([⟨1, 20⟩], some 20, []) := by
    decide +kernel
  obtain ⟨server, hserver, heq⟩ := Option.map_eq_some_iff.mp hrun
  rw [Prod.mk.injEq, Prod.mk.injEq] at heq
  exact ⟨server, hserver, heq⟩

theorem answersCleanly_oneSession :
    ∃ server, run (step 200 invalidFirstByte) { http := .initial true } oneSession =
      some server ∧ AnswersCleanly invalidFirstByte server 30 (some (str "id=1")) := by
  obtain ⟨server, hrun, hsessions, hcookie, hentries⟩ := run_oneSession
  refine ⟨server, hrun, (answersCleanly_iff_answerable 200 invalidFirstByte true oneSession
    hrun 30 (some (str "id=1"))).1.mpr ?_⟩
  have hid : Http.sessionId (str "id=1") = 1 := by decide +kernel
  rw [Answerable, hid, hsessions]
  refine ⟨by decide, Std.TreeMap.mem_iff_isSome_getElem?.mpr (by simp [hcookie]), ?_⟩
  intro time hlast
  cases hlast
  intro data hdata
  rw [hentries] at hdata
  cases hdata

/-- Session 2 was never issued; the first `catch` clause sets 401 in vain. -/
theorem oneSession_not_answersCleanly :
    ∃ server response http,
      run (step 200 invalidFirstByte) { http := .initial true } oneSession = some server ∧
      Dead server.sessions 30 (some (str "id=2")) ∧
      server.http.handleRead invalidFirstByte 30 (some (str "id=2")) = .ok (response, http) ∧
      response = { status := 500, content := .text (str "Cookie exception - Expired!") } ∧
      ¬ AnswersCleanly invalidFirstByte server 30 (some (str "id=2")) := by
  have hrun : (run (step 200 invalidFirstByte) { http := .initial true } oneSession).map
      (fun server => (decide (Dead server.sessions 30 (some (str "id=2"))),
        (server.http.handleRead invalidFirstByte 30 (some (str "id=2"))).map Prod.fst)) =
      some (true, .ok { status := 500,
                        content := .text (str "Cookie exception - Expired!") }) := by
    decide +kernel
  obtain ⟨server, hserver, heq⟩ := Option.map_eq_some_iff.mp hrun
  rw [Prod.mk.injEq, decide_eq_true_eq] at heq
  obtain ⟨hdead, hreply⟩ := heq
  cases hhandle : server.http.handleRead invalidFirstByte 30 (some (str "id=2")) with
  | error e =>
      rw [hhandle] at hreply
      cases hreply
  | ok result =>
      obtain ⟨response, http⟩ := result
      rw [hhandle] at hreply
      cases hreply
      refine ⟨server, _, http, hserver, hdead, hhandle, rfl, ?_⟩
      rintro ⟨response', http', hhandle', hclean, -⟩
      rw [hhandle] at hhandle'
      cases hhandle'
      cases (hclean hdead).1

end Server

end Rdbus.Out
