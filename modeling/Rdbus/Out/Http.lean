import Rdbus.Conversions
import Rdbus.Out.Buffer
import Rdbus.Processing.Limits

/-!
# The HTTP server

The handlers run under one mutex, so each request and each `send` is one
function of the server state.  `now` is the clock read by the default argument
of `Sessioner::create` and `Sessioner::getLastAccessTime`, and `dumpError` what
`json::dump` throws at a text: nothing where the text is valid UTF-8.
-/

namespace Rdbus.Out

open Foundation

namespace Sessioner

/-- The member `cookies`. -/
abbrev Cookies := Std.TreeMap Int Timestamp

/-- Five minutes. -/
def inactivityTimeout : Int := 300000000000

def exception (what : Bytes) : Throw := .session (str "Cookie exception - " ++ what)

/-- Ids are `int`; the one after the largest `int` does not exist. -/
def create (cookies : Cookies) (now : Timestamp) : Except Throw (Int × Cookies) :=
  let lastId := match cookies.keys.getLast? with
    | none => 1
    | some id => id + 1
  if lastId < 2 ^ 31 then .ok (lastId, cookies.insert lastId now)
  else .error .undefinedBehaviour

def isExpired (now lastAccess : Timestamp) : Bool := inactivityTimeout ≤ now - lastAccess

def clearExpiredCookies (cookies : Cookies) (now : Timestamp) : Cookies :=
  let expiredCookies := cookies.toList.filter fun cookie => isExpired now cookie.2
  expiredCookies.foldl (fun cookies cookie => cookies.erase cookie.1) cookies

/-- The expired cookies are gone also when the id is not found. -/
def getLastAccessTime (cookies : Cookies) (id : Int) (now : Timestamp) :
    Except Throw Timestamp × Cookies :=
  let cookies := clearExpiredCookies cookies now
  match cookies[id]? with
  | none => (.error (exception (str "Expired!")), cookies)
  | some lastAccessTime => (.ok lastAccessTime, cookies.insert id now)

end Sessioner

/-- `Storage` and `Sessioner`; a processor without a buffer has no entry in the map. -/
structure Http where
  rdbusDataStorage : Buffer Rdbus.Data
  limitsStorage : Option (Buffer Processing.Limits.Data)
  cookies : Sessioner.Cookies

namespace Http

/-- The constructors, for configurations with or without a `limits` processor. -/
def initial (withLimits : Bool) : Http where
  rdbusDataStorage := { type := .stream }
  limitsStorage := if withLimits then some { type := .single } else none
  cookies := ∅

inductive Content where
  | data (entries : List Rdbus.Data)
  | limits (entries : List Processing.Limits.Data)
  | text (message : Bytes)
  deriving DecidableEq

structure Response where
  status : Nat := 200
  setCookie : Option Int := none
  content : Content
  deriving DecidableEq

/-- `sessionString.substr( sessionString.find( '=' ) + 1 )`; `npos + 1` is zero. -/
def cookieValue (sessionString : Bytes) : Bytes :=
  match sessionString.findIdx? (· = 61) with
  | some i => sessionString.drop (i + 1)
  | none => sessionString

def sessionId (sessionString : Bytes) : Int := atoi (cookieValue sessionString)

/-- The status set in the first `catch` clause is overwritten at the end. -/
def exceptionHandler (e : Throw) : Response :=
  match e with
  | .session what => { status := 500, content := .text what }
  | e => { status := 500, content := .text (str "HTTP - " ++ e.what) }

/-- `HTTP::send` of readings. -/
def send (sizeofData : Nat) (now : Timestamp) (http : Http) (list : List Rdbus.Data) :
    Http :=
  let buffer := http.rdbusDataStorage.add Rdbus.Data.deviceName sizeofData now list
  { http with rdbusDataStorage := buffer }

/-- `HTTP::send` of processor output; `map::at` throws without a buffer. -/
def sendLimits (sizeofData : Nat) (now : Timestamp) (http : Http)
    (list : List Processing.Limits.Data) : Except Throw Http :=
  match http.limitsStorage with
  | none => .error (.std (str "map::at"))
  | some buffer =>
      let buffer := buffer.add Processing.Limits.Data.deviceName sizeofData now list
      .ok { http with limitsStorage := some buffer }

/--
The text of the reply: `json::dump` writes it or throws at the first text it
cannot write, after the headers are set.
-/
def Response.dump (dumpError : Bytes → Option Bytes) (response : Response) : Response :=
  let texts := match response.content with
    | .data entries => entries.flatMap Rdbus.Data.texts
    | .limits entries => entries.flatMap Processing.Limits.Data.texts
    | .text _ => []
  match texts.findSome? dumpError with
  | none => response
  | some what => { exceptionHandler (.std what) with setCookie := response.setCookie }

/-- The `/read` handler under the lock; a time point is constructed as the epoch. -/
def read (now : Timestamp) (http : Http) (cookie : Option Bytes) :
    Except Throw (Response × Http) :=
  match cookie with
  | none => do
      let (id, cookies) ← Sessioner.create http.cookies now
      let entries := http.rdbusDataStorage.parseFrom 0
      .ok ({ setCookie := some id, content := .data entries }, { http with cookies })
  | some sessionString =>
      match Sessioner.getLastAccessTime http.cookies (sessionId sessionString) now with
      | (.ok lastTime, cookies) =>
          let entries := http.rdbusDataStorage.parseFrom lastTime
          .ok ({ content := .data entries }, { http with cookies })
      | (.error e, cookies) => .ok (exceptionHandler e, { http with cookies })

/-- The `/read` handler. -/
def handleRead (dumpError : Bytes → Option Bytes) (now : Timestamp) (http : Http)
    (cookie : Option Bytes) : Except Throw (Response × Http) := do
  let (response, http) ← read now http cookie
  .ok (response.dump dumpError, http)

/-- The `/process/limits` handler. -/
def processLimits (dumpError : Bytes → Option Bytes) (http : Http) : Response :=
  match http.limitsStorage with
  | none => exceptionHandler (.std (str "map::at"))
  | some buffer =>
      let response : Response := { content := .limits (buffer.parseFrom 0) }
      response.dump dumpError

end Http

end Rdbus.Out
