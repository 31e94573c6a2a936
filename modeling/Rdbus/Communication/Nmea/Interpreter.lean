import Rdbus.Communication.Nmea.Response
import Rdbus.Config.Nmea

/-!
# NMEA interpretation

`split` cuts a blob in front of every `$`, and `parse` turns the fields of a
response into values of the configured types.
-/

namespace Rdbus.Communication.Nmea

open Config.Nmea

/-- `tools::Exception`. -/
def toolsException (what : Bytes) : Throw :=
  interpreterException (str "NMEA - " ++ what)

def findSentence (sentences : List Sentence) (sentenceId : Bytes) :
    Except Throw Sentence :=
  match sentences.find? fun sentence => sentence.id = sentenceId with
  | some sentence => .ok sentence
  | none => .error (toolsException (str "Unknown sentence type - " ++ sentenceId))

/-- The `switch` over the configured type. -/
def convert (type : DataType) (text : Bytes) : Except Throw (Option Variant) :=
  match type with
  | .int64 => (stoll text).map fun value => some (.int64 value)
  | .uint64 => (stoull text).map fun value => some (.uint64 value)
  | .double => (stod text).map fun bits => some (.double bits)
  | .string => .ok (some (.string text))
  | .none => .ok none
  | type => .error (toolsException (str "Unsupported type " ++
      str (toString type.toNat) ++ str "!"))

/-- The `catch` clauses around it. -/
def rethrown {α : Type} (outcome : Except Throw α) : Except Throw α :=
  match outcome with
  | .error (.std what) => .error (toolsException what)
  | outcome => outcome

def parseField (timestamp : Timestamp) (field : Field) (text : Bytes) :
    Except Throw Data.Field :=
  if text.isEmpty then .ok { name := field.name, timestamp }
  else do
    let value ← rethrown (convert field.type text)
    .ok { name := field.name, value, timestamp }

def parse (response : Response) (sentences : List Sentence) (timestamp : Timestamp) :
    Except Throw (List Data.Field) := do
  let sentence ← findSentence sentences response.sentenceId
  if sentence.fields.length ≠ response.fields.length then
    .error (toolsException (str "Incoming sentence (" ++ response.sentenceId ++
      str ") and sentence size in config mismatch!"))
  else (sentence.fields.zip response.fields).mapM fun (field, text) =>
    parseField timestamp field text

/-! ## Splitting -/

/-- `result.back().emplace_back( c )`, if there is a back. -/
def appendToBack (result : List Bytes) (c : UInt8) : List Bytes :=
  match result.getLast? with
  | none => result
  | some chunk => result.dropLast ++ [chunk ++ [c]]

def splitStep (result : List Bytes) (c : UInt8) : List Bytes :=
  appendToBack (if c = dollar then result ++ [[]] else result) c

def split (data : Bytes) : List Bytes :=
  data.foldl splitStep []

end Rdbus.Communication.Nmea
