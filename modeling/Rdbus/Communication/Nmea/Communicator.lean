import Rdbus.Communication.Nmea.Interpreter

/-!
# The NMEA communicator

`Communicator::receive` turns one blob of `getData` into one entry for every
chunk.  `outside k` is what an out-of-range character read returns while the
`k`-th chunk is parsed.
-/

namespace Rdbus.Communication.Nmea

open Config

def errorEntry (settings : NMEA) (code : Data.Error.Code) (what : Bytes) : Data :=
  { deviceName := settings.name, error := some ⟨code, what⟩ }

/-- The body of the `try` block. -/
def interpret (outside : UInt8) (settings : NMEA) (timestamp : Timestamp)
    (chunk : Bytes) : Except Throw Data := do
  let response ← Response.parse outside chunk settings.withChecksum
  let fields ← parse response settings.sentences timestamp
  .ok { deviceName := settings.name, fields, metadata := some response.sentenceId }

/-- The `catch` clauses; anything else leaves the function. -/
def caught (settings : NMEA) (outcome : Except Throw Data) : Except Throw Data :=
  match outcome with
  | .error (.response what) | .error (.interpreter what) =>
      .ok (errorEntry settings .nmea what)
  | outcome => outcome

def receiveFrom (outside : Nat → UInt8) (settings : NMEA) (timestamp : Timestamp) :
    Nat → List Bytes → Except Throw (List Data)
  | _, [] => .ok []
  | k, chunk :: chunks => do
      let entry ← caught settings (interpret (outside k) settings timestamp chunk)
      let entries ← receiveFrom outside settings timestamp (k + 1) chunks
      .ok (entry :: entries)

/-- `Communicator::receive`. -/
def receive (outside : Nat → UInt8) (getData : Except Throw Bytes)
    (timestamp : Timestamp) (settings : NMEA) : Except Throw (List Data) :=
  match getData with
  | .error (.timeout _) => .ok []
  | .error (.os what) => .ok [errorEntry settings .os what]
  | .error e => .error e
  | .ok rawed =>
      let chunks := split rawed
      if chunks.isEmpty then
        .ok [errorEntry settings .nmea (str "Unidentifiable response!")]
      else receiveFrom outside settings timestamp 0 chunks

end Rdbus.Communication.Nmea
