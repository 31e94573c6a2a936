import Rdbus.Conversions

/-!
# NMEA responses

The constructor of `Response`.  A blob of `getData` has at most 2048 bytes, so
the positions the source keeps in an `int` are natural numbers here.  A chunk
of one byte has no last but one; what the reverse iterator reads there is the
parameter `outside`.
-/

namespace Rdbus.Communication.Nmea

abbrev dollar : UInt8 := 36
abbrev star : UInt8 := 42
abbrev comma : UInt8 := 44
abbrev cr : UInt8 := 13
abbrev lf : UInt8 := 10

structure Response where
  talkerID : Bytes
  sentenceId : Bytes
  fields : List Bytes
  deriving DecidableEq, Repr

/-- `Response::Exception`. -/
def responseException (what : Bytes) : Throw :=
  .response (str "NMEA parse error - " ++ what)

/-! ## The first token -/

/-- `token[ i ]` of a string, which is NUL at the size. -/
def characterAt (token : Bytes) (i : Nat) : Except Throw UInt8 :=
  index (token ++ [0]) i

def extractTalkerID (token : Bytes) : Except Throw Bytes := do
  let kind ← characterAt token 1
  if kind = 80 then substr token 1 4 else substr token 1 2

def extractSentenceID (token talkerID : Bytes) : Except Throw Bytes :=
  substr token (talkerID.length + 1) token.length

/-! ## Validation -/

def xor (data : Bytes) : UInt8 := data.foldl (· ^^^ ·) 0

/-- Called only where a `*` was found. -/
def computeChecksum (data : Bytes) : Except Throw UInt8 := do
  let covered ← substr data 1 (sizeSub (data.idxOf star) 1)
  .ok (xor covered)

def skipHexPrefix (text : Bytes) : Bytes :=
  match text with
  | c :: x :: rest => if c = 48 ∧ lower x = 120 then rest else text
  | _ => text

/--
`ss >> std::hex >> value` for at most two characters: white space, a sign and a
`0x` are skipped, and a failed extraction stores 0.
-/
def extractHex (text : Bytes) : Int :=
  let (negative, rest) := takeSign (text.dropWhile isSpace)
  signedValue negative (hexadecimal ((skipHexPrefix rest).takeWhile isHexDigit))

def checksum (data : Bytes) : Except Throw Bool := do
  let checksum ← computeChecksum data
  let receivedChecksumString ← substr data (data.idxOf star + 1) 2
  .ok ((checksum.toNat : Int) = extractHex receivedChecksumString)

def beforeLast (outside : UInt8) (data : Bytes) : UInt8 :=
  match data.reverse with
  | _ :: c :: _ => c
  | _ => outside

def validate (outside : UInt8) (data : Bytes) (validateChecksum : Bool) :
    Except Throw Unit := do
  let first ← index data 0
  let last ← index data (data.length - 1)
  if 1 < data.count star ∨ first ≠ dollar ∨ beforeLast outside data ≠ cr ∨ last ≠ lf then
    .error (responseException (str "Invalid message structure!"))
  else if validateChecksum then
    if star ∉ data then .error (responseException (str "No checksum found!"))
    else
      let valid ← checksum data
      if valid then .ok () else .error (responseException (str "Checksum error!"))
  else .ok ()

/-! ## Tokens -/

/-- The loop over `getline`; nothing is left to read behind a final delimiter. -/
def tokensFrom (token : Bytes) : Bytes → List Bytes
  | [] => if token.isEmpty then [] else [token]
  | c :: rest => if c = comma then token :: tokensFrom [] rest
      else tokensFrom (token ++ [c]) rest

def cleanBack (token : Bytes) : Except Throw Bytes :=
  if star ∈ token then substr token 0 (token.idxOf star)
  else substr token 0 (sizeSub token.length 2)

/-- `cleanBack( tokens.back() )`. -/
def cleanTokens (tokens : List Bytes) : Except Throw (List Bytes) := do
  let back ← index tokens (tokens.length - 1)
  let back ← cleanBack back
  .ok (tokens.dropLast ++ [back])

def Response.parse (outside : UInt8) (data : Bytes) (validateChecksum : Bool) :
    Except Throw Response := do
  validate outside data validateChecksum
  let tokens ← cleanTokens (tokensFrom [] data)
  let token ← index tokens 0
  let talkerID ← extractTalkerID token
  let sentenceId ← extractSentenceID token talkerID
  .ok ⟨talkerID, sentenceId, tokens.tail⟩

end Rdbus.Communication.Nmea
