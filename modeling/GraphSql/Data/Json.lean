import GraphSql.Data
import GraphSql.Text.Basic

namespace GraphSql.Data.Json
open Text

-- Reading JSON: strict, without comments, trailing commas or a byte order mark. Keys may repeat,
-- and numbers have any size.

def isSpace (c : Char) : Bool := c == ' ' || c == '\t' || c == '\n' || c == '\r'

def skipSpace (cs : List Char) : List Char := cs.dropWhile isSpace

def shortEscape? : Char → Option Char
  | '"' => some '"'
  | '\\' => some '\\'
  | '/' => some '/'
  | 'b' => some '\x08'
  | 'f' => some '\x0c'
  | 'n' => some '\n'
  | 'r' => some '\r'
  | 't' => some '\t'
  | _ => none

def readCodes : Reader (List Nat)
  | [] => none
  | '"' :: rest => some ([], rest)
  | '\\' :: 'u' :: a :: b :: c :: d :: rest => do
    let code ← readHex [a, b, c, d]
    let (codes, rest) ← readCodes rest
    return (code :: codes, rest)
  | '\\' :: e :: rest => do
    let c ← shortEscape? e
    let (codes, rest) ← readCodes rest
    return (c.toNat :: codes, rest)
  | c :: rest => do
    if c.toNat < 0x20 then none
    else
      let (codes, rest) ← readCodes rest
      return (c.toNat :: codes, rest)

def decode? : List Nat → Option (List Char)
  | [] => some []
  | code :: rest =>
    if isHighHalf code then
      match rest with
      | low :: rest => if isLowHalf low then (decode? rest).map (joinHalves code low :: ·) else none
      | [] => none
    else do
      let c ← scalar? code
      let others ← decode? rest
      return c :: others

def readString : Reader (Option String) := fun cs => do
  let (codes, rest) ← readCodes cs
  return ((decode? codes).map String.ofList, rest)

def skipDigits (cs : List Char) : Option (List Char) :=
  match cs with
  | c :: rest => if c.isDigit then some (rest.dropWhile Char.isDigit) else none
  | [] => none

def skipFraction (cs : List Char) : Option (List Char) :=
  match cs with
  | '.' :: rest => skipDigits rest
  | _ => some cs

def skipExponent (cs : List Char) : Option (List Char) :=
  match cs with
  | 'e' :: rest | 'E' :: rest =>
    match rest with
    | '+' :: rest | '-' :: rest => skipDigits rest
    | _ => skipDigits rest
  | _ => some cs

def skipUnsigned (cs : List Char) : Option (List Char) := do
  let cs ← match cs with
    | '0' :: rest => some rest
    | _ => skipDigits cs
  let cs ← skipFraction cs
  skipExponent cs

def readNumber : Reader Data := fun cs => do
  let cs ← match cs with
    | '-' :: rest => skipUnsigned rest
    | _ => skipUnsigned cs
  return (.number true, cs)

def rules (close : Char) : SeriesRules := ⟨close, fun cs => some (skipSpace cs), false⟩

def readWord (word : List Char) (value : Data) : Reader Data := fun cs =>
  if word.isPrefixOf cs then some (value, cs.drop word.length) else none

def readEntry (value : Reader Data) : Reader (Option String × Data) := fun cs =>
  match cs with
  | '"' :: rest => do
    let (key, rest) ← readString rest
    match skipSpace rest with
    | ':' :: rest => do
      let (found, rest) ← value rest
      return ((key, found), rest)
    | _ => none
  | _ => none

def readValue : Nat → Reader Data
  | 0, _ => none
  | depth + 1, cs =>
    match skipSpace cs with
    | '[' :: rest => (readSeries (rules ']') (readValue depth) rest).map fun (items, rest) =>
      (.list items, rest)
    | '\x7b' :: rest =>
      (readSeries (rules '\x7d') (readEntry (readValue depth)) rest).map fun (entries, rest) =>
        (.table entries, rest)
    | '"' :: rest => (readString rest).map fun (content, rest) => (.text content, rest)
    | 't' :: rest => readWord "rue".toList (.flag true) rest
    | 'f' :: rest => readWord "alse".toList (.flag false) rest
    | 'n' :: rest => readWord "ull".toList .null rest
    | cs => readNumber cs

-- Reads a whole text. It has no more opening characters than characters.
def read? (text : String) : Option Data :=
  match readValue (text.toList.length + 1) text.toList with
  | some (data, rest) => if (skipSpace rest).isEmpty then some data else none
  | none => none

end GraphSql.Data.Json
