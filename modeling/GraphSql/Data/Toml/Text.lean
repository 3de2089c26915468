import GraphSql.Data
import GraphSql.Text.Basic

namespace GraphSql.Data.Toml
open Text

def isGap (c : Char) : Bool := c == ' ' || c == '\t'

def isControl (c : Char) : Bool := (c.toNat < 0x20 && c != '\t') || c.toNat == 0x7F

def lineEnd? : List Char → Option (List Char × List Char)
  | '\n' :: rest => some (['\n'], rest)
  | '\r' :: '\n' :: rest => some (['\r', '\n'], rest)
  | _ => none

def readCoded (width : Nat) : Reader Char := fun cs =>
  if (cs.take width).length < width then none
  else do
    let code ← readHex (cs.take width)
    let c ← scalar? code
    return (c, cs.drop width)

def readEscape : Reader Char
  | 'b' :: rest => some ('\x08', rest)
  | 't' :: rest => some ('\t', rest)
  | 'n' :: rest => some ('\n', rest)
  | 'f' :: rest => some ('\x0c', rest)
  | 'r' :: rest => some ('\r', rest)
  | 'e' :: rest => some ('\x1b', rest)
  | '"' :: rest => some ('"', rest)
  | '\\' :: rest => some ('\\', rest)
  | 'x' :: rest => readCoded 2 rest
  | 'u' :: rest => readCoded 4 rest
  | 'U' :: rest => readCoded 8 rest
  | _ => none

-- A backslash at the end of a line joins it with the next one that is not blank: the text after
-- those blanks, if there is a line end among them.
def skipJoint? (cs : List Char) : Option (List Char) :=
  match lineEnd? (cs.dropWhile isGap) with
  | none => none
  | some (_, rest) => some (skipLines rest)
where
  skipLines : List Char → List Char
    | '\r' :: '\n' :: rest => skipLines rest
    | c :: rest => if isGap c || c == '\n' then skipLines rest else c :: rest
    | [] => []

def readBasic : Nat → Reader (List Char)
  | 0, _ => none
  | limit + 1, cs =>
    match cs with
    | [] => none
    | '"' :: rest => some ([], rest)
    | '\\' :: rest => do
      let (c, rest) ← readEscape rest
      let (others, rest) ← readBasic limit rest
      return (c :: others, rest)
    | c :: rest => do
      if isControl c then none
      else
        let (others, rest) ← readBasic limit rest
        return (c :: others, rest)

def readLiteral : Reader (List Char)
  | [] => none
  | '\'' :: rest => some ([], rest)
  | c :: rest => do
    if isControl c then none
    else
      let (others, rest) ← readLiteral rest
      return (c :: others, rest)

-- Three quotes close a string on several lines; up to two more before them belong to it.
def closing? (quote : Char) (cs : List Char) : Option (List Char × List Char) :=
  let run := cs.takeWhile (· == quote)
  if 3 ≤ run.length ∧ run.length ≤ 5 then
    some (List.replicate (run.length - 3) quote, cs.drop run.length)
  else none

def readLines (quote : Char) (escapes : Bool) : Nat → Reader (List Char)
  | 0, _ => none
  | limit + 1, cs =>
    match closing? quote cs with
    | some found => some found
    | none =>
      match lineEnd? cs with
      | some (end_, rest) => do
        let (others, rest) ← readLines quote escapes limit rest
        return (end_ ++ others, rest)
      | none =>
        match cs with
        | [] => none
        | c :: rest =>
          if c = '\\' ∧ escapes = true then
            match skipJoint? rest with
            | some rest => readLines quote escapes limit rest
            | none => do
              let (c, rest) ← readEscape rest
              let (others, rest) ← readLines quote escapes limit rest
              return (c :: others, rest)
          else if isControl c || 6 ≤ (cs.takeWhile (· == quote)).length then none
          else do
            let (others, rest) ← readLines quote escapes limit rest
            return (c :: others, rest)

def skipFirstEnd (cs : List Char) : List Char :=
  match lineEnd? cs with
  | some (_, rest) => rest
  | none => cs

def readShort : Reader String := fun cs =>
  match cs with
  | '"' :: rest => (readBasic (rest.length + 1) rest).map fun (s, rest) => (String.ofList s, rest)
  | '\'' :: rest => (readLiteral rest).map fun (s, rest) => (String.ofList s, rest)
  | _ => none

def readText : Reader String := fun cs =>
  match cs with
  | '"' :: '"' :: '"' :: rest =>
    (readLines '"' true (rest.length + 1) (skipFirstEnd rest)).map fun (s, rest) =>
      (String.ofList s, rest)
  | '\'' :: '\'' :: '\'' :: rest =>
    (readLines '\'' false (rest.length + 1) (skipFirstEnd rest)).map fun (s, rest) =>
      (String.ofList s, rest)
  | _ => readShort cs

end GraphSql.Data.Toml
