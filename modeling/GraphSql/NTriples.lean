import GraphSql.Term
import GraphSql.Text.Basic

namespace GraphSql.NTriples

-- What can be wrong with a term or a line, and where. Offsets count characters from zero.

inductive Cause where
  | openAngle
  | closeAngle
  | absoluteIri
  | quote
  | caret
  | suffixOrEnd
  | quoteOrAngle
  | gap
  | dot
  | languageTag
  | nonAscii
  | unescapedBackslash
  | incompleteEscape
  | illegalEscape
deriving DecidableEq

def Cause.message : Cause → String
  | .openAngle => "Expected '<'"
  | .closeAngle => "Expected '>'"
  | .absoluteIri => "Expected absolute URI"
  | .quote => "Expected '\"'"
  | .caret => "Expected '^'"
  | .suffixOrEnd => "Expected '@', '^', or EOF"
  | .quoteOrAngle => "Expected '\"' or '<'"
  | .gap => "Expected ' ' or TAB"
  | .dot => "Expected '.'"
  | .languageTag => "Expected language tag"
  | .nonAscii => "Non-ASCII character"
  | .unescapedBackslash => "Unescaped backslash"
  | .incompleteEscape => "Incomplete Unicode escape sequence"
  | .illegalEscape => "Illegal Unicode escape sequence"

structure ParseError where
  cause : Cause
  offset : Nat
deriving DecidableEq

namespace ParseError

def message (e : ParseError) : String := e.cause.message ++ " at offset " ++ e.offset.repr

def within (length : Nat) (cause : Cause) (offset : Nat) : ParseError :=
  ⟨cause, min offset (length - 1)⟩

def shift (base length : Nat) (e : ParseError) : ParseError :=
  within length e.cause (e.offset + base)

end ParseError

open Text

-- Escaped text: ASCII only, with `\t`, `\r`, `\n`, `\"`, `\\` and the escapes `\uXXXX` and
-- `\UXXXXXXXX` for everything that has no shape or lies beyond ASCII.

def escapeChar (c : Char) : List Char :=
  if c = '\\' then ['\\', '\\']
  else if c = '"' then ['\\', '"']
  else if c = '\n' then ['\\', 'n']
  else if c = '\r' then ['\\', 'r']
  else if c = '\t' then ['\\', 't']
  else if c.toNat < 0x20 ∨ (0x7F ≤ c.toNat ∧ c.toNat ≤ 0xFFFF) then
    '\\' :: 'u' :: writeHex 4 c.toNat
  else if 0x10000 ≤ c.toNat then '\\' :: 'U' :: writeHex 8 c.toNat
  else [c]

def escape (cs : List Char) : List Char := cs.flatMap escapeChar

def readCode (start width : Nat) (cs : List Char) : Except ParseError Nat :=
  if (cs.take width).length < width then .error ⟨.incompleteEscape, start⟩
  else
    match readHex (cs.take width) with
    | none => .error ⟨.illegalEscape, start⟩
    | some code => .ok code

def readLowHalf (start high : Nat) : List Char → Except ParseError (Char × Nat)
  | '\\' :: 'u' :: rest => do
    let low ← readCode (start + 6) 4 rest
    if isLowHalf low then .ok (joinHalves high low, 11) else .error ⟨.illegalEscape, start⟩
  | _ => .error ⟨.illegalEscape, start⟩

def readEscape (start : Nat) : List Char → Except ParseError (Char × Nat)
  | 't' :: _ => .ok ('\t', 1)
  | 'r' :: _ => .ok ('\r', 1)
  | 'n' :: _ => .ok ('\n', 1)
  | '"' :: _ => .ok ('"', 1)
  | '\\' :: _ => .ok ('\\', 1)
  | 'u' :: rest => do
    let code ← readCode start 4 rest
    if isHighHalf code then readLowHalf start code (rest.drop 4)
    else
      match scalar? code with
      | some c => .ok (c, 5)
      | none => .error ⟨.illegalEscape, start⟩
  | 'U' :: rest => do
    let code ← readCode start 8 rest
    match scalar? code with
    | some c => .ok (c, 9)
    | none => .error ⟨.illegalEscape, start⟩
  | _ => .error ⟨.unescapedBackslash, start⟩

def unescapeFrom (start : Nat) : List Char → Except ParseError (List Char)
  | [] => .ok []
  | c :: rest =>
    if c = '\\' then
      match readEscape start rest with
      | .error e => .error e
      | .ok (decoded, count) =>
        (unescapeFrom (start + 1 + count) (rest.drop count)).map (decoded :: ·)
    else (unescapeFrom (start + 1) rest).map (c :: ·)
termination_by cs => cs.length
decreasing_by all_goals (simp only [List.length_cons, List.length_drop]; omega)

def isAscii (c : Char) : Bool := c.toNat ≤ 0x7F

-- Decodes escaped text. A character beyond ASCII is an error even where a bad escape stands
-- before it.
def unescape (cs : List Char) : Except ParseError (List Char) :=
  match cs.findIdx? (!isAscii ·) with
  | some offset => .error ⟨.nonAscii, offset⟩
  | none => unescapeFrom 0 cs

end GraphSql.NTriples

namespace GraphSql

namespace Iri

def chars (iri : Iri) : List Char := '<' :: iri.text.toList ++ ['>']

def display (iri : Iri) : String := String.ofList iri.chars

end Iri

namespace Node

def quoted (form : String) : List Char := '"' :: NTriples.escape form.toList ++ ['"']

def chars : Node → List Char
  | .iri i => i.chars
  | .plain form => quoted form
  | .tagged form tag => quoted form ++ '@' :: tag.text.toList
  | .typed form datatype => quoted form ++ '^' :: '^' :: datatype.chars

def display (node : Node) : String := String.ofList node.chars

end Node

namespace Triple

def chars (t : Triple) : List Char :=
  t.subject.chars ++ ' ' :: t.predicate.chars ++ ' ' :: t.object.chars ++ [' ', '.']

def display (t : Triple) : String := String.ofList t.chars

end Triple

end GraphSql

namespace GraphSql.NTriples
open Text

-- Reading IRIs, literals, nodes and lines. Every error carries the place of its cause in the text
-- that was given to the outermost reader.

def readIri (cs : List Char) : Except ParseError Iri :=
  match cs with
  | '<' :: rest =>
    if rest.getLast? = some '>' then
      match Iri.ofText (String.ofList rest.dropLast) with
      | .ok iri => .ok iri
      | .error _ => .error ⟨.absoluteIri, 1⟩
    else .error ⟨.closeAngle, cs.length - 1⟩
  | _ => .error ⟨.openAngle, 0⟩

def cutQuoted? : List Char → Option (List Char × List Char)
  | [] => none
  | '"' :: rest => some ([], rest)
  | '\\' :: c :: rest => (cutQuoted? rest).map fun (inner, tail) => ('\\' :: c :: inner, tail)
  | c :: rest => (cutQuoted? rest).map fun (inner, tail) => (c :: inner, tail)

def readSuffix (lexical : String) (start length : Nat) : List Char → Except ParseError Node
  | [] => .ok (.plain lexical)
  | '@' :: tag =>
    match LanguageTag.ofText (String.ofList tag) with
    | .ok tag => .ok (.tagged lexical tag)
    | .error _ => .error ⟨.languageTag, start⟩
  | '^' :: '^' :: datatype =>
    match readIri datatype with
    | .ok iri => .ok (.typed lexical iri)
    | .error e => .error (e.shift (start + 2) length)
  | '^' :: _ => .error (.within length .caret (start + 1))
  | _ => .error ⟨.suffixOrEnd, start⟩

def readLiteral (cs : List Char) : Except ParseError Node :=
  match cs with
  | '"' :: rest =>
    match cutQuoted? rest with
    | none => .error (.within cs.length .quote cs.length)
    | some (inner, tail) =>
      match unescape inner with
      | .error e => .error (e.shift 1 cs.length)
      | .ok lexical => readSuffix (String.ofList lexical) (inner.length + 2) cs.length tail
  | _ => .error ⟨.quote, 0⟩

def readNode (cs : List Char) : Except ParseError Node :=
  match cs with
  | '"' :: _ => readLiteral cs
  | '<' :: _ => (readIri cs).map .iri
  | _ => .error ⟨.quoteOrAngle, 0⟩

def isGap (c : Char) : Bool := c == ' ' || c == '\t'

def readPart {α : Type} (read : List Char → Except ParseError α) (start length : Nat)
    (part : List Char) : Except ParseError α :=
  (read part).mapError (ParseError.shift start length)

def readTerms (length : Nat) (body : List Char) : Except ParseError Triple :=
  let subject := body.takeWhile (!isGap ·)
  let afterSubject := body.dropWhile (!isGap ·)
  if afterSubject.isEmpty then .error (.within length .gap body.length)
  else do
    let subject ← readPart readIri 0 length subject
    let fromPredicate := afterSubject.dropWhile isGap
    let predicate := fromPredicate.takeWhile (!isGap ·)
    let afterPredicate := fromPredicate.dropWhile (!isGap ·)
    if afterPredicate.isEmpty then .error (.within length .gap body.length)
    else
      let predicate ← readPart readIri (body.length - fromPredicate.length) length predicate
      let object := afterPredicate.dropWhile isGap
      let object ← readPart readNode (body.length - object.length) length object
      .ok ⟨subject, predicate, object⟩

def readTriple (line : List Char) : Except ParseError Triple :=
  let upToDot := trimEnd isGap line
  if upToDot.getLast? = some '.' then
    let beforeDot := upToDot.dropLast
    let body := trimEnd isGap beforeDot
    if body.length = beforeDot.length then .error ⟨.gap, beforeDot.length⟩
    else readTerms line.length body
  else .error (.within line.length .dot upToDot.length)

end GraphSql.NTriples
