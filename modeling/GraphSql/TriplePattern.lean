import GraphSql.NTriples
import GraphSql.Term
import GraphSql.Text.Characters

namespace GraphSql

-- A variable. Its name has no question mark; its text has one.
structure Variable where
  name : String
  valid : (name ≠ "" ∧ name.toList.all Text.isNameChar = true)
deriving DecidableEq

namespace Variable

def bareName (text : String) : String :=
  match text.toList with
  | '?' :: rest => String.ofList rest
  | _ => text

def ofText (text : String) : Except TermError Variable :=
  if valid : bareName text ≠ "" ∧ (bareName text).toList.all Text.isNameChar = true then
    .ok ⟨bareName text, valid⟩
  else .error (.invalidVariable text)

def display (v : Variable) : String := "?" ++ v.name

end Variable

inductive TermSyntaxError where
  | lexical (error : NTriples.ParseError)
  | term (error : TermError)
deriving DecidableEq

def TermSyntaxError.message : TermSyntaxError → String
  | .lexical error => error.message
  | .term error => error.message

inductive NodePattern where
  | variable (v : Variable)
  | node (n : Node)
deriving DecidableEq

namespace NodePattern

def ofText (text : String) : Except TermSyntaxError NodePattern :=
  match text.toList with
  | '?' :: _ => (Variable.ofText text).mapError .term |>.map .variable
  | cs => (NTriples.readNode cs).mapError .lexical |>.map .node

def asVariable : NodePattern → Option Variable
  | .variable v => some v
  | .node _ => none

def display : NodePattern → String
  | .variable v => v.display
  | .node n => n.display

def folded : NodePattern → NodePattern
  | .variable v => .variable v
  | .node n => .node n.folded

end NodePattern

inductive PredicatePattern where
  | variable (v : Variable)
  | iri (iri : Iri)
deriving DecidableEq

namespace PredicatePattern

def ofText (text : String) : Except TermSyntaxError PredicatePattern :=
  match text.toList with
  | '?' :: _ => (Variable.ofText text).mapError .term |>.map .variable
  | cs => (NTriples.readIri cs).mapError .lexical |>.map .iri

def isVariable : PredicatePattern → Bool
  | .variable _ => true
  | .iri _ => false

def display : PredicatePattern → String
  | .variable v => v.display
  | .iri i => i.display

end PredicatePattern

structure TriplePattern where
  subject : NodePattern
  predicate : PredicatePattern
  object : NodePattern
deriving DecidableEq

namespace TriplePattern

def ofTexts (subject predicate object : String) : Except TermSyntaxError TriplePattern := do
  let subject ← NodePattern.ofText subject
  let predicate ← PredicatePattern.ofText predicate
  let object ← NodePattern.ofText object
  return ⟨subject, predicate, object⟩

def display (t : TriplePattern) : String :=
  t.subject.display ++ " " ++ t.predicate.display ++ " " ++ t.object.display ++ " ."

def folded (t : TriplePattern) : TriplePattern := ⟨t.subject.folded, t.predicate, t.object.folded⟩

def Same (a b : TriplePattern) : Prop := a.folded = b.folded

instance (a b : TriplePattern) : Decidable (Same a b) := inferInstanceAs (Decidable (_ = _))

end TriplePattern

end GraphSql
