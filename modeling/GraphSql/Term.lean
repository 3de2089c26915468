import GraphSql.Iri
import GraphSql.Text.Basic

namespace GraphSql

-- Equality of Lean values is exact. The graph's own comparison ignores the case of language tags,
-- and is equality of the `folded` forms.

inductive TermError where
  | invalidIri (text : String)
  | emptyLanguageTag
  | invalidVariable (text : String)
deriving DecidableEq

def TermError.message : TermError → String
  | .invalidIri text => "Not an absolute IRI <" ++ text ++ ">"
  | .emptyLanguageTag => "Language tag must not be empty"
  | .invalidVariable text => "Invalid variable name '" ++ text ++ "'"

structure Iri where
  text : String
  absolute : Iri.isAbsolute text.toList = true
deriving DecidableEq

namespace Iri

def ofText (text : String) : Except TermError Iri :=
  if absolute : isAbsolute text.toList = true then .ok ⟨text, absolute⟩
  else .error (.invalidIri text)

def compare (a b : Iri) : Ordering := Ord.compare a.text b.text

end Iri

structure LanguageTag where
  text : String
  nonempty : text ≠ ""
deriving DecidableEq

namespace LanguageTag

def ofText (text : String) : Except TermError LanguageTag :=
  if empty : text = "" then .error .emptyLanguageTag else .ok ⟨text, empty⟩

def folded (tag : LanguageTag) : LanguageTag :=
  ⟨Text.foldCase tag.text, Text.foldCase_ne_empty tag.text tag.nonempty⟩

def Same (a b : LanguageTag) : Prop := a.folded = b.folded

instance (a b : LanguageTag) : Decidable (Same a b) := inferInstanceAs (Decidable (_ = _))

end LanguageTag

inductive Node where
  | iri (iri : Iri)
  | plain (lexical : String)
  | tagged (lexical : String) (tag : LanguageTag)
  | typed (lexical : String) (datatype : Iri)
deriving DecidableEq

namespace Node

def lexical : Node → String
  | .iri i => i.text
  | .plain form | .tagged form _ | .typed form _ => form

def folded : Node → Node
  | .tagged form tag => .tagged form tag.folded
  | node => node

def Same (a b : Node) : Prop := a.folded = b.folded

instance (a b : Node) : Decidable (Same a b) := inferInstanceAs (Decidable (_ = _))

end Node

structure Triple where
  subject : Iri
  predicate : Iri
  object : Node
deriving DecidableEq

end GraphSql
