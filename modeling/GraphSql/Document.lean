import GraphSql.Data
import GraphSql.Data.Json
import GraphSql.Data.Toml.Reader
import GraphSql.Query

namespace GraphSql

-- Query documents in TOML or JSON. Terms are written as in N-Triples, and variables as `?name`.

structure Triplet where
  first : String
  second : String
  third : String
deriving DecidableEq

structure PatternSpec where
  triples : List Triplet
  filters : List Triplet
deriving DecidableEq

structure OrderSpec where
  target : String
  descending : Bool
deriving DecidableEq

structure Document where
  targets : List String
  order : Option OrderSpec
  required : List PatternSpec
  optional : List PatternSpec
deriving DecidableEq

inductive Format where
  | toml
  | json
deriving DecidableEq

def Format.name : Format → String
  | .toml => "TOML"
  | .json => "JSON"

inductive DocumentError where
  | missing (path : String)
  | unreadable (reason : String)
  | malformed (format : Format)
  | term (part : Part) (index : Nat) (error : TermSyntaxError)
  | filter (part : Part) (index : Nat) (error : ConstantFilter)
deriving DecidableEq

def DocumentError.message : DocumentError → String
  | .missing path => "Query file not found: " ++ path
  | .unreadable reason => "Failed to read query file: " ++ reason
  | .malformed format => "Failed to parse " ++ format.name ++ " query: malformed document"
  | .term part index error =>
    "Invalid term in " ++ part.name ++ "[" ++ index.repr ++ "]: " ++ error.message
  | .filter part index error =>
    "Invalid filter in " ++ part.name ++ "[" ++ index.repr ++ "]: " ++ error.message

namespace Document

-- In TOML, items beyond those that are expected are ignored; in JSON, they are an error.
def ignoresSurplus : Format → Bool
  | .toml => true
  | .json => false

def triplet? (format : Format) : Data → Option Triplet
  | .list (first :: second :: third :: rest) =>
    if rest.isEmpty || ignoresSurplus format then do
      return ⟨← first.text?, ← second.text?, ← third.text?⟩
    else none
  | _ => none

def pattern? (format : Format) (data : Data) : Option PatternSpec := do
  match ← data.record? (ignoresSurplus format) ["triples", "filters"] with
  | [triples, filters] =>
    let triples ← Data.field? [] (Data.list? (triplet? format)) triples
    let filters ← Data.field? [] (Data.list? (triplet? format)) filters
    return ⟨triples, filters⟩
  | _ => none

def orderSpec? (format : Format) (data : Data) : Option OrderSpec := do
  match ← data.record? (ignoresSurplus format) ["target", "desc"] with
  | [some target, descending] =>
    let target ← target.text?
    let descending ← Data.field? false Data.flag? descending
    return ⟨target, descending⟩
  | _ => none

def order? (format : Format) : Data → Option (Option OrderSpec)
  | .null => some none
  | data => (orderSpec? format data).map some

def ofData? (format : Format) (data : Data) : Option Document := do
  match ← data.record? (ignoresSurplus format) ["targets", "order_by", "required", "optional"] with
  | [targets, order, required, optional] =>
    let targets ← Data.field? [] (Data.list? Data.text?) targets
    let order ← Data.field? none (order? format) order
    let required ← Data.field? [] (Data.list? (pattern? format)) required
    let optional ← Data.field? [] (Data.list? (pattern? format)) optional
    return ⟨targets, order, required, optional⟩
  | _ => none

def ofText (format : Format) (text : String) : Except DocumentError Document :=
  let data := match format with
    | .toml => Data.Toml.read? text
    | .json => Data.Json.read? text
  match data.bind (ofData? format) with
  | some document => .ok document
  | none => .error (.malformed format)

def formatOf (path : String) : Format :=
  if (FileState.extension? path).map Text.foldCase = some "json" then .json else .toml

def ofFile (path : String) : FileState → Except DocumentError Document
  | .missing _ => .error (.missing path)
  | .unreadable reason => .error (.unreadable reason)
  | .content text => ofText (formatOf path) text

def ordering (d : Document) : Option (String × Bool) :=
  d.order.map fun o => (o.target, o.descending)

def addTriples (fail : TermSyntaxError → DocumentError) (pattern : GraphPattern) :
    List Triplet → Except DocumentError GraphPattern
  | [] => .ok pattern
  | t :: rest => do
    let triple ← (TriplePattern.ofTexts t.first t.second t.third).mapError fail
    addTriples fail (pattern.addTriple triple) rest

def addFilters (fail : TermSyntaxError → DocumentError) (refuse : ConstantFilter → DocumentError)
    (pattern : GraphPattern) : List Triplet → Except DocumentError GraphPattern
  | [] => .ok pattern
  | t :: rest => do
    let left ← (NodePattern.ofText t.first).mapError fail
    let right ← (NodePattern.ofText t.third).mapError fail
    let filter ← (Filter.make left t.second right).mapError refuse
    addFilters fail refuse (pattern.addFilter filter) rest

def buildPattern (part : Part) (index : Nat) (spec : PatternSpec) :
    Except DocumentError GraphPattern := do
  let pattern ← addTriples (.term part index) .empty spec.triples
  addFilters (.term part index) (.filter part index) pattern spec.filters

def buildPart (part : Part) (index : Nat) : List PatternSpec → Except DocumentError (List Element)
  | [] => .ok []
  | spec :: rest => do
    let pattern ← buildPattern part index spec
    let others ← buildPart part (index + 1) rest
    return .pattern pattern :: others

def toQuery (d : Document) : Except DocumentError Query := do
  let required ← buildPart .required 0 d.required
  let optional ← buildPart .optional 0 d.optional
  return ⟨required, optional⟩

end Document

end GraphSql
