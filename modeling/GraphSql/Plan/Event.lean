import GraphSql.Query
import GraphSql.Sql.Condition
import GraphSql.Text.Basic
import GraphSql.Text.Characters

namespace GraphSql

inductive UsageError where
  | variablePredicate (v : Variable)
  | orderByNonTarget (name : String)
  | duplicateTarget (name : String)
  | invalidTarget (error : TermError)
deriving DecidableEq

def UsageError.message : UsageError → String
  | .variablePredicate v => "Predicate must not be a variable: " ++ v.display
  | .orderByNonTarget name => "Cannot order by '" ++ name ++ "': not a target"
  | .duplicateTarget name => "Duplicate target '" ++ name ++ "'"
  | .invalidTarget error => "Invalid target: " ++ error.message

inductive PlanError where
  | unsupportedSubquery
  | cannotBindAllSteps (remaining : List TriplePattern) (bound : List String)
  | filterUnbound (filters : List Filter)
  | filterVariableNotFound (v : Variable)
  | unmappedTarget (name : String)
  | noTargets
  | optionalWithoutRequired
  | optionalConditionInWhere (condition : Sql.Condition)
  | usage (error : UsageError)
deriving DecidableEq

def PlanError.message : PlanError → String
  | .unsupportedSubquery => "Subqueries are not supported"
  | .cannotBindAllSteps remaining bound =>
    "Cannot bind all query steps; remaining: " ++
      " ".intercalate (remaining.map (·.display)) ++
      "; variables already bound: " ++ ", ".intercalate (bound.map ("?" ++ ·))
  | .filterUnbound filters => "Filter is unbound: " ++ " ".intercalate (filters.map (·.display))
  | .filterVariableNotFound v =>
    "Variable " ++ v.display ++ " in filter cannot be found in graph pattern"
  | .unmappedTarget name => "Target '?" ++ name ++ "' is not bound by any pattern"
  | .noTargets => "No targets set"
  | .optionalWithoutRequired => "Optional element has no required element to join against"
  | .optionalConditionInWhere condition =>
    "Condition from an optional element would be applied in WHERE: " ++ condition.display
  | .usage error => error.message

-- An event is a value. Reporting has no effect on the result: `outcome` of a sequence of steps is
-- the sequence of their outcomes.

inductive Level where
  | debug
  | info
  | warn
deriving DecidableEq

def Level.name : Level → String
  | .debug => "DEBUG"
  | .info => "INFO"
  | .warn => "WARN"

inductive Event where
  | targetsSet (targets : List String)
  | processing (part : Part) (element : Element)
  | joinSkipped
  | residualCondition (condition : Sql.Condition)
  | planningPattern (pattern : GraphPattern)
  | redundantPattern (pattern : GraphPattern)
  | joinCondition (condition : Sql.Condition)
  | filterCondition (condition : Sql.Condition)
  | filterAttached (condition : Sql.Condition)
  | twoVariables (filter : Filter)
  | filterDropped (filter : Filter)
  | alreadyPlanned (pattern : TriplePattern)
  | variableBound (v : Variable) (column : Sql.Column)
  | predicateMapped (predicate : Iri) (table aliasName : String)
  | unmappedAgain (predicate : Iri) (aliasName : String)
  | unmapped (predicate : Iri) (aliasName : String)

namespace Event

def level : Event → Level
  | .joinSkipped | .redundantPattern _ => .info
  | .twoVariables _ | .filterDropped _ => .warn
  | _ => .debug

def message : Event → String
  | .targetsSet _ => "targets set"
  | .processing part _ => "processing " ++ part.name ++ " element"
  | .joinSkipped => "skipping join"
  | .residualCondition _ => "adding remaining condition to WHERE"
  | .planningPattern _ => "planning graph pattern"
  | .redundantPattern _ => "pattern is entirely redundant, ignoring"
  | .joinCondition _ => "join condition"
  | .filterCondition _ => "filter condition"
  | .filterAttached _ => "filter attached to single pattern"
  | .twoVariables _ => "both filter operands are variables"
  | .filterDropped _ => "both filter operands are variables, filter not applied"
  | .alreadyPlanned _ => "pattern already planned"
  | .variableBound _ _ => "bound variable"
  | .predicateMapped _ _ _ => "mapped predicate"
  | .unmappedAgain _ _ => "unmapped predicate seen again"
  | .unmapped _ _ => "no table for predicate, using empty relation"

def shortHex (n : Nat) : List Char := Nat.toDigits 16 n

def quotedName (name : String) : String :=
  "\"" ++ String.join (name.toList.map fun c =>
    if Text.isShapeless c then "\\u\x7b" ++ String.ofList (shortHex c.toNat) ++ "\x7d"
    else String.singleton c) ++ "\""

def fields : Event → List (String × String)
  | .targetsSet targets => [("targets", "[" ++ ", ".intercalate (targets.map quotedName) ++ "]")]
  | .processing _ element => [("element", element.display)]
  | .joinSkipped => []
  | .residualCondition c | .joinCondition c | .filterCondition c | .filterAttached c =>
    [("condition", c.display)]
  | .planningPattern p | .redundantPattern p => [("pattern", p.display)]
  | .twoVariables f | .filterDropped f => [("filter", f.display)]
  | .alreadyPlanned p => [("pattern", p.display)]
  | .variableBound v column => [("variable", v.display), ("column", column.display)]
  | .predicateMapped p table aliasName =>
    [("predicate", p.display), ("table", table), ("alias", aliasName)]
  | .unmappedAgain p aliasName | .unmapped p aliasName =>
    [("predicate", p.display), ("alias", aliasName)]

def line (e : Event) : String :=
  e.level.name ++ " " ++ e.message ++
    String.join (e.fields.map fun (name, text) => " " ++ name ++ "=" ++ text)

end Event

structure Logged (ε α : Type) where
  events : List Event
  outcome : Except ε α

namespace Logged

variable {ε δ α β : Type}

instance : Monad (Logged ε) where
  pure a := ⟨[], .ok a⟩
  bind x f :=
    match x.outcome with
    | .error e => ⟨x.events, .error e⟩
    | .ok a => ⟨x.events ++ (f a).events, (f a).outcome⟩

def report (event : Event) : Logged ε Unit := ⟨[event], .ok ()⟩

def fail (error : ε) : Logged ε α := ⟨[], .error error⟩

def ofExcept (outcome : Except ε α) : Logged ε α := ⟨[], outcome⟩

def mapError (f : ε → δ) (x : Logged ε α) : Logged δ α := ⟨x.events, x.outcome.mapError f⟩

@[simp] theorem outcome_pure (a : α) : (pure a : Logged ε α).outcome = .ok a := rfl

@[simp] theorem outcome_bind (x : Logged ε α) (f : α → Logged ε β) :
    (x >>= f).outcome = x.outcome >>= fun a => (f a).outcome := by
  cases h : x.outcome with
  | error e => simp [bind, h, Except.bind]
  | ok a => simp [bind, h, Except.bind]

@[simp] theorem outcome_report (event : Event) :
    (report event : Logged ε Unit).outcome = .ok () := rfl

@[simp] theorem outcome_fail (error : ε) : (fail error : Logged ε α).outcome = .error error := rfl

@[simp] theorem outcome_ofExcept (x : Except ε α) : (ofExcept x).outcome = x := rfl

@[simp] theorem outcome_mapError (f : ε → δ) (x : Logged ε α) :
    (x.mapError f).outcome = x.outcome.mapError f := rfl

end Logged

end GraphSql
