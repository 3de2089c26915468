import GraphSql.Plan

namespace GraphSql
open Sql

-- Compiling a query. A session holds the query with its targets and its ordering; each request for
-- the statement plans it anew.

structure Session where
  tables : TableMap
  query : Query
  dialect : Dialect
  targets : List String
  ordering : Option (String × SortOrder)

structure Compiled where
  statements : List String
  targets : List String
  dialect : Dialect
deriving DecidableEq

namespace Session

def start (tables : TableMap) (query : Query) (dialect : Dialect) : Session :=
  ⟨tables, query, dialect, [], none⟩

def readTargets (names : List String) : List String → Except UsageError (List String)
  | [] => .ok names
  | text :: rest =>
    match Variable.ofText text with
    | .error e => .error (.invalidTarget e)
    | .ok v =>
      if v.name ∈ names then .error (.duplicateTarget v.name)
      else readTargets (names ++ [v.name]) rest

def setTargets (s : Session) (texts : List String) : Logged UsageError Unit × Session :=
  match readTargets [] texts with
  | .error e => (.fail e, s)
  | .ok names => (.report (.targetsSet names), { s with targets := names, ordering := none })

def orderBy (s : Session) (text : String) (descending : Bool) : Except UsageError Unit × Session :=
  let name := Variable.bareName text
  if name ∈ s.targets then
    (.ok (), { s with ordering := some (name, .ofDescending descending) })
  else (.error (.orderByNonTarget name), s)

theorem setTargets_cases (s : Session) (texts : List String) :
    (∃ e, readTargets [] texts = .error e ∧ s.setTargets texts = (.fail e, s)) ∨
      ∃ names, readTargets [] texts = .ok names ∧ s.setTargets texts =
        (.report (.targetsSet names), { s with targets := names, ordering := none }) := by
  unfold setTargets
  cases readTargets [] texts with
  | error e => exact .inl ⟨e, rfl, rfl⟩
  | ok names => exact .inr ⟨names, rfl, rfl⟩

theorem orderBy_cases (s : Session) (text : String) (descending : Bool) :
    (Variable.bareName text ∉ s.targets ∧ s.orderBy text descending =
        (.error (.orderByNonTarget (Variable.bareName text)), s)) ∨
      Variable.bareName text ∈ s.targets ∧ s.orderBy text descending =
        (.ok (), { s with
          ordering := some (Variable.bareName text, .ofDescending descending) }) := by
  by_cases held : Variable.bareName text ∈ s.targets
  · exact .inr ⟨held, if_pos held⟩
  · exact .inl ⟨held, if_neg held⟩

def plan (s : Session) : Logged PlanError Plan :=
  Plan.ofQuery s.tables s.query s.targets s.ordering

def statements (s : Session) : Logged PlanError (List String) := do
  let plan ← s.plan
  return [plan.render s.dialect]

def ordered (s : Session) : Option (String × Bool) → Except UsageError Unit × Session
  | none => (.ok (), s)
  | some (target, descending) => s.orderBy target descending

def compile (tables : TableMap) (query : Query) (targets : List String)
    (ordering : Option (String × Bool)) (dialect : Dialect) : Logged PlanError Compiled := do
  let (chosen, s) := (start tables query dialect).setTargets targets
  chosen.mapError .usage
  let (placed, s) := s.ordered ordering
  .ofExcept (placed.mapError .usage)
  let statements ← s.statements
  return ⟨statements, s.targets, dialect⟩

end Session

end GraphSql
