import GraphSql.Plan.Alias

namespace GraphSql
open Sql

-- The conditions that wait under one alias. `part` is the part of the query that was being planned
-- when the first of them came.
structure Pending where
  aliasName : String
  part : Part
  conditions : List Condition
deriving DecidableEq

structure PlanState where
  aliases : Aliases
  planned : List TriplePattern
  pending : List Pending
  part : Part
deriving DecidableEq

namespace PlanState

def fresh (tables : TableMap) : PlanState := ⟨.fresh tables, [], [], .required⟩

def setPart (s : PlanState) (part : Part) : PlanState := { s with part := part }

def insertPending (part : Part) (aliasName : String) (condition : Condition) :
    List Pending → List Pending
  | [] => [⟨aliasName, part, [condition]⟩]
  | entry :: rest =>
    if entry.aliasName = aliasName then
      { entry with conditions := appendNew entry.conditions condition } :: rest
    else entry :: insertPending part aliasName condition rest

def addPending (s : PlanState) (aliasName : String) (condition : Condition) : PlanState :=
  { s with pending := insertPending s.part aliasName condition s.pending }

-- Removes one condition. The alias keeps its place even if nothing waits under it any more.
def removePending (s : PlanState) (aliasName : String) (condition : Condition) : PlanState :=
  { s with
    pending := s.pending.map fun entry =>
      if entry.aliasName = aliasName then
        { entry with conditions := entry.conditions.erase condition }
      else entry }

def pendingFor (s : PlanState) (aliasName : String) : List Condition :=
  ((s.pending.find? (·.aliasName = aliasName)).map (·.conditions)).getD []

def takePending (s : PlanState) (aliasName : String) : List Condition × PlanState :=
  (s.pendingFor aliasName, { s with pending := s.pending.filter (·.aliasName ≠ aliasName) })

def drainPending (s : PlanState) : List (Part × Condition) × PlanState :=
  (s.pending.flatMap fun entry => entry.conditions.map fun c => (entry.part, c),
    { s with pending := [] })

-- Gives the node in `column` its column: a variable that has none is bound to it, a variable of the
-- same table is equated with it, and a constant is a condition on it. A variable of another table
-- is left to the join.
def bindNode (s : PlanState) (bindings : Bindings) (column : Column) :
    NodePattern → Logged UsageError (PlanState × Bindings)
  | .variable v =>
    match bindings.lookup v.name with
    | none => do
      .report (.variableBound v column)
      return (s, bindings ++ [(v.name, column)])
    | some held =>
      if held.table = column.table ∧ held ≠ column then
        return (s.addPending column.table (.equal (.column held) (.column column)), bindings)
      else return (s, bindings)
  | .node n =>
    return (s.addPending column.table (.equal (.column column) (.value n.display)), bindings)

def bind (s : PlanState) (bindings : Bindings) (pattern : TriplePattern) :
    Logged UsageError (Option Relation × PlanState × Bindings) := do
  if pattern.folded ∈ s.planned then
    .report (.alreadyPlanned pattern)
    return (none, s, bindings)
  else
    let (relation, aliases) ← s.aliases.issue pattern.predicate
    let s := { s with aliases := aliases, planned := s.planned ++ [pattern.folded] }
    let (s, bindings) ← s.bindNode bindings (relation.column .subject) pattern.subject
    let (s, bindings) ← s.bindNode bindings (relation.column .object) pattern.object
    return (some relation, s, bindings)

end PlanState

def isBound (bindings : Bindings) : NodePattern → Bool
  | .variable v => (bindings.lookup v.name).isSome
  | .node _ => true

end GraphSql
