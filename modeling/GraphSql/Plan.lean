import GraphSql.Plan.Pattern
import GraphSql.Sql.Select

namespace GraphSql
open Sql

-- The trees of the required elements are joined to one another through shared variables. Each
-- optional element is planned against the bindings of the required part only, and its left join
-- takes all conditions that wait for it. What still waits at the end is the WHERE clause.

inductive Plan where
  | empty
  | select (statement : Select)
deriving DecidableEq

namespace Plan

def render (d : Dialect) : Plan → String
  | .empty => "SELECT 1 WHERE 1=0"
  | .select statement => statement.render d

def patternOf : Element → Except PlanError GraphPattern
  | .pattern p => .ok p
  | .subquery _ _ => .error .unsupportedSubquery

structure Progress where
  state : PlanState
  required : Bindings
  all : Bindings
  tree : Option JoinTree

def addRequired (p : Progress) (element : Element) : Logged PlanError Progress := do
  .report (.processing .required element)
  let pattern ← .ofExcept (patternOf element)
  let (found, s, bindings) ← planPattern p.state p.required pattern
  let p := { p with state := s, required := bindings }
  match found, p.tree with
  | none, _ =>
    .report .joinSkipped
    return p
  | some member, none => return { p with tree := some member }
  | some member, some tree =>
    return { p with tree := some (tree.add .inner member (tree.links member bindings)) }

def takeAll (s : PlanState) : List String → List Condition × PlanState
  | [] => ([], s)
  | aliasName :: rest =>
    let (first, s) := s.takePending aliasName
    let (others, s) := takeAll s rest
    (first ++ others, s)

def addBindings (bindings more : Bindings) : Bindings :=
  more.foldl (fun bindings entry =>
    if (bindings.lookup entry.1).isSome then bindings else bindings ++ [entry]) bindings

def addOptional (p : Progress) (element : Element) : Logged PlanError Progress := do
  .report (.processing .optional element)
  let pattern ← .ofExcept (patternOf element)
  match p.tree with
  | none => .fail .optionalWithoutRequired
  | some tree =>
    let (found, s, bindings) ← planPattern p.state p.required pattern
    match found with
    | none =>
      .report .joinSkipped
      return { p with state := s }
    | some member =>
      let (waiting, s) := takeAll s member.aliases
      return { p with
        state := s
        all := addBindings p.all bindings
        tree := some (tree.add .left member (tree.links member p.required ++ waiting)) }

def addEach (add : Progress → Element → Logged PlanError Progress) (p : Progress) :
    List Element → Logged PlanError Progress
  | [] => return p
  | element :: rest => do
    let p ← add p element
    addEach add p rest

def columnOf (bindings : Bindings) (target : String) : Except PlanError Column :=
  match bindings.lookup target with
  | some column => .ok column
  | none => .error (.unmappedTarget target)

def residual : List (Part × Condition) → Except PlanError (List Condition)
  | [] => .ok []
  | (.required, condition) :: rest => (residual rest).map (condition :: ·)
  | (.optional, condition) :: _ => .error (.optionalConditionInWhere condition)

def reportEach (event : Condition → Event) : List Condition → Logged PlanError Unit
  | [] => return ()
  | condition :: rest => do
    .report (event condition)
    reportEach event rest

def finish (p : Progress) (tree : JoinTree) (targets : List String)
    (order : Option (String × SortOrder)) : Logged PlanError Plan := do
  if targets.isEmpty then .fail .noTargets
  else
    let columns ← .ofExcept (targets.mapM (columnOf p.all))
    let conditions ← .ofExcept (residual p.state.drainPending.1)
    reportEach .residualCondition conditions
    match order with
    | none => return .select ⟨columns, tree, conditions, none⟩
    | some (target, direction) =>
      let column ← .ofExcept (columnOf p.all target)
      return .select ⟨columns, tree, conditions, some (column, direction)⟩

def ofQuery (tables : TableMap) (query : Query) (targets : List String)
    (order : Option (String × SortOrder)) : Logged PlanError Plan := do
  let p ← addEach addRequired ⟨.fresh tables, [], [], none⟩ query.required
  let p := { p with state := p.state.setPart .optional, all := p.required }
  let p ← addEach addOptional p query.optional
  match p.tree with
  | none => return .empty
  | some tree => finish p tree targets order

end Plan

end GraphSql
