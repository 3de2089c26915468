import GraphSql.Plan.State

namespace GraphSql
open Sql

-- The first triple that gets a table is the seed. Then, as long as triples remain, the first of
-- them that has a constant or a bound variable is joined. Its ON clause has the equalities of its
-- bound variables, the filters whose variables are all bound by then, and the conditions that wait
-- under its alias.

structure Growth where
  state : PlanState
  bindings : Bindings
  tree : JoinTree
  filters : List Filter

namespace Growth

def equality? (bindings : Bindings) (column : Column) (node : NodePattern) : Option Condition := do
  let v ← node.asVariable
  let held ← bindings.lookup v.name
  if held = column then none else some (.equal (.column held) (.column column))

def equate (aliasName : String) (found : Option Condition) (s : PlanState) (on : List Condition) :
    Logged PlanError (PlanState × List Condition) := do
  match found with
  | none => return (s, on)
  | some condition =>
    .report (.joinCondition condition)
    return (s.removePending aliasName condition, appendNew on condition)

def isReady (bindings : Bindings) (joined : Bindings) (filter : Filter) : Bool :=
  filter.vars.all (fun v => (bindings.lookup v.name).isSome) &&
    filter.vars.any fun v => joined.any (·.1 == v.name)

def operand (bindings : Bindings) : NodePattern → Except PlanError Operand
  | .variable v =>
    match bindings.lookup v.name with
    | some column => .ok (.column column)
    | none => .error (.filterVariableNotFound v)
  | .node n => .ok (.value n.display)

def condition (bindings : Bindings) (filter : Filter) : Except PlanError Condition := do
  let left ← operand bindings filter.left
  let right ← operand bindings filter.right
  return .compare left filter.operator right

def place (bindings : Bindings) (on : List Condition) :
    List Filter → Logged PlanError (List Condition)
  | [] => return on
  | filter :: rest => do
    if filter.vars.length = 2 then .report (.twoVariables filter)
    let found ← .ofExcept (condition bindings filter)
    .report (.filterCondition found)
    place bindings (appendNew on found) rest

def join (g : Growth) (pattern : TriplePattern) (relation : Relation) :
    Logged PlanError Growth := do
  let subject := equality? g.bindings (relation.column .subject) pattern.subject
  let object := equality? g.bindings (relation.column .object) pattern.object
  let (s, on) ← equate relation.aliasName subject g.state []
  let (s, on) ← equate relation.aliasName object s on
  let member := JoinTree.table relation pattern
  let joined := g.tree.heldVariables ++ member.heldVariables
  let on ← place g.bindings on (g.filters.filter (isReady g.bindings joined))
  let (waiting, s) := s.takePending relation.aliasName
  return {
    state := s
    bindings := g.bindings
    tree := g.tree.add .inner member (appendAllNew on waiting)
    filters := g.filters.filter (!isReady g.bindings joined ·) }

def isJoinable (bindings : Bindings) (pattern : TriplePattern) : Bool :=
  isBound bindings pattern.subject || isBound bindings pattern.object

def extend (g : Growth) (remaining : List TriplePattern) : Logged PlanError Growth :=
  if remaining.isEmpty then return g
  else
    match _taken : takeFirst? (isJoinable g.bindings) remaining with
    | none => .fail (.cannotBindAllSteps remaining (g.bindings.map (·.1)))
    | some (pattern, others) => do
      let (found, s, bindings) ← (g.state.bind g.bindings pattern).mapError .usage
      let g := { g with state := s, bindings := bindings }
      match found with
      | none => extend g others
      | some relation => do
        let g ← g.join pattern relation
        extend g others
termination_by remaining.length
decreasing_by
  all_goals
    have shorter := takeFirst?_length _ _ _ _taken
    simp only at shorter
    omega

end Growth

def findSeed (s : PlanState) (bindings : Bindings) : List TriplePattern →
    Logged PlanError (Option (TriplePattern × Relation × List TriplePattern) × PlanState × Bindings)
  | [] => return (none, s, bindings)
  | pattern :: rest => do
    let (found, s, bindings) ← (s.bind bindings pattern).mapError .usage
    match found with
    | some relation => return (some (pattern, relation, rest), s, bindings)
    | none => findSeed s bindings rest

def seedColumn (pattern : TriplePattern) (relation : Relation) (v : Variable) :
    Except PlanError Column :=
  if pattern.subject.asVariable = some v then .ok (relation.column .subject)
  else if pattern.object.asVariable = some v then .ok (relation.column .object)
  else .error (.filterVariableNotFound v)

-- Lets filters wait under the alias of the only triple. A filter between two variables is
-- dropped.
def attachFilters (pattern : TriplePattern) (relation : Relation) (s : PlanState) :
    List Filter → Logged PlanError PlanState
  | [] => return s
  | filter :: rest => do
    match filter.sides with
    | .variablePair _ _ =>
      .report (.filterDropped filter)
      attachFilters pattern relation s rest
    | .variableNode v n =>
      let column ← .ofExcept (seedColumn pattern relation v)
      let condition := Condition.compare (.column column) filter.operator (.value n.display)
      .report (.filterAttached condition)
      attachFilters pattern relation (s.addPending relation.aliasName condition) rest
    | .nodeVariable n v =>
      let column ← .ofExcept (seedColumn pattern relation v)
      let condition := Condition.compare (.value n.display) filter.operator (.column column)
      .report (.filterAttached condition)
      attachFilters pattern relation (s.addPending relation.aliasName condition) rest

def planPattern (s : PlanState) (bindings : Bindings) (pattern : GraphPattern) :
    Logged PlanError (Option JoinTree × PlanState × Bindings) := do
  .report (.planningPattern pattern)
  let (seed, s, bindings) ← findSeed s bindings pattern.triples
  match seed with
  | none =>
    .report (.redundantPattern pattern)
    return (none, s, bindings)
  | some (triple, relation, others) =>
    let g ← Growth.extend ⟨s, bindings, .table relation triple, pattern.filters⟩ others
    if g.filters.isEmpty then return (some g.tree, g.state, g.bindings)
    else if g.tree.isLong then .fail (.filterUnbound g.filters)
    else
      let s ← attachFilters triple relation g.state g.filters
      return (some g.tree, s, g.bindings)

end GraphSql
