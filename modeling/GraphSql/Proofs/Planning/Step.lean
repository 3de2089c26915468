import GraphSql.Plan
import GraphSql.Proofs.Basic

namespace GraphSql
open Sql

-- What the steps of planning do to the state, the bindings and the tree, apart from their reports.
-- Each step is a function of its own here, and planning is proved to take exactly these steps.

namespace Logged

variable {ε α β : Type}

theorem outcome_bind_ok {x : Logged ε α} {f : α → Logged ε β} {b : β} :
    (x >>= f).outcome = .ok b ↔ ∃ a, x.outcome = .ok a ∧ (f a).outcome = .ok b := by
  rw [outcome_bind]
  exact bind_ok_iff

end Logged

theorem takeFirst?_split {α : Type} {wanted : α → Bool} {items others : List α} {found : α}
    (taken : takeFirst? wanted items = some (found, others)) :
    ∃ front back, items = front ++ found :: back ∧ others = front ++ back ∧
      (∀ item ∈ front, wanted item = false) ∧ wanted found = true := by
  induction items generalizing others with
  | nil => cases taken
  | cons head rest ih =>
    unfold takeFirst? at taken
    split at taken
    next first =>
      cases taken
      exact ⟨[], _, rfl, rfl, by simp, first⟩
    next later =>
      obtain ⟨⟨inner, left⟩, hinner, same⟩ := Option.map_eq_some_iff.mp taken
      cases same
      obtain ⟨front, back, rfl, rfl, unwanted, wanted⟩ := ih hinner
      exact ⟨head :: front, back, rfl, rfl, by simpa [later] using unwanted, wanted⟩

theorem mem_takeFirst? {α : Type} {wanted : α → Bool} {items others : List α} {found : α}
    (taken : takeFirst? wanted items = some (found, others)) (item : α) :
    item ∈ items ↔ item = found ∨ item ∈ others := by
  obtain ⟨front, back, rfl, rfl, -, -⟩ := takeFirst?_split taken
  simp [or_left_comm]

namespace PlanState

def await (s : PlanState) (aliasName : String) (conditions : List Condition) : PlanState :=
  conditions.foldl (fun s c => s.addPending aliasName c) s

def release (s : PlanState) (aliasName : String) (conditions : List Condition) : PlanState :=
  conditions.foldl (fun s c => s.removePending aliasName c) s

def ownCondition? (bindings : Bindings) (column : Column) : NodePattern → Option Condition
  | .variable v =>
    match bindings.lookup v.name with
    | none => none
    | some held =>
      if held.table = column.table ∧ held ≠ column then
        some (.equal (.column held) (.column column))
      else none
  | .node n => some (.equal (.column column) (.value n.display))

def nodeVariables (column : Column) (node : NodePattern) : Bindings :=
  (node.asVariable.map fun v => (v.name, column)).toList

def ownConditions (bindings : Bindings) (leaf : Relation × TriplePattern) : List Condition :=
  (ownCondition? bindings (leaf.1.column .subject) leaf.2.subject).toList ++
    (ownCondition?
      (Plan.addBindings bindings (nodeVariables (leaf.1.column .subject) leaf.2.subject))
      (leaf.1.column .object) leaf.2.object).toList

def settle (s : PlanState) (bindings : Bindings) (predicate : Iri) (pattern : TriplePattern) :
    PlanState :=
  let relation := s.aliases.relation predicate
  { s with
    aliases := { s.aliases with issued := s.aliases.issued ++ [predicate] }
    planned := s.planned ++ [pattern.folded] }.await relation.aliasName
      (ownConditions bindings (relation, pattern))

theorem bindNode_outcome (s : PlanState) (bindings : Bindings) (column : Column)
    (node : NodePattern) :
    (s.bindNode bindings column node).outcome =
      .ok (s.await column.table (ownCondition? bindings column node).toList,
        Plan.addBindings bindings (nodeVariables column node)) := by
  cases node with
  | node n => rfl
  | «variable» v =>
    cases held : bindings.lookup v.name with
    | none =>
      simp [bindNode, held, ownCondition?, await, nodeVariables, NodePattern.asVariable,
        Plan.addBindings]
    | some other =>
      by_cases same : other.table = column.table ∧ other ≠ column
      · simp [bindNode, held, ownCondition?, await, nodeVariables, NodePattern.asVariable,
          Plan.addBindings, same]
      · simp [bindNode, held, ownCondition?, await, nodeVariables, NodePattern.asVariable,
          Plan.addBindings, same]

theorem addBindings_append (bindings first second : Bindings) :
    Plan.addBindings bindings (first ++ second) =
      Plan.addBindings (Plan.addBindings bindings first) second := by
  simp [Plan.addBindings, List.foldl_append]

theorem await_append (s : PlanState) (aliasName : String) (first second : List Condition) :
    s.await aliasName (first ++ second) = (s.await aliasName first).await aliasName second := by
  simp [await, List.foldl_append]

theorem bind_outcome (s : PlanState) (bindings : Bindings) (pattern : TriplePattern) :
    (s.bind bindings pattern).outcome =
      if pattern.folded ∈ s.planned then .ok (none, s, bindings)
      else match pattern.predicate with
        | .variable v => .error (.variablePredicate v)
        | .iri p =>
          .ok (some (s.aliases.relation p), s.settle bindings p pattern,
            Plan.addBindings bindings (JoinTree.leafVariables (s.aliases.relation p, pattern))) := by
  unfold bind
  by_cases known : pattern.folded ∈ s.planned
  · simp [known]
  · cases found : pattern.predicate with
    | «variable» v => simp [known, Aliases.issue]
    | iri p =>
      simp [known, Aliases.issue, bindNode_outcome, settle, ownConditions, await_append,
        JoinTree.leafVariables, addBindings_append, nodeVariables, Relation.column]

end PlanState

namespace Growth

def equalities (bindings : Bindings) (leaf : Relation × TriplePattern) : List Condition :=
  (equality? bindings (leaf.1.column .subject) leaf.2.subject).toList ++
    (equality? bindings (leaf.1.column .object) leaf.2.object).toList

def placed (bindings : Bindings) (filters : List Filter) : List Condition :=
  filters.filterMap fun filter => (condition bindings filter).toOption

def joinedVariables (g : Growth) (leaf : Relation × TriplePattern) : Bindings :=
  g.tree.heldVariables ++ (JoinTree.table leaf.1 leaf.2).heldVariables

def ready (g : Growth) (leaf : Relation × TriplePattern) : List Filter :=
  g.filters.filter (isReady g.bindings (g.joinedVariables leaf))

def joined (g : Growth) (leaf : Relation × TriplePattern) : Growth :=
  let released := g.state.release leaf.1.aliasName (equalities g.bindings leaf)
  { state := (released.takePending leaf.1.aliasName).2
    bindings := g.bindings
    tree := g.tree.add .inner (.table leaf.1 leaf.2)
      (appendAllNew
        (appendAllNew (distinct (equalities g.bindings leaf)) (placed g.bindings (g.ready leaf)))
        (released.pendingFor leaf.1.aliasName))
    filters := g.filters.filter (!isReady g.bindings (g.joinedVariables leaf) ·) }

def settled (g : Growth) (predicate : Iri) (pattern : TriplePattern) : Growth :=
  { g with
    state := g.state.settle g.bindings predicate pattern
    bindings := Plan.addBindings g.bindings
      (JoinTree.leafVariables (g.state.aliases.relation predicate, pattern)) }

def step (g : Growth) (predicate : Iri) (pattern : TriplePattern) : Growth :=
  (g.settled predicate pattern).joined (g.state.aliases.relation predicate, pattern)

theorem equate_outcome (aliasName : String) (found : Option Condition) (s : PlanState)
    (on : List Condition) :
    (equate aliasName found s on).outcome =
      .ok (s.release aliasName found.toList, appendAllNew on found.toList) := by
  cases found with
  | none => rfl
  | some condition => simp [equate, PlanState.release, appendAllNew]

theorem operand_bound {bindings : Bindings} {node : NodePattern}
    (bound : ∀ v, node = .variable v → (bindings.lookup v.name).isSome) :
    ∃ found, operand bindings node = .ok found := by
  cases node with
  | node n => exact ⟨_, rfl⟩
  | «variable» v =>
    obtain ⟨column, held⟩ := Option.isSome_iff_exists.mp (bound v rfl)
    exact ⟨.column column, by simp [operand, held]⟩

theorem condition_bound {bindings : Bindings} {filter : Filter}
    (bound : ∀ v ∈ filter.vars, (bindings.lookup v.name).isSome) :
    ∃ found, condition bindings filter = .ok found := by
  have left : ∀ v, filter.left = .variable v → v ∈ filter.vars := by
    intro v
    simp only [Filter.left, Filter.vars]
    cases filter.sides <;> simp [FilterSides.left, FilterSides.names, eq_comm]
    intro same
    exact .inl same
  have right : ∀ v, filter.right = .variable v → v ∈ filter.vars := by
    intro v
    simp only [Filter.right, Filter.vars]
    cases filter.sides <;> simp [FilterSides.right, FilterSides.names, eq_comm]
    intro same
    exact .inr same
  obtain ⟨one, foundLeft⟩ := operand_bound fun v same => bound v (left v same)
  obtain ⟨two, foundRight⟩ := operand_bound fun v same => bound v (right v same)
  exact ⟨.compare one filter.operator two, by rw [condition, foundLeft, foundRight]; rfl⟩

theorem place_outcome (bindings : Bindings) (on : List Condition) (filters : List Filter)
    (bound : ∀ f ∈ filters, ∀ v ∈ f.vars, (bindings.lookup v.name).isSome) :
    (place bindings on filters).outcome = .ok (appendAllNew on (placed bindings filters)) := by
  induction filters generalizing on with
  | nil => rfl
  | cons filter rest ih =>
    obtain ⟨found, hfound⟩ := condition_bound (bound filter (by simp))
    have later := ih (appendNew on found) fun f member => bound f (by simp [member])
    have both : appendAllNew on (placed bindings (filter :: rest)) =
        appendAllNew (appendNew on found) (placed bindings rest) := by
      simp [placed, hfound, Except.toOption, appendAllNew]
    rw [both, ← later]
    by_cases two : filter.vars.length = 2 <;> simp [place, two, hfound]

theorem join_outcome (g : Growth) (pattern : TriplePattern) (relation : Relation) :
    (g.join pattern relation).outcome = .ok (g.joined (relation, pattern)) := by
  have bound : ∀ f ∈ g.ready (relation, pattern), ∀ v ∈ f.vars,
      (g.bindings.lookup v.name).isSome := by
    intro f member v used
    have both := (List.mem_filter.mp member).2
    simp only [isReady, Bool.and_eq_true, List.all_eq_true] at both
    exact both.1 v used
  simp only [join, Logged.outcome_bind, equate_outcome, ok_bind]
  rw [show g.filters.filter (isReady g.bindings (g.tree.heldVariables ++
      (JoinTree.table relation pattern).heldVariables)) = g.ready (relation, pattern) from rfl,
    place_outcome _ _ _ bound]
  simp [joined, equalities, PlanState.release, PlanState.takePending, distinct, appendAllNew,
    List.foldl_append, joinedVariables]

-- `Grows g remaining next`: joining all of `remaining` to `g` ends in `next`.
inductive Grows : Growth → List TriplePattern → Growth → Prop where
  | done : Grows g [] g
  | skip (taken : takeFirst? (isJoinable g.bindings) remaining = some (pattern, others))
      (known : pattern.folded ∈ g.state.planned) (rest : Grows g others next) :
      Grows g remaining next
  | join (taken : takeFirst? (isJoinable g.bindings) remaining = some (pattern, others))
      (fresh : pattern.folded ∉ g.state.planned) (mapped : pattern.predicate = .iri predicate)
      (rest : Grows (g.step predicate pattern) others next) : Grows g remaining next

theorem extend_taken {g : Growth} {remaining others : List TriplePattern} {pattern : TriplePattern}
    (taken : takeFirst? (isJoinable g.bindings) remaining = some (pattern, others)) :
    (g.extend remaining).outcome =
      if pattern.folded ∈ g.state.planned then (g.extend others).outcome
      else match pattern.predicate with
        | .variable v => .error (.usage (.variablePredicate v))
        | .iri predicate => ((g.step predicate pattern).extend others).outcome := by
  have nonempty : remaining.isEmpty = false := by
    cases remaining with
    | nil => cases taken
    | cons => rfl
  rw [extend, nonempty]
  simp only [Bool.false_eq_true, if_false]
  split
  next none => rw [taken] at none; cases none
  next found =>
    rw [taken] at found
    cases found
    simp only [Logged.outcome_bind, Logged.outcome_mapError, PlanState.bind_outcome]
    by_cases known : pattern.folded ∈ g.state.planned
    · simp only [known, if_true, mapError_of_ok, ok_bind]
    · cases mapped : pattern.predicate with
      | «variable» v => simp [known]
      | iri predicate =>
        simp only [known, if_false, mapError_of_ok, ok_bind, Logged.outcome_bind, join_outcome]
        rfl

theorem extend_sound {g next : Growth} {remaining : List TriplePattern}
    (extended : (g.extend remaining).outcome = .ok next) : Grows g remaining next := by
  cases taken : takeFirst? (isJoinable g.bindings) remaining with
  | none =>
    rw [extend] at extended
    split at extended
    next empty =>
      cases List.isEmpty_iff.mp empty
      cases extended
      exact .done
    next nonempty =>
      split at extended
      next => cases extended
      next found => rw [taken] at found; cases found
  | some found =>
    obtain ⟨pattern, others⟩ := found
    have shorter : others.length < remaining.length := by
      have := takeFirst?_length _ _ _ taken
      simp only at this
      omega
    rw [extend_taken taken] at extended
    split at extended
    next known => exact .skip taken known (extend_sound extended)
    next fresh =>
      split at extended
      next => cases extended
      next predicate mapped => exact .join taken fresh mapped (extend_sound extended)
termination_by remaining.length

theorem extend_complete {g next : Growth} {remaining : List TriplePattern}
    (run : Grows g remaining next) : (g.extend remaining).outcome = .ok next := by
  induction run with
  | done => rw [extend]; rfl
  | skip taken known rest ih => rw [extend_taken taken, if_pos known, ih]
  | join taken fresh mapped rest ih => rw [extend_taken taken, if_neg fresh, mapped, ← ih]

-- A property that every join of one of `triples` keeps is kept by a whole run. The joined triple
-- has a constant or a variable that is bound.
theorem Grows.keeps_joinable {holds : Growth → Prop} {triples : List TriplePattern}
    (kept : ∀ g predicate pattern, holds g → pattern ∈ triples →
      pattern.folded ∉ g.state.planned → pattern.predicate = .iri predicate →
      isJoinable g.bindings pattern = true → holds (g.step predicate pattern))
    (run : Grows g remaining next) (among : ∀ t ∈ remaining, t ∈ triples) (start : holds g) :
    holds next := by
  induction run with
  | done => exact start
  | skip taken known rest ih =>
    exact ih (fun t member => among t ((mem_takeFirst? taken t).mpr (.inr member))) start
  | join taken fresh mapped rest ih =>
    have used := among _ ((mem_takeFirst? taken _).mpr (.inl rfl))
    obtain ⟨-, -, -, -, -, joinable⟩ := takeFirst?_split taken
    exact ih (fun t member => among t ((mem_takeFirst? taken t).mpr (.inr member)))
      (kept _ _ _ start used fresh mapped joinable)

theorem Grows.keeps {holds : Growth → Prop} {triples : List TriplePattern}
    (kept : ∀ g predicate pattern, holds g → pattern ∈ triples →
      pattern.folded ∉ g.state.planned → pattern.predicate = .iri predicate →
      holds (g.step predicate pattern))
    (run : Grows g remaining next) (among : ∀ t ∈ remaining, t ∈ triples) (start : holds g) :
    holds next := by
  refine run.keeps_joinable ?_ among start
  intro g predicate pattern before used fresh mapped _
  exact kept g predicate pattern before used fresh mapped

end Growth

end GraphSql
