import GraphSql.Proofs.Planning.Outcome
import GraphSql.Proofs.Renaming.Terms

namespace GraphSql
open Sql

-- Planning a renamed query takes the steps of planning the query itself, and what it knows at each
-- step is the same with the new names.

section lists

variable {α β γ : Type} [DecidableEq α] [DecidableEq β] {f : α → β}

theorem lookup_map_key (injective : Function.Injective f) (entries : List (α × γ)) (key : α) :
    (entries.map fun entry => (f entry.1, entry.2)).lookup (f key) = entries.lookup key := by
  induction entries with
  | nil => rfl
  | cons entry rest ih =>
    obtain ⟨head, held⟩ := entry
    rw [List.map_cons, lookup_first, lookup_first, ih]
    simp only [injective.eq_iff]

theorem distinct_map (injective : Function.Injective f) (items : List α) :
    distinct (items.map f) = (distinct items).map f :=
  (map_distinct fun _ _ _ _ same => injective same).symm

theorem idxOf_map (injective : Function.Injective f) (items : List α) (item : α) :
    (items.map f).idxOf (f item) = items.idxOf item := by
  induction items with
  | nil => rfl
  | cons head rest ih =>
    rw [List.map_cons, List.idxOf_cons, List.idxOf_cons, ih]
    by_cases same : head = item
    · simp [same]
    · rw [beq_false_of_ne same, beq_false_of_ne (injective.ne same)]

end lists

namespace Renaming

variable (r : Renaming)

def bindings (bindings : Bindings) : Bindings := bindings.map fun entry => (r.name entry.1, entry.2)

def leaf (leaf : Relation × TriplePattern) : Relation × TriplePattern := (leaf.1, r.triple leaf.2)

def tree : JoinTree → JoinTree
  | .table relation pattern => .table relation (r.triple pattern)
  | .group first => .group (tree first)
  | .join init kind last on => .join (tree init) kind (tree last) on

def aliases (a : Aliases) : Aliases := ⟨r.tables a.tables, a.issued.map r.toPredicate, a.unions⟩

def state (s : PlanState) : PlanState :=
  { s with aliases := r.aliases s.aliases, planned := s.planned.map r.triple }

def growth (g : Growth) : Growth :=
  ⟨r.state g.state, r.bindings g.bindings, r.tree g.tree, g.filters.map r.filter⟩

def usageError : UsageError → UsageError
  | .variablePredicate v => .variablePredicate (r.var v)
  | .orderByNonTarget name => .orderByNonTarget (r.name name)
  | .duplicateTarget name => .duplicateTarget (r.name name)
  | .invalidTarget error => .invalidTarget error

def error : PlanError → PlanError
  | .cannotBindAllSteps remaining bound =>
    .cannotBindAllSteps (remaining.map r.triple) (bound.map r.name)
  | .filterUnbound filters => .filterUnbound (filters.map r.filter)
  | .filterVariableNotFound v => .filterVariableNotFound (r.var v)
  | .unmappedTarget name => .unmappedTarget (r.name name)
  | .usage error => .usage (r.usageError error)
  | .unsupportedSubquery => .unsupportedSubquery
  | .noTargets => .noTargets
  | .optionalWithoutRequired => .optionalWithoutRequired
  | .optionalConditionInWhere condition => .optionalConditionInWhere condition

theorem kind_error (e : PlanError) : (r.error e).kind = e.kind := by
  cases e with
  | usage e => cases e <;> rfl
  | _ => rfl

variable {r} (injective : r.Injective)

include injective in
theorem lookup_bindings (bindings : Bindings) (name : String) :
    (r.bindings bindings).lookup (r.name name) = bindings.lookup name :=
  lookup_map_key injective.name bindings name

include injective in
theorem lookup_var (bindings : Bindings) (v : Variable) :
    (r.bindings bindings).lookup (r.var v).name = bindings.lookup v.name :=
  lookup_bindings injective bindings v.name

include injective in
theorem relation_aliases (a : Aliases) (predicate : Iri) :
    (r.aliases a).relation (r.toPredicate predicate) = a.relation predicate := by
  have table : ∀ p, (r.tables a.tables).table? (r.toPredicate p) = a.tables.table? p :=
    lookup_map_key injective.toPredicate a.tables
  have unmapped : (r.aliases a).unmapped = a.unmapped.map r.toPredicate := by
    rw [Aliases.unmapped, Aliases.unmapped, ← distinct_map injective.toPredicate, aliases,
      List.filter_map]
    simp only [Function.comp_def, table]
  have count : (r.aliases a).issued.count (r.toPredicate predicate) = a.issued.count predicate :=
    List.count_map_of_injective _ _ injective.toPredicate _
  unfold Aliases.relation
  rw [unmapped, idxOf_map injective.toPredicate, count]
  rw [show (r.aliases a).tables = r.tables a.tables from rfl, table]

theorem leafVariables_leaf (leaf : Relation × TriplePattern) :
    JoinTree.leafVariables (r.leaf leaf) = r.bindings (JoinTree.leafVariables leaf) := by
  obtain ⟨relation, s, p, o⟩ := leaf
  cases s <;> cases o <;> rfl

include injective in
theorem addBindings_bindings (bindings more : Bindings) :
    Plan.addBindings (r.bindings bindings) (r.bindings more) =
      r.bindings (Plan.addBindings bindings more) := by
  unfold Plan.addBindings
  induction more generalizing bindings with
  | nil => rfl
  | cons entry rest ih =>
    obtain ⟨name, column⟩ := entry
    rw [show r.bindings ((name, column) :: rest) =
        (r.name name, column) :: r.bindings rest from rfl,
      List.foldl_cons, List.foldl_cons, lookup_bindings injective]
    split
    next => exact ih bindings
    next =>
      rw [← ih]
      congr 1
      simp [Renaming.bindings]

include injective in
theorem ownCondition?_node (bindings : Bindings) (column : Column) (node : NodePattern) :
    PlanState.ownCondition? (r.bindings bindings) column (r.node node) =
      PlanState.ownCondition? bindings column node := by
  cases node with
  | node n => rfl
  | «variable» v =>
    simp only [Renaming.node, PlanState.ownCondition?, lookup_var injective]

theorem nodeVariables_node (column : Column) (node : NodePattern) :
    PlanState.nodeVariables column (r.node node) =
      r.bindings (PlanState.nodeVariables column node) := by
  cases node <;> rfl

include injective in
theorem ownConditions_leaf (bindings : Bindings) (leaf : Relation × TriplePattern) :
    PlanState.ownConditions (r.bindings bindings) (r.leaf leaf) =
      PlanState.ownConditions bindings leaf := by
  simp only [PlanState.ownConditions, Renaming.leaf, triple, nodeVariables_node,
    addBindings_bindings injective, ownCondition?_node injective]

include injective in
theorem equality?_node (bindings : Bindings) (column : Column) (node : NodePattern) :
    Growth.equality? (r.bindings bindings) column (r.node node) =
      Growth.equality? bindings column node := by
  cases node with
  | node n => rfl
  | «variable» v =>
    simp only [Renaming.node, Growth.equality?, NodePattern.asVariable, Option.bind_eq_bind,
      Option.bind_some, lookup_var injective]

include injective in
theorem equalities_leaf (bindings : Bindings) (leaf : Relation × TriplePattern) :
    Growth.equalities (r.bindings bindings) (r.leaf leaf) = Growth.equalities bindings leaf := by
  simp only [Growth.equalities, Renaming.leaf, triple, equality?_node injective]

theorem vars_filter (f : Filter) : (r.filter f).vars = f.vars.map r.var := by
  obtain ⟨sides, operator, trimmed⟩ := f
  cases sides <;> rfl

include injective in
theorem isReady_filter (bindings joined : Bindings) (f : Filter) :
    Growth.isReady (r.bindings bindings) (r.bindings joined) (r.filter f) =
      Growth.isReady bindings joined f := by
  have named : ∀ v : Variable, ((r.bindings joined).any (·.1 == (r.var v).name)) =
      joined.any (·.1 == v.name) := by
    intro v
    rw [Renaming.bindings, List.any_map]
    congr 1
    funext entry
    have same : r.name entry.1 = r.name v.name ↔ entry.1 = v.name := injective.name.eq_iff
    simp only [Function.comp_apply]
    by_cases equal : entry.1 = v.name
    · simp [equal, var, name]
    · have other : r.name entry.1 ≠ (r.var v).name := fun same' => equal (same.mp same')
      simp [equal, other]
  simp only [Growth.isReady, vars_filter, List.all_map, List.any_map, Function.comp_def,
    lookup_var injective, named]

include injective in
theorem operand_node (bindings : Bindings) (node : NodePattern) :
    Growth.operand (r.bindings bindings) (r.node node) =
      relabel r.error id (Growth.operand bindings node) := by
  cases node with
  | node n => rfl
  | «variable» v =>
    simp only [Renaming.node, Growth.operand, lookup_var injective]
    cases bindings.lookup v.name <;> rfl

include injective in
theorem condition_filter (bindings : Bindings) (f : Filter) :
    Growth.condition (r.bindings bindings) (r.filter f) =
      relabel r.error id (Growth.condition bindings f) := by
  have left : (r.filter f).left = r.node f.left := by
    obtain ⟨sides, operator, trimmed⟩ := f
    cases sides <;> rfl
  have right : (r.filter f).right = r.node f.right := by
    obtain ⟨sides, operator, trimmed⟩ := f
    cases sides <;> rfl
  rw [Growth.condition, Growth.condition, left, right, operand_node injective,
    operand_node injective]
  refine relabel_bind fun one _ => ?_
  exact relabel_bind fun two _ => rfl

include injective in
theorem placed_filters (bindings : Bindings) (filters : List Filter) :
    Growth.placed (r.bindings bindings) (filters.map r.filter) =
      Growth.placed bindings filters := by
  rw [Growth.placed, Growth.placed, List.filterMap_map]
  congr 1
  funext f
  rw [Function.comp_apply, condition_filter injective]
  cases Growth.condition bindings f <;> rfl

@[simp] theorem leaves_tree (t : JoinTree) : (r.tree t).leaves = t.leaves.map r.leaf := by
  induction t with
  | table relation pattern => rfl
  | group first ih => exact ih
  | join init kind last on ihInit ihLast =>
    simp only [tree, JoinTree.leaves, ihInit, ihLast, List.map_append]

theorem aliases_tree (t : JoinTree) : (r.tree t).aliases = t.aliases := by
  simp [JoinTree.aliases, leaf]

theorem isLong_tree (t : JoinTree) : (r.tree t).isLong = t.isLong := by
  cases t <;> rfl

theorem tokens_tree (t : JoinTree) : (r.tree t).tokens = t.tokens := by
  induction t with
  | table relation pattern => rfl
  | group first ih => simp only [tree, JoinTree.tokens, isLong_tree, ih]
  | join init kind last on ihInit ihLast =>
    simp only [tree, JoinTree.tokens, isLong_tree, ihInit, ihLast]

include injective in
theorem heldVariables_tree (t : JoinTree) :
    (r.tree t).heldVariables = r.bindings t.heldVariables := by
  have pairs : Function.Injective fun entry : String × Column => (r.name entry.1, entry.2) := by
    intro a b same
    simp only [Prod.mk.injEq] at same
    exact Prod.ext (injective.name same.1) same.2
  rw [JoinTree.heldVariables, JoinTree.heldVariables, bindings, ← distinct_map pairs, leaves_tree,
    List.flatMap_map, List.map_flatMap]
  simp only [leafVariables_leaf]
  rfl

include injective in
theorem links_tree (t member : JoinTree) (bindings : Bindings) :
    (r.tree t).links (r.tree member) (r.bindings bindings) = t.links member bindings := by
  have own : ∀ held : String × Column,
      ((r.bindings member.heldVariables).filter (·.1 == r.name held.1)) =
        r.bindings (member.heldVariables.filter (·.1 == held.1)) := by
    intro held
    rw [Renaming.bindings, Renaming.bindings, List.filter_map]
    congr 2
    funext entry
    simp [injective.name.eq_iff]
  rw [JoinTree.links, JoinTree.links, heldVariables_tree injective, heldVariables_tree injective]
  congr 1
  rw [show r.bindings t.heldVariables = t.heldVariables.map _ from rfl, List.filter_map,
    List.flatMap_map]
  simp only [Function.comp_def, lookup_bindings injective, own]
  simp only [Renaming.bindings, List.map_map, Function.comp_def]

theorem await_state (s : PlanState) (aliasName : String) (conditions : List Condition) :
    (r.state s).await aliasName conditions = r.state (s.await aliasName conditions) := by
  unfold PlanState.await
  induction conditions generalizing s with
  | nil => rfl
  | cons c rest ih => exact ih (s.addPending aliasName c)

theorem release_state (s : PlanState) (aliasName : String) (conditions : List Condition) :
    (r.state s).release aliasName conditions = r.state (s.release aliasName conditions) := by
  unfold PlanState.release
  induction conditions generalizing s with
  | nil => rfl
  | cons c rest ih => exact ih (s.removePending aliasName c)

include injective in
theorem settle_state (s : PlanState) (bindings : Bindings) (predicate : Iri)
    (pattern : TriplePattern) :
    (r.state s).settle (r.bindings bindings) (r.toPredicate predicate) (r.triple pattern) =
      r.state (s.settle bindings predicate pattern) := by
  have relation : (r.state s).aliases.relation (r.toPredicate predicate) =
      s.aliases.relation predicate := relation_aliases injective s.aliases predicate
  have own := ownConditions_leaf injective bindings (s.aliases.relation predicate, pattern)
  rw [PlanState.settle, PlanState.settle, ← await_state]
  simp only [relation]
  rw [show ((s.aliases.relation predicate, r.triple pattern) : Relation × TriplePattern) =
    r.leaf (s.aliases.relation predicate, pattern) from rfl, own]
  congr 1
  simp [state, aliases]

include injective in
theorem joined_growth (g : Growth) (leaf : Relation × TriplePattern) :
    (r.growth g).joined (r.leaf leaf) = r.growth (g.joined leaf) := by
  have held : (r.growth g).joinedVariables (r.leaf leaf) =
      r.bindings (g.joinedVariables leaf) := by
    have own := heldVariables_tree injective (.table leaf.1 leaf.2)
    rw [Growth.joinedVariables, Growth.joinedVariables, bindings, List.map_append]
    exact congr (congrArg _ (heldVariables_tree injective g.tree)) own
  have readiness : ∀ f, Growth.isReady (r.growth g).bindings
      ((r.growth g).joinedVariables (r.leaf leaf)) (r.filter f) =
        Growth.isReady g.bindings (g.joinedVariables leaf) f := by
    intro f
    rw [held]
    exact isReady_filter injective g.bindings (g.joinedVariables leaf) f
  have ready : (r.growth g).ready (r.leaf leaf) = (g.ready leaf).map r.filter := by
    rw [Growth.ready, Growth.ready, show (r.growth g).filters = g.filters.map r.filter from rfl,
      List.filter_map]
    simp only [Function.comp_def, readiness]
  have left : (r.growth g).filters.filter (!Growth.isReady (r.growth g).bindings
      ((r.growth g).joinedVariables (r.leaf leaf)) ·) =
        (g.filters.filter (!Growth.isReady g.bindings (g.joinedVariables leaf) ·)).map r.filter := by
    rw [show (r.growth g).filters = g.filters.map r.filter from rfl, List.filter_map]
    simp only [Function.comp_def, readiness]
  have equalities : Growth.equalities (r.growth g).bindings (r.leaf leaf) =
      Growth.equalities g.bindings leaf := equalities_leaf injective g.bindings leaf
  have placed : Growth.placed (r.growth g).bindings ((g.ready leaf).map r.filter) =
      Growth.placed g.bindings (g.ready leaf) := placed_filters injective g.bindings _
  have released : (r.growth g).state.release leaf.1.aliasName (Growth.equalities g.bindings leaf) =
      r.state (g.state.release leaf.1.aliasName (Growth.equalities g.bindings leaf)) :=
    release_state _ _ _
  rw [Growth.joined, Growth.joined, left, ready, placed, equalities]
  rw [show (r.leaf leaf).1 = leaf.1 from rfl, released]
  rfl

include injective in
theorem step_growth (g : Growth) (predicate : Iri) (pattern : TriplePattern) :
    (r.growth g).step (r.toPredicate predicate) (r.triple pattern) =
      r.growth (g.step predicate pattern) := by
  have relation : (r.growth g).state.aliases.relation (r.toPredicate predicate) =
      g.state.aliases.relation predicate := relation_aliases injective g.state.aliases predicate
  have settled : (r.growth g).settled (r.toPredicate predicate) (r.triple pattern) =
      r.growth (g.settled predicate pattern) := by
    have held : JoinTree.leafVariables (g.state.aliases.relation predicate, r.triple pattern) =
        r.bindings (JoinTree.leafVariables (g.state.aliases.relation predicate, pattern)) :=
      leafVariables_leaf (g.state.aliases.relation predicate, pattern)
    have state := settle_state injective g.state g.bindings predicate pattern
    have bound := addBindings_bindings injective g.bindings
      (JoinTree.leafVariables (g.state.aliases.relation predicate, pattern))
    rw [Growth.settled, Growth.settled, relation, held]
    rw [show (r.growth g).state = r.state g.state from rfl,
      show (r.growth g).bindings = r.bindings g.bindings from rfl, state, bound]
    rfl
  rw [Growth.step, Growth.step, relation, settled]
  exact joined_growth injective (g.settled predicate pattern) (_, pattern)

include injective in
theorem isJoinable_triple (bindings : Bindings) (t : TriplePattern) :
    Growth.isJoinable (r.bindings bindings) (r.triple t) = Growth.isJoinable bindings t := by
  have bound : ∀ n, isBound (r.bindings bindings) (r.node n) = isBound bindings n := by
    intro n
    cases n with
    | node n => rfl
    | «variable» v => exact congrArg Option.isSome (lookup_var injective bindings v)
  simp only [Growth.isJoinable, triple, bound]

include injective in
theorem mem_planned (s : PlanState) (t : TriplePattern) :
    (r.triple t).folded ∈ (r.state s).planned ↔ t.folded ∈ s.planned := by
  rw [folded_triple]
  exact List.mem_map_of_injective injective.triple

include injective in
theorem extend_growth (g : Growth) (remaining : List TriplePattern) :
    ((r.growth g).extend (remaining.map r.triple)).outcome =
      relabel r.error r.growth (g.extend remaining).outcome := by
  have taken := takeFirst?_map (isJoinable_triple injective g.bindings) remaining
  cases first : takeFirst? (Growth.isJoinable g.bindings) remaining with
  | none =>
    rw [first] at taken
    cases remaining with
    | nil => rw [List.map_nil, Growth.extend_nil, Growth.extend_nil]; rfl
    | cons t rest =>
      rw [Growth.extend_stuck (by simp) first, Growth.extend_stuck (by simp) taken]
      simp [relabel, error, growth, bindings]
  | some found =>
    obtain ⟨t, others⟩ := found
    rw [first] at taken
    have shorter : others.length < remaining.length := by
      have := takeFirst?_length _ _ _ first
      simp only at this
      omega
    rw [Growth.extend_taken first, Growth.extend_taken taken]
    simp only [show (r.growth g).state = r.state g.state from rfl, mem_planned injective]
    split
    next => exact extend_growth g others
    next =>
      cases mapped : t.predicate with
      | «variable» v =>
        rw [predicate_triple, mapped]
        rfl
      | iri p =>
        rw [predicate_triple, mapped]
        simp only [predicate, step_growth injective]
        exact extend_growth (g.step p t) others
termination_by remaining.length

end Renaming

end GraphSql
