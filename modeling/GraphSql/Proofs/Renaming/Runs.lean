import GraphSql.Proofs.Planning.Elements
import GraphSql.Proofs.Renaming.Steps

namespace GraphSql
open Sql

-- Planning whole patterns, elements and queries under new names.

namespace Renaming

variable (r : Renaming)

def seed : TriplePattern × Relation × List TriplePattern →
    TriplePattern × Relation × List TriplePattern
  | (seed, relation, others) => (r.triple seed, relation, others.map r.triple)

def progress (p : Plan.Progress) : Plan.Progress :=
  ⟨r.state p.state, r.bindings p.required, r.bindings p.all, p.tree.map r.tree⟩

def plan : Plan → Plan
  | .empty => .empty
  | .select statement => .select { statement with source := r.tree statement.source }

variable {r} (injective : r.Injective)

include injective in
theorem findSeed_triples (s : PlanState) (bindings : Bindings) (triples : List TriplePattern) :
    (findSeed (r.state s) (r.bindings bindings) (triples.map r.triple)).outcome =
      relabel r.error
        (fun (found, s, bindings) => (found.map r.seed, r.state s, r.bindings bindings))
        (findSeed s bindings triples).outcome := by
  induction triples with
  | nil => rfl
  | cons t rest ih =>
    rw [List.map_cons, findSeed_cons, findSeed_cons]
    simp only [mem_planned injective]
    split
    next => exact ih
    next =>
      cases mapped : t.predicate with
      | «variable» v =>
        rw [predicate_triple, mapped]
        rfl
      | iri p =>
        have relation : (r.state s).aliases.relation (r.toPredicate p) = s.aliases.relation p :=
          relation_aliases injective s.aliases p
        have held : JoinTree.leafVariables (s.aliases.relation p, r.triple t) =
            r.bindings (JoinTree.leafVariables (s.aliases.relation p, t)) :=
          leafVariables_leaf (s.aliases.relation p, t)
        rw [predicate_triple, mapped]
        simp only [predicate, relation, held, settle_state injective,
          addBindings_bindings injective]
        rfl

include injective in
theorem seedColumn_triple (t : TriplePattern) (relation : Relation) (v : Variable) :
    seedColumn (r.triple t) relation (r.var v) = relabel r.error id (seedColumn t relation v) := by
  have same : ∀ n : NodePattern,
      (r.node n).asVariable = some (r.var v) ↔ n.asVariable = some v := by
    intro n
    cases n with
    | node n => simp [node, NodePattern.asVariable]
    | «variable» w => simp [node, NodePattern.asVariable, injective.var.eq_iff]
  simp only [seedColumn, triple, same]
  split
  next => rfl
  next =>
    split
    next => rfl
    next => rfl

include injective in
theorem attachFilters_filters (t : TriplePattern) (relation : Relation) (s : PlanState)
    (filters : List Filter) :
    (attachFilters (r.triple t) relation (r.state s) (filters.map r.filter)).outcome =
      relabel r.error r.state (attachFilters t relation s filters).outcome := by
  induction filters generalizing s with
  | nil => rfl
  | cons f rest ih =>
    rw [List.map_cons]
    cases sides : f.sides with
    | variablePair v w =>
      have sides' : (r.filter f).sides = .variablePair (r.var v) (r.var w) := by
        simp [filter, sides, Renaming.sides]
      simp only [attachFilters, sides, sides', Logged.outcome_bind, Logged.outcome_report, ok_bind]
      exact ih s
    | variableNode v n =>
      have sides' : (r.filter f).sides = .variableNode (r.var v) n := by
        simp [filter, sides, Renaming.sides]
      simp only [attachFilters, sides, sides', Logged.outcome_bind, Logged.outcome_report, ok_bind,
        Logged.outcome_ofExcept, seedColumn_triple injective]
      refine relabel_bind fun column _ => ?_
      exact ih (s.addPending relation.aliasName
        (.compare (.column column) f.operator (.value n.display)))
    | nodeVariable n v =>
      have sides' : (r.filter f).sides = .nodeVariable n (r.var v) := by
        simp [filter, sides, Renaming.sides]
      simp only [attachFilters, sides, sides', Logged.outcome_bind, Logged.outcome_report, ok_bind,
        Logged.outcome_ofExcept, seedColumn_triple injective]
      refine relabel_bind fun column _ => ?_
      exact ih (s.addPending relation.aliasName
        (.compare (.value n.display) f.operator (.column column)))

def answer : Option JoinTree × PlanState × Bindings → Option JoinTree × PlanState × Bindings
  | (found, s, bindings) => (found.map r.tree, r.state s, r.bindings bindings)

include injective in
theorem planPattern_pattern (s : PlanState) (bindings : Bindings) (p : GraphPattern) :
    (planPattern (r.state s) (r.bindings bindings) (r.pattern p)).outcome =
      relabel r.error r.answer (planPattern s bindings p).outcome := by
  rw [planPattern_outcome, planPattern_outcome, triples_pattern, findSeed_triples injective,
    filters_pattern injective]
  refine relabel_bind ?_
  rintro ⟨found, s, bindings⟩ -
  cases found with
  | none => rfl
  | some found =>
    obtain ⟨seed, relation, others⟩ := found
    have grown := extend_growth injective ⟨s, bindings, .table relation seed, p.filters⟩ others
    simp only [concludePattern, Option.map_some, Renaming.seed]
    rw [show (⟨r.state s, r.bindings bindings, .table relation (r.triple seed),
      p.filters.map r.filter⟩ : Growth) = r.growth ⟨s, bindings, .table relation seed, p.filters⟩
      from rfl, grown]
    refine relabel_bind ?_
    intro g _
    unfold concludeGrowth
    simp only [growth, List.isEmpty_map, isLong_tree, attachFilters_filters injective]
    split
    next => rfl
    next =>
      split
      next => rfl
      next => exact relabel_bind fun s _ => rfl

include injective in
theorem require_progress (p : Plan.Progress) (found : Option JoinTree) (s : PlanState)
    (bindings : Bindings) :
    (r.progress p).require (found.map r.tree) (r.state s) (r.bindings bindings) =
      r.progress (p.require found s bindings) := by
  cases found with
  | none => simp [progress]
  | some member =>
    cases tree : p.tree with
    | none => simp [progress, Plan.Progress.require, tree]
    | some t =>
      simp only [progress, Plan.Progress.require, tree, Option.map_some, links_tree injective]
      rfl

theorem takeAll_state (s : PlanState) (names : List String) :
    Plan.takeAll (r.state s) names =
      ((Plan.takeAll s names).1, r.state (Plan.takeAll s names).2) := by
  induction names generalizing s with
  | nil => rfl
  | cons aliasName rest ih =>
    have later := ih (s.takePending aliasName).2
    simp only [Plan.takeAll]
    rw [show ((r.state s).takePending aliasName).2 = r.state (s.takePending aliasName).2 from rfl,
      later]
    rfl

include injective in
theorem allow_progress (p : Plan.Progress) (tree : JoinTree) (found : Option JoinTree)
    (s : PlanState) (bindings : Bindings) :
    (r.progress p).allow (r.tree tree) (found.map r.tree) (r.state s) (r.bindings bindings) =
      r.progress (p.allow tree found s bindings) := by
  cases found with
  | none => rfl
  | some member =>
    simp only [Plan.Progress.allow, Option.map_some, aliases_tree, takeAll_state, progress,
      addBindings_bindings injective, links_tree injective]
    rfl

variable (r) in
inductive Counterpart : Element → Element → Prop where
  | pattern (p : GraphPattern) : Counterpart (.pattern p) (.pattern (r.pattern p))
  | subquery (before after before' after' : List Element) :
      Counterpart (.subquery before after) (.subquery before' after')

include injective in
theorem addRequired_counterpart {e e' : Element} (same : r.Counterpart e e') (p : Plan.Progress) :
    (Plan.addRequired (r.progress p) e').outcome =
      relabel r.error r.progress (Plan.addRequired p e).outcome := by
  rw [Plan.addRequired_outcome, Plan.addRequired_outcome]
  cases same with
  | subquery => rfl
  | pattern pattern =>
    simp only [Plan.patternOf, ok_bind]
    rw [show (r.progress p).state = r.state p.state from rfl,
      show (r.progress p).required = r.bindings p.required from rfl, planPattern_pattern injective]
    refine relabel_bind ?_
    rintro ⟨found, s, bindings⟩ -
    exact congrArg Except.ok (require_progress injective p found s bindings)

include injective in
theorem addOptional_counterpart {e e' : Element} (same : r.Counterpart e e') (p : Plan.Progress) :
    (Plan.addOptional (r.progress p) e').outcome =
      relabel r.error r.progress (Plan.addOptional p e).outcome := by
  rw [Plan.addOptional_outcome, Plan.addOptional_outcome]
  cases same with
  | subquery => rfl
  | pattern pattern =>
    simp only [Plan.patternOf, ok_bind]
    rw [show (r.progress p).tree = p.tree.map r.tree from rfl]
    cases p.tree with
    | none => rfl
    | some tree =>
      simp only [Option.map_some]
      rw [show (r.progress p).state = r.state p.state from rfl,
        show (r.progress p).required = r.bindings p.required from rfl,
        planPattern_pattern injective]
      refine relabel_bind ?_
      rintro ⟨found, s, bindings⟩ -
      exact congrArg Except.ok (allow_progress injective p tree found s bindings)

theorem addEach_counterparts {add : Plan.Progress → Element → Logged PlanError Plan.Progress}
    (each : ∀ e e', r.Counterpart e e' → ∀ p, (add (r.progress p) e').outcome =
      relabel r.error r.progress (add p e).outcome)
    {elements elements' : List Element} (same : List.Forall₂ r.Counterpart elements elements')
    (p : Plan.Progress) :
    (Plan.addEach add (r.progress p) elements').outcome =
      relabel r.error r.progress (Plan.addEach add p elements).outcome := by
  induction same generalizing p with
  | nil => rfl
  | cons first rest ih =>
    rw [Plan.addEach, Plan.addEach, Logged.outcome_bind, Logged.outcome_bind, each _ _ first]
    exact relabel_bind fun p _ => ih p

include injective in
theorem columnOf_bindings (bindings : Bindings) (target : String) :
    Plan.columnOf (r.bindings bindings) (r.name target) =
      relabel r.error id (Plan.columnOf bindings target) := by
  rw [Plan.columnOf, Plan.columnOf, lookup_bindings injective]
  cases bindings.lookup target <;> rfl

include injective in
theorem columns_bindings (bindings : Bindings) (targets : List String) :
    (targets.map r.name).mapM (Plan.columnOf (r.bindings bindings)) =
      relabel r.error id (targets.mapM (Plan.columnOf bindings)) := by
  induction targets with
  | nil => rfl
  | cons target rest ih =>
    rw [List.map_cons, List.mapM_cons, List.mapM_cons, columnOf_bindings injective, ih]
    refine relabel_bind fun column _ => ?_
    exact relabel_bind fun columns _ => rfl

theorem residual_conditions (conditions : List (Part × Condition)) :
    relabel r.error id (Plan.residual conditions) = Plan.residual conditions := by
  induction conditions with
  | nil => rfl
  | cons entry rest ih =>
    obtain ⟨part, c⟩ := entry
    cases part with
    | optional => rfl
    | required =>
      rw [Plan.residual]
      cases left : Plan.residual rest with
      | ok conditions => rfl
      | error e =>
        rw [left] at ih
        exact ih

include injective in
theorem orderOf_bindings (bindings : Bindings) (order : Option (String × SortOrder)) :
    Plan.orderOf (r.bindings bindings) (r.order order) =
      relabel r.error id (Plan.orderOf bindings order) := by
  cases order with
  | none => rfl
  | some target =>
    simp only [Renaming.order, Option.map_some, Plan.orderOf, columnOf_bindings injective]
    cases Plan.columnOf bindings target.1 <;> rfl

include injective in
theorem finish_progress (p : Plan.Progress) (tree : JoinTree) (targets : List String)
    (order : Option (String × SortOrder)) :
    (Plan.finish (r.progress p) (r.tree tree) (targets.map r.name) (r.order order)).outcome =
      relabel r.error r.plan (Plan.finish p tree targets order).outcome := by
  have conditions : Plan.residual (r.progress p).state.drainPending.1 =
      relabel r.error id (Plan.residual p.state.drainPending.1) := (residual_conditions _).symm
  rw [Plan.finish_outcome, Plan.finish_outcome, List.isEmpty_map, conditions]
  rw [show (r.progress p).all = r.bindings p.all from rfl, columns_bindings injective,
    orderOf_bindings injective]
  split
  next => rfl
  next =>
    refine relabel_bind fun columns _ => ?_
    refine relabel_bind fun conditions _ => ?_
    exact relabel_bind fun order _ => rfl

include injective in
theorem ofQuery_counterparts {query query' : Query}
    (required : List.Forall₂ r.Counterpart query.required query'.required)
    (optional : List.Forall₂ r.Counterpart query.optional query'.optional)
    (tables : TableMap) (targets : List String) (order : Option (String × SortOrder)) :
    (Plan.ofQuery (r.tables tables) query' (targets.map r.name) (r.order order)).outcome =
      relabel r.error r.plan (Plan.ofQuery tables query targets order).outcome := by
  have first := addEach_counterparts (fun _ _ => addRequired_counterpart injective) required
    (.start tables)
  rw [Plan.ofQuery_outcome, Plan.ofQuery_outcome,
    show Plan.Progress.start (r.tables tables) = r.progress (.start tables) from rfl, first]
  refine relabel_bind fun base _ => ?_
  have later := addEach_counterparts (fun _ _ => addOptional_counterpart injective) optional
    base.turn
  rw [show (r.progress base).turn = r.progress base.turn from rfl, later]
  refine relabel_bind fun full _ => ?_
  rw [show (r.progress full).tree = full.tree.map r.tree from rfl]
  cases full.tree with
  | none => rfl
  | some tree => exact finish_progress injective full tree targets order

end Renaming

end GraphSql
