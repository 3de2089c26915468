import GraphSql.Proofs.Planning.Step

namespace GraphSql
open Sql

-- Whole runs of planning: of a graph pattern, of the elements of a query, and of a query.

def seedCondition (leaf : Relation × TriplePattern) (filter : Filter) :
    Except PlanError (Option Condition) :=
  match filter.sides with
  | .variablePair _ _ => .ok none
  | .variableNode v n =>
    (seedColumn leaf.2 leaf.1 v).map fun column =>
      some (.compare (.column column) filter.operator (.value n.display))
  | .nodeVariable n v =>
    (seedColumn leaf.2 leaf.1 v).map fun column =>
      some (.compare (.value n.display) filter.operator (.column column))

def Attachable (leaf : Relation × TriplePattern) (filters : List Filter) : Prop :=
  ∀ f ∈ filters, ∃ found, seedCondition leaf f = .ok found

def attached (leaf : Relation × TriplePattern) (filters : List Filter) : List Condition :=
  filters.filterMap fun f => (seedCondition leaf f).toOption.join

theorem attachFilters_exact {pattern : TriplePattern} {relation : Relation} {s next : PlanState}
    {filters : List Filter} :
    (attachFilters pattern relation s filters).outcome = .ok next ↔
      Attachable (relation, pattern) filters ∧
        next = s.await relation.aliasName (attached (relation, pattern) filters) := by
  induction filters generalizing s with
  | nil => simp [attachFilters, Attachable, attached, PlanState.await, eq_comm]
  | cons filter rest ih =>
    cases sides : filter.sides with
    | variablePair v w =>
      simp [attachFilters, sides, ih, Attachable, attached, seedCondition, Except.toOption]
    | variableNode v n | nodeVariable n v =>
      cases found : seedColumn pattern relation v with
      | error e => simp [attachFilters, sides, found, Attachable, seedCondition, Except.map]
      | ok column =>
        simp [attachFilters, sides, found, ih, Attachable, attached, seedCondition, Except.map,
          Except.toOption, PlanState.await]

def seedGrowth (s : PlanState) (bindings : Bindings) (filters : List Filter) (predicate : Iri)
    (seed : TriplePattern) : Growth :=
  let relation := s.aliases.relation predicate
  ⟨s.settle bindings predicate seed,
    Plan.addBindings bindings (JoinTree.leafVariables (relation, seed)),
    .table relation seed, filters⟩

theorem findSeed_none {s next : PlanState} {bindings bound : Bindings}
    {triples : List TriplePattern} :
    (findSeed s bindings triples).outcome = .ok (none, next, bound) ↔
      (∀ t ∈ triples, t.folded ∈ s.planned) ∧ next = s ∧ bound = bindings := by
  induction triples with
  | nil => simp [findSeed, eq_comm]
  | cons pattern rest ih =>
    simp only [findSeed, Logged.outcome_bind, Logged.outcome_mapError, PlanState.bind_outcome]
    by_cases known : pattern.folded ∈ s.planned
    · simp [known, ih]
    · cases pattern.predicate <;> simp [known]

theorem findSeed_some {s next : PlanState} {bindings bound : Bindings}
    {triples others : List TriplePattern} {seed : TriplePattern} {relation : Relation} :
    (findSeed s bindings triples).outcome = .ok (some (seed, relation, others), next, bound) ↔
      ∃ before predicate, triples = before ++ seed :: others ∧
        (∀ t ∈ before, t.folded ∈ s.planned) ∧ seed.folded ∉ s.planned ∧
        seed.predicate = .iri predicate ∧ relation = s.aliases.relation predicate ∧
        next = s.settle bindings predicate seed ∧
        bound = Plan.addBindings bindings (JoinTree.leafVariables (relation, seed)) := by
  induction triples with
  | nil => simp [findSeed]
  | cons pattern rest ih =>
    simp only [findSeed, Logged.outcome_bind, Logged.outcome_mapError, PlanState.bind_outcome]
    by_cases known : pattern.folded ∈ s.planned
    · simp only [known, if_true, mapError_of_ok, ok_bind, ih]
      constructor
      · rintro ⟨before, predicate, rfl, redundant, rest⟩
        exact ⟨pattern :: before, predicate, rfl, by simpa [known] using redundant, rest⟩
      · rintro ⟨before, predicate, order, redundant, fresh, rest⟩
        cases before with
        | nil =>
          cases order
          exact absurd known fresh
        | cons first before =>
          cases order
          exact ⟨before, predicate, rfl, fun t member => redundant t (by simp [member]), fresh,
            rest⟩
    · have first : ∀ before, pattern :: rest = before ++ seed :: others →
          (∀ t ∈ before, t.folded ∈ s.planned) → before = [] := by
        intro before order redundant
        cases before with
        | nil => rfl
        | cons head tail =>
          cases order
          exact absurd (redundant pattern (by simp)) known
      cases mapped : pattern.predicate with
      | «variable» v =>
        simp only [known, if_false, mapError_of_error, error_bind]
        constructor
        · intro failed
          cases failed
        · rintro ⟨before, predicate, order, redundant, fresh, named, -⟩
          cases first before order redundant
          cases order
          rw [mapped] at named
          cases named
      | iri p =>
        simp only [known, if_false, mapError_of_ok, ok_bind]
        constructor
        · intro found
          cases found
          exact ⟨[], p, rfl, by simp, known, mapped, rfl, rfl, rfl⟩
        · rintro ⟨before, predicate, order, redundant, fresh, named, rfl, rfl, rfl⟩
          cases first before order redundant
          cases order
          rw [mapped] at named
          cases named
          rfl

-- `PatternRun s bindings pattern tree next bound`: planning `pattern` ends in `tree`, the state
-- `next` and the bindings `bound`.
inductive PatternRun (s : PlanState) (bindings : Bindings) (pattern : GraphPattern) :
    Option JoinTree → PlanState → Bindings → Prop where
  | redundant (known : ∀ t ∈ pattern.triples, t.folded ∈ s.planned) :
      PatternRun s bindings pattern none s bindings
  | grown (order : pattern.triples = before ++ seed :: others)
      (known : ∀ t ∈ before, t.folded ∈ s.planned) (fresh : seed.folded ∉ s.planned)
      (mapped : seed.predicate = .iri predicate)
      (run : Growth.Grows (seedGrowth s bindings pattern.filters predicate seed) others g)
      (left : g.filters = [] ∨
        g.tree.isLong = false ∧ Attachable (s.aliases.relation predicate, seed) g.filters) :
      PatternRun s bindings pattern (some g.tree)
        (g.state.await (s.aliases.relation predicate).aliasName
          (attached (s.aliases.relation predicate, seed) g.filters)) g.bindings

theorem planPattern_sound {s next : PlanState} {bindings bound : Bindings} {pattern : GraphPattern}
    {tree : Option JoinTree}
    (planned : (planPattern s bindings pattern).outcome = .ok (tree, next, bound)) :
    PatternRun s bindings pattern tree next bound := by
  simp only [planPattern, Logged.outcome_bind_ok, Logged.outcome_report, exists_const,
    true_and] at planned
  obtain ⟨⟨seed, s', bindings'⟩, found, planned⟩ := planned
  cases seed with
  | none =>
    obtain ⟨known, rfl, rfl⟩ := findSeed_none.mp found
    cases planned
    exact .redundant known
  | some seed =>
    obtain ⟨seed, relation, others⟩ := seed
    obtain ⟨before, predicate, order, known, fresh, mapped, rfl, rfl, rfl⟩ := findSeed_some.mp found
    simp only [Logged.outcome_bind_ok] at planned
    obtain ⟨g, extended, planned⟩ := planned
    have run := Growth.extend_sound extended
    split at planned
    next empty =>
      cases planned
      have none : g.filters = [] := List.isEmpty_iff.mp empty
      have result := PatternRun.grown order known fresh mapped run (.inl none)
      simpa [none, attached, PlanState.await] using result
    next some =>
      split at planned
      next long => cases planned
      next short =>
        obtain ⟨after, attachedTo, planned⟩ := Logged.outcome_bind_ok.mp planned
        obtain ⟨attachable, rfl⟩ := attachFilters_exact.mp attachedTo
        cases planned
        exact .grown order known fresh mapped run (.inr ⟨by simpa using short, attachable⟩)

theorem planPattern_complete {s next : PlanState} {bindings bound : Bindings}
    {pattern : GraphPattern} {tree : Option JoinTree}
    (run : PatternRun s bindings pattern tree next bound) :
    (planPattern s bindings pattern).outcome = .ok (tree, next, bound) := by
  simp only [planPattern, Logged.outcome_bind_ok, Logged.outcome_report, exists_const, true_and]
  cases run with
  | redundant known => exact ⟨_, findSeed_none.mpr ⟨known, rfl, rfl⟩, by simp⟩
  | grown order known fresh mapped run left =>
    refine ⟨_, findSeed_some.mpr ⟨_, _, order, known, fresh, mapped, rfl, rfl, rfl⟩, ?_⟩
    simp only [Logged.outcome_bind_ok]
    refine ⟨_, Growth.extend_complete run, ?_⟩
    obtain none | ⟨short, attachable⟩ := left
    · simp [none, attached, PlanState.await]
    · split
      next empty =>
        simp [List.isEmpty_iff.mp empty, attached, PlanState.await]
      next some =>
        rw [short]
        simp only [Bool.false_eq_true, if_false, Logged.outcome_bind_ok]
        exact ⟨_, attachFilters_exact.mpr ⟨attachable, rfl⟩, rfl⟩

theorem planPattern_exact {s next : PlanState} {bindings bound : Bindings} {pattern : GraphPattern}
    {tree : Option JoinTree} :
    (planPattern s bindings pattern).outcome = .ok (tree, next, bound) ↔
      PatternRun s bindings pattern tree next bound :=
  ⟨planPattern_sound, planPattern_complete⟩

namespace Plan

def Progress.require (p : Progress) (found : Option JoinTree) (s : PlanState)
    (bindings : Bindings) : Progress :=
  { p with
    state := s
    required := bindings
    tree := match found, p.tree with
      | none, tree => tree
      | some member, none => some member
      | some member, some tree => some (tree.add .inner member (tree.links member bindings)) }

def Progress.allow (p : Progress) (tree : JoinTree) (found : Option JoinTree) (s : PlanState)
    (bindings : Bindings) : Progress :=
  match found with
  | none => { p with state := s }
  | some member =>
    { p with
      state := (takeAll s member.aliases).2
      all := addBindings p.all bindings
      tree := some (tree.add .left member
        (tree.links member p.required ++ (takeAll s member.aliases).1)) }

theorem patternOf_ok {element : Element} {pattern : GraphPattern} :
    patternOf element = .ok pattern ↔ element = .pattern pattern := by
  cases element <;> simp [patternOf]

theorem addRequired_exact {p next : Progress} {element : Element} :
    (addRequired p element).outcome = .ok next ↔
      ∃ pattern found s bindings, element = .pattern pattern ∧
        PatternRun p.state p.required pattern found s bindings ∧
        next = p.require found s bindings := by
  simp only [addRequired, Logged.outcome_bind_ok, Logged.outcome_report, exists_const, true_and,
    Logged.outcome_ofExcept, patternOf_ok]
  constructor
  · rintro ⟨pattern, rfl, ⟨found, s, bindings⟩, planned, result⟩
    refine ⟨pattern, found, s, bindings, rfl, planPattern_exact.mp planned, ?_⟩
    cases found with
    | none => simpa [Progress.require, eq_comm] using result
    | some member => cases tree : p.tree <;> simpa [Progress.require, tree, eq_comm] using result
  · rintro ⟨pattern, found, s, bindings, rfl, run, rfl⟩
    refine ⟨pattern, rfl, (found, s, bindings), planPattern_exact.mpr run, ?_⟩
    cases found with
    | none => simp [Progress.require]
    | some member => cases tree : p.tree <;> simp [Progress.require, tree]

theorem addOptional_exact {p next : Progress} {element : Element} :
    (addOptional p element).outcome = .ok next ↔
      ∃ pattern tree found s bindings, element = .pattern pattern ∧ p.tree = some tree ∧
        PatternRun p.state p.required pattern found s bindings ∧
        next = p.allow tree found s bindings := by
  simp only [addOptional, Logged.outcome_bind_ok, Logged.outcome_report, exists_const, true_and,
    Logged.outcome_ofExcept, patternOf_ok]
  constructor
  · rintro ⟨pattern, rfl, result⟩
    cases tree : p.tree with
    | none => simp [tree] at result
    | some tree' =>
      simp only [tree, Logged.outcome_bind_ok] at result
      obtain ⟨⟨found, s, bindings⟩, planned, result⟩ := result
      refine ⟨pattern, tree', found, s, bindings, rfl, rfl, planPattern_exact.mp planned, ?_⟩
      cases found <;> simpa [Progress.allow, tree, eq_comm] using result
  · rintro ⟨pattern, tree, found, s, bindings, rfl, held, run, rfl⟩
    refine ⟨pattern, rfl, ?_⟩
    simp only [held, Logged.outcome_bind_ok]
    refine ⟨(found, s, bindings), planPattern_exact.mpr run, ?_⟩
    cases found <;> simp [Progress.allow, held]

theorem addEach_append (add : Progress → Element → Logged PlanError Progress) (p : Progress)
    (before after : List Element) :
    (addEach add p (before ++ after)).outcome =
      (addEach add p before).outcome >>= fun p => (addEach add p after).outcome := by
  induction before generalizing p with
  | nil => rfl
  | cons e before ih =>
    rw [List.cons_append, addEach, addEach, Logged.outcome_bind, Logged.outcome_bind]
    cases (add p e).outcome with
    | error error => rfl
    | ok next => exact ih next

theorem addEach_keeps {add : Progress → Element → Logged PlanError Progress}
    {holds : List Element → Progress → Prop}
    (kept : ∀ done p element next, holds done p → (add p element).outcome = .ok next →
      holds (done ++ [element]) next)
    {done elements : List Element} {p next : Progress} (start : holds done p)
    (run : (addEach add p elements).outcome = .ok next) : holds (done ++ elements) next := by
  induction elements generalizing done p with
  | nil =>
    cases run
    simpa using start
  | cons element rest ih =>
    obtain ⟨middle, first, later⟩ := Logged.outcome_bind_ok.mp run
    have both := ih (kept _ _ _ _ start first) later
    rwa [List.append_assoc] at both

theorem addEach_preserves {add : Progress → Element → Logged PlanError Progress}
    {holds : Progress → Prop}
    (kept : ∀ p element next, holds p → (add p element).outcome = .ok next → holds next)
    {elements : List Element} {p next : Progress} (start : holds p)
    (run : (addEach add p elements).outcome = .ok next) : holds next :=
  @addEach_keeps add (fun _ => holds) (fun _ => kept) [] elements p next start run

def Progress.start (tables : TableMap) : Progress := ⟨.fresh tables, [], [], none⟩

def Progress.turn (p : Progress) : Progress :=
  { p with state := p.state.setPart .optional, all := p.required }

theorem reportEach_outcome (event : Condition → Event) (conditions : List Condition) :
    (reportEach event conditions).outcome = .ok () := by
  induction conditions with
  | nil => rfl
  | cons condition rest ih => simp [reportEach, ih]

def orderOf (bindings : Bindings) :
    Option (String × SortOrder) → Except PlanError (Option (Column × SortOrder))
  | none => .ok none
  | some (target, direction) =>
    (columnOf bindings target).map fun column => some (column, direction)

theorem finish_exact {p : Progress} {tree : JoinTree} {targets : List String}
    {order : Option (String × SortOrder)} {plan : Plan} :
    (finish p tree targets order).outcome = .ok plan ↔
      ∃ statement, plan = .select statement ∧ targets ≠ [] ∧ statement.source = tree ∧
        targets.mapM (columnOf p.all) = .ok statement.columns ∧
        residual p.state.drainPending.1 = .ok statement.conditions ∧
        orderOf p.all order = .ok statement.order := by
  unfold finish
  split
  next empty =>
    constructor
    · intro failed
      cases failed
    · rintro ⟨_, _, nonempty, _⟩
      exact absurd (List.isEmpty_iff.mp empty) nonempty
  next nonempty =>
    simp only [Logged.outcome_bind_ok, Logged.outcome_ofExcept, reportEach_outcome, exists_const,
      true_and]
    have named : targets ≠ [] := fun empty => nonempty (by simp [empty])
    constructor
    · rintro ⟨columns, mapped, conditions, left, result⟩
      cases order with
      | none =>
        cases result
        exact ⟨_, rfl, named, rfl, mapped, left, rfl⟩
      | some target =>
        obtain ⟨column, held, result⟩ := Logged.outcome_bind_ok.mp result
        cases result
        exact ⟨_, rfl, named, rfl, mapped, left,
          by simp [orderOf, (Logged.outcome_ofExcept _).symm.trans held, Except.map]⟩
    · rintro ⟨⟨columns, source, conditions, order'⟩, rfl, -, rfl, mapped, left, ordered⟩
      refine ⟨columns, mapped, conditions, left, ?_⟩
      cases order with
      | none =>
        cases ordered
        rfl
      | some target =>
        simp only [orderOf] at ordered
        obtain ⟨column, held, same⟩ := map_ok_iff.mp ordered
        cases same
        simp [held]

theorem ofQuery_select {tables : TableMap} {query : Query} {targets : List String}
    {order : Option (String × SortOrder)} {statement : Select} :
    (ofQuery tables query targets order).outcome = .ok (.select statement) ↔
      ∃ base full,
        (addEach addRequired (.start tables) query.required).outcome = .ok base ∧
        (addEach addOptional base.turn query.optional).outcome = .ok full ∧
        full.tree = some statement.source ∧ targets ≠ [] ∧
        targets.mapM (columnOf full.all) = .ok statement.columns ∧
        residual full.state.drainPending.1 = .ok statement.conditions ∧
        orderOf full.all order = .ok statement.order := by
  simp only [ofQuery, Logged.outcome_bind_ok]
  constructor
  · rintro ⟨base, required, full, optional, result⟩
    refine ⟨base, full, required, optional, ?_⟩
    cases tree : full.tree with
    | none => simp [tree] at result
    | some tree' =>
      simp only [tree, finish_exact] at result
      obtain ⟨_, same, nonempty, rfl, rest⟩ := result
      cases same
      exact ⟨rfl, nonempty, rest⟩
  · rintro ⟨base, full, required, optional, tree, nonempty, rest⟩
    refine ⟨base, required, full, optional, ?_⟩
    simp only [tree, finish_exact]
    exact ⟨statement, rfl, nonempty, rfl, rest⟩

end Plan

end GraphSql
