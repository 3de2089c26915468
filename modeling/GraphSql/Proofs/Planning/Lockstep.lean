import GraphSql.Proofs.Planning.Variants

namespace GraphSql
open Sql

-- Queries that are equal are planned in step with one another, to the end or to an error of the
-- same kind.

section answers

variable {α β γ δ : Type} {related : α → β → Prop} {after : γ → δ → Prop}

inductive Answers (related : α → β → Prop) : Except PlanError α → Except PlanError β → Prop where
  | ok (held : related x y) : Answers related (.ok x) (.ok y)
  | error (same : e.kind = e'.kind) : Answers related (.error e) (.error e')

theorem Answers.bind {x : Except PlanError α} {y : Except PlanError β}
    {next : α → Except PlanError γ} {next' : β → Except PlanError δ} (first : Answers related x y)
    (later : ∀ one two, x = .ok one → y = .ok two → related one two →
      Answers after (next one) (next' two)) : Answers after (x >>= next) (y >>= next') := by
  cases first with
  | ok held => exact later _ _ rfl rfl held
  | error same => exact .error same

theorem answers_of_eq {x y : Except PlanError α} (same : x = y) : Answers (· = ·) x y := by
  subst same
  cases x with
  | error e => exact .error rfl
  | ok x => exact .ok rfl

end answers

structure GraphPattern.Same (a : Arrangement) (p q : GraphPattern) : Prop where
  triples : p.triples.map TriplePattern.folded = q.triples.map TriplePattern.folded
  filters : a.Agree (p.filters.map Filter.folded) (q.filters.map Filter.folded)

instance (a : Arrangement) (p q : GraphPattern) : Decidable (p.Same a q) :=
  decidable_of_iff (_ ∧ _) ⟨fun both => ⟨both.1, both.2⟩, fun same => ⟨same.1, same.2⟩⟩

inductive Element.Same (a : Arrangement) : Element → Element → Prop where
  | pattern (same : p.Same a q) : Same a (.pattern p) (.pattern q)
  | subquery (required : List.Forall₂ (Same a) base base')
      (optional : List.Forall₂ (Same a) extra extra') :
      Same a (.subquery base extra) (.subquery base' extra')

-- The same elements in the same order. If the order of filters does not count, this is the equality
-- of queries.
structure Query.Same (a : Arrangement) (q r : Query) : Prop where
  required : List.Forall₂ (Element.Same a) q.required r.required
  optional : List.Forall₂ (Element.Same a) q.optional r.optional

namespace Growth

theorem takeFirst?_variant {remaining others : List TriplePattern} (bindings : Bindings)
    (same : remaining.map TriplePattern.folded = others.map TriplePattern.folded) :
    (takeFirst? (isJoinable bindings) remaining).map
        (fun (found, left) => (found.folded, left.map TriplePattern.folded)) =
      (takeFirst? (isJoinable bindings) others).map
        fun (found, left) => (found.folded, left.map TriplePattern.folded) := by
  rw [← takeFirst?_map (isJoinable_folded bindings), same,
    takeFirst?_map (isJoinable_folded bindings)]

theorem extend_variant {a : Arrangement} {g h : Growth} {remaining others : List TriplePattern}
    (variant : Variant a g h)
    (same : remaining.map TriplePattern.folded = others.map TriplePattern.folded) :
    Answers (Variant a) (g.extend remaining).outcome (h.extend others).outcome := by
  have both := takeFirst?_variant g.bindings same
  cases taken : takeFirst? (isJoinable g.bindings) remaining with
  | none =>
    rw [taken, Option.map_none, eq_comm, Option.map_eq_none_iff, variant.bindings] at both
    cases remaining with
    | nil =>
      rw [List.map_nil, eq_comm, List.map_eq_nil_iff] at same
      rw [same, extend_nil, extend_nil]
      exact .ok variant
    | cons t rest =>
      have some : others ≠ [] := by
        rintro rfl
        cases same
      rw [extend_stuck (by simp) taken, extend_stuck some both]
      exact .error rfl
  | some found =>
    obtain ⟨t, left⟩ := found
    rw [taken, Option.map_some, eq_comm, Option.map_eq_some_iff, variant.bindings] at both
    obtain ⟨⟨u, left'⟩, taken', found⟩ := both
    simp only [Prod.mk.injEq] at found
    obtain ⟨equal, later⟩ := found
    have shorter : left.length < remaining.length := by
      have := takeFirst?_length _ _ _ taken
      simp only at this
      omega
    -- Both runs take the same triple and go the same way with it.
    rw [extend_taken taken, extend_taken taken', equal, variant.state.planned,
      TriplePattern.Same.predicate equal]
    split
    next => exact extend_variant variant later.symm
    next =>
      split
      next => exact .error rfl
      next p _ => exact extend_variant (variant.step p equal.symm) later.symm
termination_by remaining.length

end Growth

section patterns

variable {a : Arrangement} {s t : PlanState} {seed other : TriplePattern}

def foldSeed (found : TriplePattern × Relation × List TriplePattern) :
    TriplePattern × Relation × List TriplePattern :=
  (found.1.folded, found.2.1, found.2.2.map TriplePattern.folded)

theorem findSeed_variant {triples others : List TriplePattern} (variant : s.Variant a t)
    (bindings : Bindings)
    (same : triples.map TriplePattern.folded = others.map TriplePattern.folded) :
    Answers (fun one two => one.1.map foldSeed = two.1.map foldSeed ∧ one.2.1.Variant a two.2.1 ∧
        one.2.2 = two.2.2)
      (findSeed s bindings triples).outcome (findSeed t bindings others).outcome := by
  induction triples generalizing others with
  | nil =>
    rw [List.map_nil, eq_comm, List.map_eq_nil_iff] at same
    subst same
    exact .ok ⟨rfl, variant, rfl⟩
  | cons pattern rest ih =>
    cases others with
    | nil => cases same
    | cons pattern' rest' =>
      obtain ⟨equal, later⟩ := List.cons.inj same
      rw [findSeed_cons, findSeed_cons, equal, variant.planned,
        TriplePattern.Same.predicate equal]
      split
      next => exact ih later
      next =>
        split
        next => exact .error rfl
        next p _ =>
          refine .ok ⟨?_, variant.settle bindings p equal, ?_⟩
          · simp [foldSeed, equal, later, variant.aliases]
          · rw [variant.aliases, leafVariables_same _ equal]

theorem attachable_iff (leaf : Relation × TriplePattern) (filters : List Filter) :
    Attachable leaf filters ↔ Attachable leaf (filters.map Filter.folded) := by
  have each : ∀ x y : Except PlanError (Option Condition),
      x.map (Option.map Condition.folded) = y.map (Option.map Condition.folded) →
      ((∃ found, x = .ok found) ↔ ∃ found, y = .ok found) := by
    intro x y same
    cases x <;> cases y <;> simp [Except.map] at same ⊢
  simp only [Attachable, List.forall_mem_map]
  exact forall₂_congr fun f _ => each _ _ (seedCondition_folded_filter leaf f).symm

theorem attachFilters_variant {filters filters' : List Filter} (variant : s.Variant a t)
    (relation : Relation) (same : seed.Same other)
    (agree : a.Agree (filters.map Filter.folded) (filters'.map Filter.folded)) :
    Answers (PlanState.Variant a) (attachFilters seed relation s filters).outcome
      (attachFilters other relation t filters').outcome := by
  have leaf : ∀ f, seedCondition (relation, seed) f = seedCondition (relation, other) f := by
    intro f
    rw [← seedCondition_folded, same.folded, seedCondition_folded]
  have attachable :
      Attachable (relation, seed) filters ↔ Attachable (relation, other) filters' := by
    rw [attachable_iff, attachable_iff (relation, other)]
    simp only [Attachable, leaf, agree.perm.mem_iff]
  cases one : (attachFilters seed relation s filters).outcome with
  | error e =>
    cases two : (attachFilters other relation t filters').outcome with
    | error e' => exact .error ((attachFilters_kind one).trans (attachFilters_kind two).symm)
    | ok next =>
      have found := attachable.mpr (attachFilters_exact.mp two).1
      rw [attachFilters_exact.mpr ⟨found, rfl⟩] at one
      cases one
  | ok next =>
    obtain ⟨found, rfl⟩ := attachFilters_exact.mp one
    rw [attachFilters_exact.mpr ⟨attachable.mp found, rfl⟩]
    refine .ok (variant.await _ ?_)
    rw [map_attached, map_attached]
    simp only [leaf]
    exact agree.filterMap _

theorem concludeGrowth_variant {g h : Growth} (variant : g.Variant a h) (relation : Relation)
    (same : seed.Same other) :
    Answers (fun one two => Option.Rel (JoinTree.Variant a.Clauses) one.1 two.1 ∧
        one.2.1.Variant a two.2.1 ∧ one.2.2 = two.2.2)
      (concludeGrowth seed relation g) (concludeGrowth other relation h) := by
  have empty := variant.filters.isEmpty
  rw [List.isEmpty_map, List.isEmpty_map] at empty
  unfold concludeGrowth
  rw [empty, variant.tree.isLong]
  split
  next => exact .ok ⟨.some variant.tree, variant.state, variant.bindings⟩
  next =>
    split
    next => exact .error rfl
    next =>
      refine (attachFilters_variant variant.state relation same variant.filters).bind ?_
      intro one two _ _ state
      exact .ok ⟨.some variant.tree, state, variant.bindings⟩

theorem planPattern_variant {p q : GraphPattern} (variant : s.Variant a t) (bindings : Bindings)
    (same : p.Same a q) :
    Answers (fun one two => Option.Rel (JoinTree.Variant a.Clauses) one.1 two.1 ∧
        one.2.1.Variant a two.2.1 ∧ one.2.2 = two.2.2)
      (planPattern s bindings p).outcome (planPattern t bindings q).outcome := by
  rw [planPattern_outcome, planPattern_outcome]
  refine (findSeed_variant variant bindings same.triples).bind ?_
  rintro ⟨found, s, bound⟩ ⟨found', t, bound'⟩ - - ⟨seeds, variant, rfl⟩
  cases found with
  | none =>
    rw [Option.map_none, eq_comm, Option.map_eq_none_iff] at seeds
    simp only at seeds
    subst seeds
    exact .ok ⟨.none, variant, rfl⟩
  | some found =>
    rw [Option.map_some, eq_comm, Option.map_eq_some_iff] at seeds
    obtain ⟨⟨other, relation', later'⟩, rfl, equal⟩ := seeds
    obtain ⟨seed, relation, later⟩ := found
    simp only [foldSeed, Prod.mk.injEq] at equal
    obtain ⟨equal, rfl, left⟩ := equal
    have start : Growth.Variant a ⟨s, bound, .table relation' seed, p.filters⟩
        ⟨t, bound, .table relation' other, q.filters⟩ :=
      ⟨variant, rfl, .table equal.symm, same.filters⟩
    refine (Growth.extend_variant start left.symm).bind ?_
    intro g h _ _ variant
    exact concludeGrowth_variant variant relation' equal.symm

end patterns

namespace Plan

variable {a : Arrangement} {p q : Progress}

structure Variant (a : Arrangement) (p q : Progress) : Prop where
  state : p.state.Variant a q.state
  required : p.required = q.required
  all : p.all = q.all
  tree : Option.Rel (JoinTree.Variant a.Clauses) p.tree q.tree

theorem Variant.trees (variant : Variant a p q) :
    p.tree = none ∧ q.tree = none ∨
      ∃ t u, p.tree = some t ∧ q.tree = some u ∧ JoinTree.Variant a.Clauses t u := by
  have tree := variant.tree
  generalize p.tree = one at tree ⊢
  generalize q.tree = two at tree ⊢
  cases tree with
  | none => exact .inl ⟨rfl, rfl⟩
  | some same => exact .inr ⟨_, _, rfl, rfl, same⟩

theorem variant_start (a : Arrangement) (tables : TableMap) :
    Variant a (.start tables) (.start tables) :=
  ⟨⟨rfl, rfl, rfl, .nil⟩, rfl, rfl, .none⟩

theorem Variant.turn (variant : Variant a p q) : Variant a p.turn q.turn :=
  ⟨⟨variant.state.aliases, variant.state.planned, rfl, variant.state.pending⟩, variant.required,
    variant.required, variant.tree⟩

theorem Variant.require {found found' : Option JoinTree} {s t : PlanState}
    (variant : Variant a p q) (trees : Option.Rel (JoinTree.Variant a.Clauses) found found')
    (state : s.Variant a t) (bound : Bindings) :
    Variant a (p.require found s bound) (q.require found' t bound) := by
  refine ⟨state, rfl, variant.all, ?_⟩
  unfold Progress.require
  cases trees with
  | none => exact variant.tree
  | some member =>
    rcases variant.trees with ⟨held, held'⟩ | ⟨t, u, held, held', tree⟩
    · simp only [held, held']
      exact .some member
    · simp only [held, held', tree.links member]
      exact .some (tree.add .inner member (Arrangement.agree_of_eq rfl).sources)

theorem Variant.allow {init init' : JoinTree} {found found' : Option JoinTree} {s t : PlanState}
    (variant : Variant a p q) (tree : JoinTree.Variant a.Clauses init init')
    (trees : Option.Rel (JoinTree.Variant a.Clauses) found found') (state : s.Variant a t)
    (bound : Bindings) :
    Variant a (p.allow init found s bound) (q.allow init' found' t bound) := by
  cases trees with
  | none => exact ⟨state, variant.required, variant.all, variant.tree⟩
  | some member =>
    simp only [Progress.allow]
    rw [← member.aliases, tree.links member, variant.required, variant.all]
    refine ⟨state.takeAll _, rfl, rfl, .some (tree.add .left member ?_)⟩
    exact (Arrangement.agree_of_eq rfl).sources.append (state.taken _)

theorem patternOf_variant {e e' : Element} (same : e.Same a e') :
    Answers (GraphPattern.Same a) (patternOf e) (patternOf e') := by
  cases same with
  | pattern same => exact .ok same
  | subquery => exact .error rfl

theorem addRequired_variant {e e' : Element} (variant : Variant a p q) (same : e.Same a e') :
    Answers (Variant a) (addRequired p e).outcome (addRequired q e').outcome := by
  rw [addRequired_outcome, addRequired_outcome]
  refine (patternOf_variant same).bind fun pattern pattern' _ _ same => ?_
  rw [variant.required]
  refine (planPattern_variant variant.state q.required same).bind ?_
  rintro ⟨found, s, bound⟩ ⟨found', t, bound'⟩ - - ⟨trees, state, rfl⟩
  exact .ok (variant.require trees state bound)

theorem addOptional_variant {e e' : Element} (variant : Variant a p q) (same : e.Same a e') :
    Answers (Variant a) (addOptional p e).outcome (addOptional q e').outcome := by
  rw [addOptional_outcome, addOptional_outcome]
  refine (patternOf_variant same).bind fun pattern pattern' _ _ same => ?_
  rcases variant.trees with ⟨held, held'⟩ | ⟨t, u, held, held', tree⟩
  · simp only [held, held']
    exact .error rfl
  · simp only [held, held', variant.required]
    refine (planPattern_variant variant.state q.required same).bind ?_
    rintro ⟨found, s, bound⟩ ⟨found', t, bound'⟩ - - ⟨trees, state, rfl⟩
    exact .ok (variant.allow tree trees state bound)

theorem addEach_variant {add : Progress → Element → Logged PlanError Progress}
    (step : ∀ p q e e', Variant a p q → Element.Same a e e' →
      Answers (Variant a) (add p e).outcome (add q e').outcome)
    {elements others : List Element} (same : List.Forall₂ (Element.Same a) elements others)
    (variant : Variant a p q) :
    Answers (Variant a) (addEach add p elements).outcome (addEach add q others).outcome := by
  induction same generalizing p q with
  | nil => exact .ok variant
  | cons first rest ih =>
    rw [addEach, addEach, Logged.outcome_bind, Logged.outcome_bind]
    exact (step _ _ _ _ variant first).bind fun _ _ _ _ variant => ih variant

end Plan

end GraphSql
