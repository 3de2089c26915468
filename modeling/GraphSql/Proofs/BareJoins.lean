import GraphSql.Proofs.Planning.Placement
import GraphSql.Proofs.Planning.Reach

namespace GraphSql
open Sql

-- Which joins of a FROM clause have no ON clause.

def TriplePattern.IsLoop (t : TriplePattern) : Prop :=
  ∃ v, t.subject = .variable v ∧ t.object = .variable v

def Branch.Detached (b : Branch) (elements : List Element) : Prop :=
  ∀ leaf ∈ b.leaves, ∀ name ∈ leaf.2.names, ∀ e ∈ elements, name ∉ e.names

namespace Sql.JoinTree

def Linked : JoinTree → Prop
  | .table .. => True
  | .group first => first.Linked
  | .join init _ last on => on ≠ [] ∧ init.Linked ∧ last.Linked

def adjoin (t : Option JoinTree) (b : Branch) : Option JoinTree :=
  match b.joined, t with
  | none, t => t
  | some (member, _), none => some member
  | some (member, on), some t => some (.join t .inner member on)

def assemble (rs : List Branch) : Option JoinTree := rs.foldl adjoin none

theorem assemble_concat (rs : List Branch) (b : Branch) :
    assemble (rs ++ [b]) = adjoin (assemble rs) b := by
  simp [assemble]

theorem links_eq_nil_iff {t member : JoinTree} {bindings : Bindings} :
    t.links member bindings = [] ↔ ∀ name, member.Holds name →
      ∀ column, bindings.lookup name = some column → (name, column) ∉ t.held := by
  rw [List.eq_nil_iff_forall_not_mem]
  constructor
  · intro none name holds column looked held
    obtain ⟨own, inside⟩ := holds
    exact none _ (mem_links.mpr ⟨name, column, own, held, looked, inside, rfl⟩)
  · intro apart c link
    obtain ⟨name, one, two, held, looked, inside, -⟩ := mem_links.mp link
    exact apart name ⟨two, inside⟩ one looked held

end Sql.JoinTree

theorem hasConstant_iff {leaf : Relation × TriplePattern} :
    leaf.2.HasConstant ↔ ∃ side n, JoinTree.nodeAt leaf side = .node n := by
  constructor
  · rintro ⟨n, subject | object⟩
    · exact ⟨.subject, n, subject⟩
    · exact ⟨.object, n, object⟩
  · rintro ⟨side, n, node⟩
    cases side with
    | subject => exact ⟨n, .inl node⟩
    | object => exact ⟨n, .inr node⟩

theorem exists_own_iff {bindings : Bindings} {leaf : Relation × TriplePattern}
    (apart : ∀ entry ∈ bindings, entry.2.table ≠ leaf.1.aliasName) :
    (∃ c, c ∈ PlanState.ownConditions bindings leaf) ↔
      leaf.2.HasConstant ∨
        ∃ v, leaf.2.subject = .variable v ∧ leaf.2.object = .variable v ∧
          bindings.lookup v.name = none := by
  have free : ∀ {v : Variable} {bound : Column}, bound.table = leaf.1.aliasName →
      (Plan.addBindings bindings (JoinTree.leafVariables leaf)).lookup v.name = some bound →
      bindings.lookup v.name = none ∧
        (JoinTree.leafVariables leaf).lookup v.name = some bound := by
    intro v bound table looked
    rw [lookup_addBindings] at looked
    rcases Option.or_eq_some_iff.mp looked with old | new
    · exact absurd table (apart _ (mem_of_lookup old))
    · exact new
  simp only [PlanState.mem_ownConditions]
  constructor
  · rintro ⟨c, ⟨side, n, node, -⟩ | ⟨side, v, bound, node, looked, table, differs, -⟩⟩
    · exact .inl (hasConstant_iff.mpr ⟨side, n, node⟩)
    · obtain ⟨unbound, first⟩ := free table looked
      obtain ⟨other, w, node', name, rfl⟩ := JoinTree.mem_leafVariables.mp (mem_of_lookup first)
      have same : w = v := by
        obtain ⟨_, _⟩ := w
        obtain ⟨_, _⟩ := v
        cases name
        rfl
      subst same
      cases side with
      | subject =>
        cases other with
        | subject => exact absurd rfl differs
        | object => exact .inr ⟨w, node, node', unbound⟩
      | object =>
        cases other with
        | subject => exact .inr ⟨w, node', node, unbound⟩
        | object => exact absurd rfl differs
  · rintro (constant | ⟨v, subject, object, unbound⟩)
    · obtain ⟨side, n, node⟩ := hasConstant_iff.mp constant
      exact ⟨_, .inl ⟨side, n, node, rfl⟩⟩
    · refine ⟨_, .inr ⟨.object, v, leaf.1.column .subject, object, ?_, rfl, ?_, rfl⟩⟩
      · simp [lookup_addBindings, unbound, JoinTree.leafVariables, subject, NodePattern.asVariable]
      · simp [Relation.column]

theorem exists_attached_iff {leaf : Relation × TriplePattern} {filters : List Filter}
    (attachable : Attachable leaf filters) :
    (∃ c, c ∈ attached leaf filters) ↔ ∃ f ∈ filters, f.vars.length = 1 := by
  simp only [mem_attached]
  constructor
  · rintro ⟨c, f, member, found⟩
    refine ⟨f, member, ?_⟩
    unfold seedCondition at found
    cases sides : f.sides with
    | variablePair v w => simp [sides] at found
    | variableNode v n | nodeVariable n v => simp [Filter.vars, sides, FilterSides.names]
  · rintro ⟨f, member, single⟩
    obtain ⟨c, found⟩ := seedCondition_some attachable member (by omega)
    exact ⟨c, f, member, found⟩

namespace Growth

variable {s : PlanState} {bindings : Bindings} {triples remaining : List TriplePattern}
  {filters : List Filter} {g next : Growth} {predicate : Iri} {pattern : TriplePattern}
  {names : List String} {seed : Relation × TriplePattern}

-- A triple that can be joined is joined with an ON clause: its constant is fixed, or its variable
-- is equated with a column of another table.
theorem onClause_ne_nil (grown : GrownFrom s bindings triples g) (tidy : g.state.Tidy)
    (drawn : ∀ entry ∈ bindings, entry.2.table ∈ names)
    (fresh : g.nextAlias predicate ∉ names ++ g.tree.aliases)
    (joinable : isJoinable g.bindings pattern = true) : g.onClause predicate pattern ≠ [] := by
  have some : ∃ c, c ∈ g.onClause predicate pattern := by
    simp only [mem_onClause tidy]
    rcases isJoinable_iff.mp joinable with constant | ⟨name, named, bound⟩
    · obtain ⟨side, n, node⟩ := (@hasConstant_iff (g.nextLeaf predicate pattern)).mp constant
      exact ⟨_, .inl (PlanState.mem_ownConditions.mpr (.inl ⟨side, n, node, rfl⟩))⟩
    · obtain ⟨own, held⟩ := (@JoinTree.mem_names_iff (g.nextLeaf predicate pattern) name).mp named
      obtain ⟨side, v, node, rfl, rfl⟩ := JoinTree.mem_leafVariables.mp held
      obtain ⟨column, looked⟩ := Option.isSome_iff_exists.mp bound
      have known : column.table ∈ names ++ g.tree.aliases := by
        rcases List.mem_append.mp (grown.mem_held looked) with old | new
        · exact List.mem_append_left _ (drawn _ old)
        · exact List.mem_append_right _ (JoinTree.table_of_held new)
      have differs : column ≠ (g.nextLeaf predicate pattern).1.column side := by
        rintro rfl
        exact fresh known
      have still : (g.settled predicate pattern).bindings.lookup v.name = Option.some column := by
        rw [settled, lookup_addBindings, looked, Option.some_or]
      exact ⟨_, .inr (.inl (mem_equalities.mpr ⟨side, v, column, node, still, differs, rfl⟩))⟩
  intro none
  obtain ⟨c, member⟩ := some
  rw [none] at member
  cases member

-- All joins of the growth have ON clauses, and nothing waits under its aliases but what its first
-- leaf demands of its own columns.
structure Fastened (bindings : Bindings) (seed : Relation × TriplePattern) (g : Growth) : Prop where
  linked : g.tree.Linked
  first : seed.1.aliasName ∈ g.tree.aliases
  waits : ∀ aliasName ∈ g.tree.aliases, ∀ c, g.state.Waits aliasName c ↔
    aliasName = seed.1.aliasName ∧ c ∈ PlanState.ownConditions bindings seed

theorem fastened_seed {seed : TriplePattern}
    (absent : ∀ c, ¬ s.Waits (s.aliases.relation predicate).aliasName c) :
    Fastened bindings (s.aliases.relation predicate, seed)
      (seedGrowth s bindings filters predicate seed) where
  linked := trivial
  first := List.mem_singleton_self _
  waits := by
    intro aliasName member c
    cases List.mem_singleton.mp member
    rw [seedGrowth, PlanState.waits_settle]
    exact or_iff_right (absent c)

theorem Fastened.step (fastened : Fastened bindings seed g) (on : g.onClause predicate pattern ≠ [])
    (fresh : g.nextAlias predicate ∉ g.tree.aliases) :
    Fastened bindings seed (g.step predicate pattern) where
  linked := ⟨on, fastened.linked, trivial⟩
  first := by
    rw [aliases_step]
    exact List.mem_append_left _ fastened.first
  waits := by
    intro aliasName member c
    rw [waits_step]
    rw [aliases_step, List.mem_append, List.mem_singleton] at member
    rcases member with old | rfl
    · have differs : aliasName ≠ g.nextAlias predicate := fun same => fresh (same ▸ old)
      rw [fastened.waits aliasName old, and_iff_right differs]
    · have other : g.nextAlias predicate ≠ seed.1.aliasName := fun same =>
        fresh (same ▸ fastened.first)
      simp [other]

theorem Grows.fastened (run : Grows g remaining next) (among : ∀ t ∈ remaining, t ∈ triples)
    (grown : GrownFrom s bindings triples g) (tidy : g.state.Tidy)
    (drawn : ∀ entry ∈ bindings, entry.2.table ∈ names) (fastened : Fastened bindings seed g)
    (apart : (names ++ next.tree.aliases).Nodup) : Fastened bindings seed next := by
  have kept : ∀ g predicate pattern, (GrownFrom s bindings triples g ∧ g.state.Tidy ∧
      ((names ++ g.tree.aliases).Nodup → Fastened bindings seed g)) → pattern ∈ triples →
      pattern.folded ∉ g.state.planned → pattern.predicate = .iri predicate →
      isJoinable g.bindings pattern = true →
      GrownFrom s bindings triples (g.step predicate pattern) ∧
        (g.step predicate pattern).state.Tidy ∧
        ((names ++ (g.step predicate pattern).tree.aliases).Nodup →
          Fastened bindings seed (g.step predicate pattern)) := by
    rintro g predicate pattern ⟨grown, tidy, earlier⟩ member fresh mapped joinable
    refine ⟨grown.step member fresh mapped, tidy_step tidy, fun apart => ?_⟩
    rw [aliases_step, ← List.append_assoc] at apart
    obtain ⟨before, -, between⟩ := List.nodup_append.mp apart
    have new : g.nextAlias predicate ∉ names ++ g.tree.aliases := fun old =>
      between _ old _ (List.mem_singleton_self _) rfl
    exact (earlier before).step (onClause_ne_nil grown tidy drawn new joinable)
      fun old => new (List.mem_append_right _ old)
  exact (run.keeps_joinable kept among ⟨grown, tidy, fun _ => fastened⟩).2.2 apart

theorem GrownFrom.exists_attached {first : TriplePattern}
    (grown : GrownFrom s bindings triples next)
    (run : Grows (seedGrowth s bindings filters predicate first) remaining next)
    (left : next.filters = [] ∨ next.tree.isLong = false ∧ Attachable seed next.filters) :
    (∃ c, c ∈ attached seed next.filters) ↔
      next.tree.leaves.length = 1 ∧ ∃ f ∈ filters, f.vars.length = 1 := by
  have attachable : Attachable seed next.filters := by
    rcases left with none | ⟨-, attachable⟩
    · simp [none, Attachable]
    · exact attachable
  have some := List.length_pos_iff.mpr next.tree.leaves_ne_nil
  rw [exists_attached_iff attachable]
  cases length : next.tree.isLong with
  | true =>
    have two := grown.long.mp length
    have none : next.filters = [] := by
      rcases left with none | ⟨short, -⟩
      · exact none
      · rw [length] at short
        cases short
    refine iff_of_false (by simp [none]) fun one => ?_
    omega
  | false =>
    have lone : next.tree.leaves.length = 1 := by
      have short := mt grown.long.mpr (by simp [length])
      omega
    have all : next.filters = filters := by
      rw [run.filters_left, length]
      rfl
    rw [all, and_iff_right lone]

end Growth

structure PatternEnd (s : PlanState) (bindings : Bindings) (pattern : GraphPattern)
    (tree : JoinTree) (next : PlanState) (seed : TriplePattern) : Prop where
  split : ∃ before others, pattern.triples = before ++ seed :: others ∧
    (∀ t ∈ before, t.folded ∈ s.planned) ∧ seed.folded ∉ s.planned
  present : ∃ leaf ∈ tree.leaves, leaf.2 = seed
  linked : tree.Linked
  waits : (∃ aliasName ∈ tree.aliases, ∃ c, next.Waits aliasName c) ↔
    seed.HasConstant ∨
      (∃ v, seed.subject = .variable v ∧ seed.object = .variable v ∧
        bindings.lookup v.name = none) ∨
      tree.leaves.length = 1 ∧ ∃ f ∈ pattern.filters, f.vars.length = 1

theorem PatternRun.ends {s next : PlanState} {bindings bound : Bindings} {pattern : GraphPattern}
    {tree : JoinTree} {names : List String}
    (run : PatternRun s bindings pattern (some tree) next bound) (tidy : s.Tidy)
    (drawn : ∀ entry ∈ bindings, entry.2.table ∈ names)
    (waiting : ∀ aliasName c, s.Waits aliasName c → aliasName ∈ names)
    (apart : (names ++ tree.aliases).Nodup) :
    ∃ seed, PatternEnd s bindings pattern tree next seed := by
  cases run with
  | grown order known fresh mapped run left =>
    rename_i before seed others predicate g
    have among : ∀ t ∈ others, t ∈ pattern.triples := by
      intro t member
      simp [order, member]
    have start : Growth.GrownFrom s bindings pattern.triples
        (seedGrowth s bindings pattern.filters predicate seed) :=
      Growth.grownFrom_seed (by simp [order]) fresh mapped
    have grown := run.grownFrom among start
    have here : (s.aliases.relation predicate).aliasName ∈ g.tree.aliases :=
      List.mem_map.mpr ⟨_, run.seed_mem, rfl⟩
    have new : (s.aliases.relation predicate).aliasName ∉ names := fun old =>
      (List.nodup_append.mp apart).2.2 _ old _ here rfl
    have fastened := run.fastened among start (tidy.settle _ _ _) drawn
      (Growth.fastened_seed fun c waits => new (waiting _ c waits)) apart
    have own := @exists_own_iff bindings (s.aliases.relation predicate, seed)
      fun entry member same => new (same ▸ drawn entry member)
    refine ⟨seed, ⟨before, others, order, known, fresh⟩, ⟨_, run.seed_mem, rfl⟩,
      fastened.linked, ?_⟩
    rw [← or_assoc, ← own, ← grown.exists_attached run left]
    constructor
    · rintro ⟨aliasName, member, c, waits⟩
      rcases (PlanState.waits_await _ _ _ _ _).mp waits with old | ⟨-, attached⟩
      · exact .inl ⟨c, ((fastened.waits aliasName member c).mp old).2⟩
      · exact .inr ⟨c, attached⟩
    · rintro (⟨c, demanded⟩ | ⟨c, attached⟩)
      · exact ⟨_, here, c, (PlanState.waits_await _ _ _ _ _).mpr
          (.inl ((fastened.waits _ here c).mpr ⟨rfl, demanded⟩))⟩
      · exact ⟨_, here, c, (PlanState.waits_await _ _ _ _ _).mpr (.inr ⟨rfl, attached⟩)⟩

namespace Plan

structure Joining (before : List Element) (b : Branch) : Prop extends Operand before b where
  linked : ∀ member on, b.joined = some (member, on) → member.Linked

theorem joining_none {before : List Element} {pattern : GraphPattern}
    (empty : ownTriples before pattern = []) : Joining before ⟨pattern, none⟩ where
  own := by simp [Branch.leaves, empty]
  among := by simp [Branch.leaves]
  inner := by simp
  linked := by simp

theorem joining_some {before : List Element} {p : Progress} {bindings bound : Bindings}
    {tables : TableMap} {pattern : GraphPattern} {member : JoinTree} {s : PlanState}
    {seed : TriplePattern} {on : List Condition} (outline : Outline tables before p)
    (run : PatternRun p.state bindings pattern (some member) s bound)
    (ends : PatternEnd p.state bindings pattern member s seed) :
    Joining before ⟨pattern, some (member, on)⟩ := by
  obtain ⟨left, grown, -⟩ := run.founded outline.tidy
  refine ⟨⟨outline.own_leaves run, grown.among, ?_⟩, ?_⟩
  · intro other on joined
    cases joined
    exact grown.inner
  · intro other on joined
    cases joined
    exact ends.linked

variable {tables : TableMap} {done required elements : List Element} {base p : Progress}
  {bs : List Branch} {pattern : GraphPattern} {bound : Bindings} {s : PlanState}
  {init member : JoinTree} {name : String}

theorem Required.binds_iff (known : Required tables done p) :
    (p.required.lookup name).isSome ↔ ∃ e ∈ done, name ∈ e.names := by
  rw [known.bound, lookup_addBindings, List.lookup_nil, Option.none_or, lookup_isSome_iff,
    Progress.held, JoinTree.exists_held_iff]
  constructor
  · rintro ⟨leaf, present, named⟩
    obtain ⟨e, planned, used⟩ := known.among leaf present
    exact ⟨e, planned, List.mem_flatMap.mpr ⟨leaf.2, used, named⟩⟩
  · rintro ⟨e, planned, named⟩
    obtain ⟨t, used, named⟩ := List.mem_flatMap.mp named
    have covered := known.covers e planned t used
    rw [known.planned] at covered
    obtain ⟨leaf, present, same⟩ := List.mem_map.mp covered
    rw [← TriplePattern.names_same same] at named
    exact ⟨leaf, present, named⟩

theorem Required.detached_iff (known : Required tables done p) {on : List Condition} :
    Branch.Detached ⟨pattern, some (member, on)⟩ done ↔
      ∀ name, member.Holds name → p.required.lookup name = none := by
  have free : ∀ name, p.required.lookup name = none ↔ ∀ e ∈ done, name ∉ e.names := by
    intro name
    rw [← Option.not_isSome_iff_eq_none, known.binds_iff]
    simp
  simp only [free, JoinTree.holds_iff]
  constructor
  · rintro detached name ⟨leaf, present, named⟩
    exact detached leaf present name named
  · intro apart leaf present name named
    exact apart name ⟨leaf, present, named⟩

section required

def memberOf (p : Progress) (pattern : GraphPattern) (member : JoinTree) (bound : Bindings) :
    Branch :=
  ⟨pattern, some (member, (p.tree.map fun t => distinct (t.links member bound)).getD [])⟩

theorem tree_require (p : Progress) (pattern : GraphPattern) (member : JoinTree) (s : PlanState)
    (bound : Bindings) :
    (p.require (some member) s bound).tree =
      JoinTree.adjoin p.tree (memberOf p pattern member bound) := by
  cases held : p.tree <;> simp [Progress.require, memberOf, JoinTree.adjoin, JoinTree.add, held]

theorem Required.bare_iff (known : Required tables done p)
    (run : PatternRun p.state p.required pattern (some member) s bound) {on : List Condition}
    (joined : (memberOf p pattern member bound).joined = some (member, on)) :
    on = [] ↔ (memberOf p pattern member bound).Detached done := by
  obtain ⟨left, grown, -⟩ := run.founded known.tidy
  rw [memberOf, known.detached_iff]
  cases joined
  cases held : p.tree with
  | none =>
    have free : ∀ name, p.required.lookup name = none := by
      intro name
      simp [known.bound, lookup_addBindings, Progress.held, Progress.leaves, held]
    simp [free]
  | some t =>
    have same : p.held = t.held := by simp [Progress.held, Progress.leaves, held, JoinTree.held]
    rw [Option.map_some, Option.getD_some, distinct_eq_nil_iff, JoinTree.links_eq_nil_iff]
    constructor
    · intro apart name holds
      rw [Option.eq_none_iff_forall_ne_some]
      intro column looked
      refine apart name holds column ?_ (same ▸ known.drawn _ (mem_of_lookup looked))
      rw [show bound = _ from grown.bound, lookup_addBindings, looked, Option.some_or]
    · intro free name holds column _ inside
      have bound : (p.required.lookup name).isSome := by
        rw [known.bound, lookup_addBindings, List.lookup_nil, Option.none_or,
          lookup_isSome_iff, same]
        exact ⟨column, inside⟩
      rw [free name holds] at bound
      cases bound

-- What is said of a required element: the join of a later one has no ON clause if and only if none
-- of its variables is in an earlier one.
structure Adjoined (before : List Element) (r : Branch) : Prop extends Joining before r where
  bare : ∀ member on, r.joined = some (member, on) → (on = [] ↔ r.Detached before)

theorem Required.adjoined (known : Required tables done p)
    (run : PatternRun p.state p.required pattern (some member) s bound)
    (apart : (p.aliases ++ member.aliases).Nodup) :
    Adjoined done (memberOf p pattern member bound) := by
  have drawn : ∀ entry ∈ p.required, entry.2.table ∈ p.aliases := fun entry bound =>
    JoinTree.table_of_leaves (known.drawn entry bound)
  obtain ⟨seed, ends⟩ := run.ends known.tidy drawn known.waiting apart
  refine ⟨joining_some known.toOutline run ends, ?_⟩
  intro other on joined
  cases joined
  exact known.bare_iff run rfl

theorem adjoined_required (run : (addEach addRequired (.start tables) elements).outcome = .ok p)
    (apart : p.aliases.Nodup) :
    ∃ rs, elements = rs.map Branch.element ∧ p.tree = JoinTree.assemble rs ∧
      ∀ before r after, rs = before ++ r :: after → Adjoined (before.map Branch.element) r := by
  refine required_induction (fun done p => ∃ rs, done = rs.map Branch.element ∧
    p.tree = JoinTree.assemble rs ∧
      ∀ before r after, rs = before ++ r :: after → Adjoined (before.map Branch.element) r)
    ⟨[], rfl, rfl, by simp⟩ ?_ ?_ run apart
  · rintro done p pattern - ⟨rs, rfl, tree, earlier⟩ empty
    refine ⟨rs ++ [⟨pattern, none⟩], by simp [Branch.element], ?_,
      splits_concat earlier ⟨joining_none empty, by simp⟩⟩
    rw [JoinTree.assemble_concat, tree]
    rfl
  · rintro done p pattern member s bound known ⟨rs, rfl, tree, earlier⟩ run apart
    refine ⟨rs ++ [memberOf p pattern member bound], by simp [Branch.element, memberOf], ?_,
      splits_concat earlier (known.adjoined run apart)⟩
    rw [JoinTree.assemble_concat, ← tree]
    exact tree_require p pattern member s bound

end required

section optional

-- What is said of an optional element: its left join has no ON clause if and only if nothing links
-- it to the required elements, and its seed and its filters demand nothing of its only tables.
structure Extending (required before : List Element) (b : Branch) : Prop
    extends Joining (required ++ before) b where
  bare : ∀ member on, b.joined = some (member, on) →
    ∃ seed, IsSeed (required ++ before) b.pattern seed ∧
      (on = [] ↔ b.Detached required ∧ ¬ seed.HasConstant ∧ ¬ seed.IsLoop ∧
        ¬ (member.leaves.length = 1 ∧ ∃ f ∈ b.pattern.filters, f.vars.length = 1))

theorem Allowed.bare_iff (allowed : Allowed tables required base bs p)
    (known : Required tables required base) (held : p.tree = some init)
    (run : PatternRun p.state p.required pattern (some member) s bound) {seed : TriplePattern}
    (ends : PatternEnd p.state p.required pattern member s seed) {on : List Condition}
    (joined : (branchOf pattern init member p.required s).joined = some (member, on)) :
    on = [] ↔ (branchOf pattern init member p.required s).Detached required ∧
      ¬ seed.HasConstant ∧ ¬ seed.IsLoop ∧
      ¬ (member.leaves.length = 1 ∧ ∃ f ∈ pattern.filters, f.vars.length = 1) := by
  obtain ⟨left, -, founded, -⟩ := run.founded allowed.tidy
  have same : p.held = init.held := by
    simp [Progress.held, Progress.leaves, held, JoinTree.held]
  have links : init.links member p.required = [] ↔
      ∀ name, member.Holds name → p.required.lookup name = none := by
    rw [JoinTree.links_eq_nil_iff]
    simp only [Option.eq_none_iff_forall_ne_some]
    constructor
    · intro apart name holds column looked
      exact apart name holds column looked
        (same ▸ allowed.drawn known _ (mem_of_lookup looked))
    · intro free name holds column looked
      exact absurd looked (free name holds column)
  have waiting : (takeAll s member.aliases).1 = [] ↔
      ¬ ∃ aliasName ∈ member.aliases, ∃ c, s.Waits aliasName c := by
    rw [List.eq_nil_iff_forall_not_mem]
    simp only [PlanState.mem_takeAll founded.tidy]
    constructor
    · rintro none ⟨aliasName, taken, c, waits⟩
      exact none c ⟨aliasName, taken, waits⟩
    · rintro none c ⟨aliasName, taken, waits⟩
      exact none ⟨aliasName, taken, c, waits⟩
  -- Of the four parts only the one about loops differs: there, the variable must not be bound
  -- outside, which the first part says.
  rw [branchOf, known.detached_iff, ← allowed.required_eq]
  cases joined
  rw [distinct_eq_nil_iff, List.append_eq_nil_iff, links, waiting, ends.waits, not_or, not_or]
  apply and_congr_right
  intro free
  apply and_congr_right
  intro _
  apply and_congr_left
  intro _
  apply not_congr
  constructor
  · rintro ⟨v, subject, object, -⟩
    exact ⟨v, subject, object⟩
  · rintro ⟨v, subject, object⟩
    obtain ⟨leaf, present, rfl⟩ := ends.present
    have named : v.name ∈ leaf.2.names := by simp [TriplePattern.names, subject, NodePattern.names]
    exact ⟨v, subject, object, free v.name ((JoinTree.holds_iff _ _).mpr ⟨leaf, present, named⟩)⟩

theorem Allowed.extending (allowed : Allowed tables required base bs p)
    (known : Required tables required base) (held : p.tree = some init)
    (run : PatternRun p.state p.required pattern (some member) s bound)
    (apart : (p.aliases ++ member.aliases).Nodup) :
    Extending required (bs.map Branch.element) (branchOf pattern init member p.required s) := by
  have drawn : ∀ entry ∈ p.required, entry.2.table ∈ p.aliases := fun entry bound =>
    JoinTree.table_of_leaves (allowed.drawn known entry bound)
  obtain ⟨seed, ends⟩ := run.ends allowed.tidy drawn (fun _ _ => allowed.waiting known) apart
  refine ⟨joining_some allowed.toOutline run ends, ?_⟩
  intro other on joined
  cases joined
  refine ⟨seed, ?_, allowed.bare_iff known held run ends rfl⟩
  obtain ⟨before, others, order, earlier, fresh⟩ := ends.split
  exact ⟨before, others, order, fun u early => (allowed.occurs_iff u).mpr (earlier u early),
    fun occurs => fresh ((allowed.occurs_iff seed).mp occurs)⟩

theorem extending_optional (known : Required tables required base)
    (run : (addEach addOptional base.turn elements).outcome = .ok p) (apart : p.aliases.Nodup) :
    ∃ bs, elements = bs.map Branch.element ∧ Allowed tables required base bs p ∧
      ∀ before b after, bs = before ++ b :: after →
        Extending required (before.map Branch.element) b := by
  refine allowed_induction (fun bs _ => ∀ before b after, bs = before ++ b :: after →
    Extending required (before.map Branch.element) b) known (by simp) ?_ ?_ run apart
  · intro bs p init pattern s bound allowed earlier _ run
    exact splits_concat earlier ⟨joining_none (allowed.toOutline.ownTriples_nil run), by simp⟩
  · intro bs p init member pattern s bound allowed earlier held run apart
    exact splits_concat earlier (allowed.extending known held run apart)

end optional

end Plan

-- How the FROM clause of a query is made of its elements, and which of its joins have no ON clause.
-- The required elements `rs` come first, and each optional element of `bs` is left joined to them.
structure Composed (query : Query) (source : JoinTree) (rs bs : List Branch) : Prop where
  required : query.required = rs.map Branch.element
  optional : query.optional = bs.map Branch.element
  source : (JoinTree.assemble rs).map (·.branches bs) = some source
  adjoined : ∀ before r after, rs = before ++ r :: after →
    Plan.Adjoined (before.map Branch.element) r
  extending : ∀ before b after, bs = before ++ b :: after →
    Plan.Extending query.required (before.map Branch.element) b

theorem bare_joins_of_planned {tables : TableMap} {query : Query} {targets : List String}
    {order : Option (String × SortOrder)} {statement : Select}
    (planned : (Plan.ofQuery tables query targets order).outcome = .ok (.select statement))
    (apart : statement.source.aliases.Nodup) :
    ∃ rs bs, Composed query statement.source rs bs := by
  obtain ⟨base, full, first, later, whole, -⟩ := Plan.ofQuery_select.mp planned
  have aliases : full.aliases.Nodup := by
    rw [Plan.Progress.aliases_of_tree whole]
    exact apart
  have known := Plan.required_run first
  obtain ⟨bs, optional, allowed, extending⟩ := Plan.extending_optional known later aliases
  have earlier : base.aliases.Nodup := by
    rw [Plan.Progress.aliases, allowed.leaves, List.map_append] at aliases
    exact (List.nodup_append.mp aliases).1
  obtain ⟨rs, required, tree, adjoined⟩ := Plan.adjoined_required first earlier
  refine ⟨rs, bs, required, optional, ?_, adjoined, extending⟩
  rw [← tree, ← allowed.tree]
  exact whole

-- A crane and a silo on a wharf, and a barge that has nothing to do with them. A knot and a buoy
-- are optional, and nothing links them to the rest either.
namespace Harbour

def lifts : Iri := ⟨"urn:harbour:lifts", by decide +kernel⟩

def holds : Iri := ⟨"urn:harbour:holds", by decide +kernel⟩

def tows : Iri := ⟨"urn:harbour:tows", by decide +kernel⟩

def ties : Iri := ⟨"urn:harbour:ties", by decide +kernel⟩

def marks : Iri := ⟨"urn:harbour:marks", by decide +kernel⟩

def tables : TableMap :=
  [(lifts, "lifts"), (holds, "holds"), (tows, "tows"), (ties, "ties"), (marks, "marks")]

def crane : Variable := ⟨"crane", by decide +kernel⟩

def wharf : Variable := ⟨"wharf", by decide +kernel⟩

def silo : Variable := ⟨"silo", by decide +kernel⟩

def barge : Variable := ⟨"barge", by decide +kernel⟩

def tug : Variable := ⟨"tug", by decide +kernel⟩

def rope : Variable := ⟨"rope", by decide +kernel⟩

def knot : Variable := ⟨"knot", by decide +kernel⟩

def buoy : Variable := ⟨"buoy", by decide +kernel⟩

def lifting : TriplePattern := ⟨.variable crane, .iri lifts, .variable wharf⟩

def holding : TriplePattern := ⟨.variable wharf, .iri holds, .variable silo⟩

def towing : TriplePattern := ⟨.variable tug, .iri tows, .variable barge⟩

def tying : TriplePattern := ⟨.variable rope, .iri ties, .variable knot⟩

def marking : TriplePattern := ⟨.variable buoy, .iri marks, .variable buoy⟩

def query : Query :=
  ⟨[.pattern ((GraphPattern.empty.addTriple lifting).addTriple holding),
      .pattern (GraphPattern.empty.addTriple towing)],
    [.pattern (GraphPattern.empty.addTriple tying),
      .pattern (GraphPattern.empty.addTriple marking)]⟩

def statement : Select where
  columns := [⟨"lifts", .subject⟩, ⟨"tows", .object⟩]
  source := .join
    (.join
      (.join
        (.join (.table ⟨"lifts", "lifts"⟩ lifting) .inner (.table ⟨"holds", "holds"⟩ holding)
          [linked ⟨"lifts", .object⟩ ⟨"holds", .subject⟩])
        .inner (.table ⟨"tows", "tows"⟩ towing) [])
      .left (.table ⟨"ties", "ties"⟩ tying) [])
    .left (.table ⟨"marks", "marks"⟩ marking)
    [linked ⟨"marks", .subject⟩ ⟨"marks", .object⟩]
  conditions := []
  order := none

theorem planned :
    (Plan.ofQuery tables query ["crane", "barge"] none).outcome = .ok (.select statement) := by
  decide +kernel

theorem apart : statement.source.aliases.Nodup := by decide +kernel

end Harbour

theorem bare_joins_of_planned_harbour :
    (Plan.ofQuery Harbour.tables Harbour.query ["crane", "barge"] none).outcome =
        .ok (.select Harbour.statement) ∧
      Harbour.statement.source.aliases.Nodup ∧
      ∃ rs bs, Composed Harbour.query Harbour.statement.source rs bs :=
  ⟨Harbour.planned, Harbour.apart, bare_joins_of_planned Harbour.planned Harbour.apart⟩

end GraphSql
