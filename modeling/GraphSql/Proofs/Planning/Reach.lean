import GraphSql.Proofs.Planning.Elements

namespace GraphSql
open Sql

-- Which filters find a place. A filter on one variable does so if and only if the variable is in a
-- triple that the filter's pattern is the first to have.

namespace Growth

variable {s : PlanState} {bindings : Bindings} {triples remaining : List TriplePattern}
  {filters : List Filter} {g next : Growth} {predicate : Iri} {pattern seed : TriplePattern}
  {f : Filter} {v : Variable}

theorem GrownFrom.lookup_isSome (grown : GrownFrom s bindings triples g) {name : String}
    (holds : g.tree.Holds name) : (g.bindings.lookup name).isSome := by
  rw [grown.bound, lookup_addBindings, Option.isSome_or, Bool.or_eq_true]
  exact .inr ((lookup_isSome_iff _ _).mpr holds)

theorem isReady_iff {joined : Bindings} :
    isReady bindings joined f = true ↔
      (∀ v ∈ f.vars, (bindings.lookup v.name).isSome) ∧
        ∃ v ∈ f.vars, ∃ column, (v.name, column) ∈ joined := by
  simp only [isReady, Bool.and_eq_true, List.all_eq_true, List.any_eq_true, beq_iff_eq, Prod.exists]
  apply and_congr_right
  intro _
  constructor
  · intro ready
    obtain ⟨v, used, name, column, held, rfl⟩ := ready
    exact ⟨v, used, column, held⟩
  · intro ready
    obtain ⟨v, used, column, held⟩ := ready
    exact ⟨v, used, v.name, column, held, rfl⟩

theorem step_filters (g : Growth) (predicate : Iri) (pattern : TriplePattern) :
    (g.step predicate pattern).filters = g.filters.filter
      (!isReady (g.step predicate pattern).bindings (g.step predicate pattern).tree.held ·) := by
  have joined : ∀ entry, entry ∈ (g.settled predicate pattern).joinedVariables
      (g.nextLeaf predicate pattern) ↔ entry ∈ (g.step predicate pattern).tree.held := by
    intro entry
    simp [joinedVariables, settled, nextLeaf, JoinTree.mem_heldVariables, JoinTree.held,
      JoinTree.leaves]
  apply List.filter_congr
  intro f _
  congr 1
  rw [Bool.eq_iff_iff, isReady_iff, isReady_iff]
  simp only [← joined]
  rfl

theorem isReady_step (predicate : Iri) (pattern : TriplePattern)
    (ready : isReady g.bindings g.tree.held f = true) :
    isReady (g.step predicate pattern).bindings (g.step predicate pattern).tree.held f = true := by
  rw [isReady_iff] at ready ⊢
  obtain ⟨bound, v, used, column, held⟩ := ready
  constructor
  · intro v used
    rw [step_bindings, lookup_addBindings, Option.isSome_or, bound v used, Bool.true_or]
  · exact ⟨v, used, column, step_held .. ▸ List.mem_append_left _ held⟩

theorem Grows.filters_left
    (run : Grows (seedGrowth s bindings filters predicate seed) remaining next) :
    next.filters =
      if next.tree.isLong then filters.filter (!isReady next.bindings next.tree.held ·)
      else filters := by
  have kept : ∀ (g : Growth) (predicate : Iri) (pattern : TriplePattern),
      g.filters = (if g.tree.isLong then filters.filter (!isReady g.bindings g.tree.held ·)
        else filters) →
      (g.step predicate pattern).filters = filters.filter
        (!isReady (g.step predicate pattern).bindings (g.step predicate pattern).tree.held ·) := by
    intro g predicate pattern left
    rw [step_filters, left]
    split
    next =>
      rw [List.filter_filter]
      apply List.filter_congr
      intro f _
      cases ready : isReady g.bindings g.tree.held f with
      | false => simp
      | true => rw [isReady_step predicate pattern ready, Bool.not_true, Bool.false_and]
    next => rfl
  exact run.keeps (fun g predicate pattern left _ _ _ => kept g predicate pattern left)
    (fun _ member => member) rfl

structure Sifted (filters : List Filter) (g : Growth) : Prop where
  among : ∀ f ∈ g.filters, f ∈ filters
  left : ∀ f ∈ filters, ∀ v, f.vars = [v] →
    (f ∈ g.filters ↔ (g.tree.isLong = true → ¬ g.tree.Holds v.name))

theorem Grows.sifted (run : Grows (seedGrowth s bindings filters predicate seed) remaining g)
    (grown : GrownFrom s bindings triples g) : Sifted filters g := by
  have left := run.filters_left
  refine ⟨?_, ?_⟩
  · intro f member
    rw [left] at member
    split at member
    next => exact (List.mem_filter.mp member).1
    next => exact member
  · intro f member v single
    have ready : isReady g.bindings g.tree.held f = true ↔ g.tree.Holds v.name := by
      rw [isReady_iff, single]
      simp only [List.mem_singleton, forall_eq, exists_eq_left]
      exact ⟨And.right, fun holds => ⟨grown.lookup_isSome holds, holds⟩⟩
    rw [← ready, left]
    split
    next long => simp [long, member]
    next short => simp [short, member]

end Growth

theorem seedColumn_exact {leaf : Relation × TriplePattern} {v : Variable} :
    (∃ column, seedColumn leaf.2 leaf.1 v = .ok column) ↔ v.name ∈ leaf.2.names := by
  have named : ∀ node : NodePattern, v.name ∈ node.names ↔ node.asVariable = some v := by
    intro node
    cases node with
    | node n => simp [NodePattern.names, NodePattern.asVariable]
    | «variable» w =>
      obtain ⟨name, _⟩ := w
      obtain ⟨other, _⟩ := v
      simp [NodePattern.names, NodePattern.asVariable, eq_comm]
  rw [TriplePattern.names, List.mem_append, named, named, seedColumn]
  split
  next subject => simp [subject]
  next other =>
    split
    next object => simp [object]
    next none => simp [other, none]

theorem seedCondition_exact {leaf : Relation × TriplePattern} {f : Filter} {v : Variable}
    (single : f.vars = [v]) :
    (∃ found, seedCondition leaf f = .ok found) ↔ v.name ∈ leaf.2.names := by
  rw [← seedColumn_exact, seedCondition]
  rw [Filter.vars] at single
  cases sides : f.sides with
  | variablePair one two => simp [sides, FilterSides.names] at single
  | variableNode w n | nodeVariable n w =>
    rw [sides] at single
    cases single
    cases found : seedColumn leaf.2 leaf.1 v <;> simp [found, Except.map]

-- Nothing is left of filters on one variable, or it can be attached, if and only if the tables of
-- the pattern hold their variables.
theorem Growth.Sifted.placed_iff {g : Growth} {filters : List Filter}
    {leaf : Relation × TriplePattern} (sifted : Sifted filters g) (present : leaf ∈ g.tree.leaves)
    (long : g.tree.isLong = true ↔ 2 ≤ g.tree.leaves.length)
    (single : ∀ f ∈ filters, f.vars.length = 1) :
    (g.filters = [] ∨ g.tree.isLong = false ∧ Attachable leaf g.filters) ↔
      ∀ f ∈ filters, ∀ v ∈ f.vars, g.tree.Holds v.name := by
  have only : ∀ f ∈ filters, ∃ v, f.vars = [v] := fun f member =>
    List.length_eq_one_iff.mp (single f member)
  constructor
  · intro placed f member v used
    obtain ⟨w, vars⟩ := only f member
    rw [vars, List.mem_singleton] at used
    subst used
    apply Classical.byContradiction
    intro absent
    have left := (sifted.left f member v vars).mpr fun _ => absent
    rcases placed with none | ⟨_, attachable⟩
    · simp [none] at left
    · have named := (seedCondition_exact vars).mp (attachable f left)
      exact absent ((JoinTree.holds_iff _ _).mpr ⟨leaf, present, named⟩)
  · intro reached
    -- A longer tree has taken all its filters; those of a single table are attached to it.
    cases length : g.tree.isLong with
    | true =>
      refine .inl (List.eq_nil_iff_forall_not_mem.mpr ?_)
      intro f left
      have member := sifted.among f left
      obtain ⟨v, vars⟩ := only f member
      exact (sifted.left f member v vars).mp left length (reached f member v (by simp [vars]))
    | false =>
      refine .inr ⟨rfl, ?_⟩
      intro f left
      have member := sifted.among f left
      obtain ⟨v, vars⟩ := only f member
      obtain ⟨other, among, named⟩ :=
        (JoinTree.holds_iff _ _).mp (reached f member v (by simp [vars]))
      have lone : g.tree.leaves.length = 1 := by
        have some : 1 ≤ g.tree.leaves.length := List.length_pos_iff.mpr g.tree.leaves_ne_nil
        rw [← Bool.not_eq_true, long] at length
        omega
      have same : other = leaf := by
        obtain ⟨one, all⟩ := List.length_eq_one_iff.mp lone
        rw [all, List.mem_singleton] at among present
        exact among.trans present.symm
      exact (seedCondition_exact vars).mpr (same ▸ named)

theorem Growth.Grows.placed_iff {s : PlanState} {bindings : Bindings} {pattern : GraphPattern}
    {before others : List TriplePattern} {seed : TriplePattern} {predicate : Iri} {g : Growth}
    (run : Grows (seedGrowth s bindings pattern.filters predicate seed) others g)
    (order : pattern.triples = before ++ seed :: others) (fresh : seed.folded ∉ s.planned)
    (mapped : seed.predicate = .iri predicate)
    (single : ∀ f ∈ pattern.filters, f.vars.length = 1) :
    (g.filters = [] ∨
      g.tree.isLong = false ∧ Attachable (s.aliases.relation predicate, seed) g.filters) ↔
      ∀ f ∈ pattern.filters, ∀ v ∈ f.vars, g.tree.Holds v.name := by
  have among : ∀ t ∈ others, t ∈ pattern.triples := by
    intro t later
    simp [order, later]
  have grown := run.grownFrom among (grownFrom_seed (by simp [order]) fresh mapped)
  exact (run.sifted grown).placed_iff run.seed_mem grown.long single

theorem PatternRun.holds {s next : PlanState} {bindings bound : Bindings} {pattern : GraphPattern}
    {tree : JoinTree} (run : PatternRun s bindings pattern (some tree) next bound)
    (single : ∀ f ∈ pattern.filters, f.vars.length = 1) :
    ∀ f ∈ pattern.filters, ∀ v ∈ f.vars, tree.Holds v.name := by
  cases run with
  | grown order known fresh mapped run left =>
    exact (run.placed_iff order fresh mapped single).mp left

theorem TriplePattern.names_folded (t : TriplePattern) : t.folded.names = t.names := by
  have each : ∀ node : NodePattern, node.folded.names = node.names := by
    intro node
    cases node <;> rfl
  simp only [names, folded, each]

theorem TriplePattern.names_same {t u : TriplePattern} (same : t.folded = u.folded) :
    t.names = u.names := by
  rw [← t.names_folded, same, u.names_folded]

def Reaches (before : List Element) (pattern : GraphPattern) : Prop :=
  ownTriples before pattern ≠ [] → ∀ f ∈ pattern.filters, ∀ v ∈ f.vars,
    ∃ t ∈ ownTriples before pattern, v.name ∈ t.names

def FiltersReachable (elements : List Element) : Prop :=
  ∀ before pattern after, elements = before ++ .pattern pattern :: after → Reaches before pattern

def FiltersSingle (elements : List Element) : Prop :=
  ∀ e ∈ elements, ∀ f ∈ e.filters, f.vars.length = 1

namespace Plan

variable {tables : TableMap} {done elements : List Element} {p next : Progress}
  {pattern : GraphPattern} {bindings bound : Bindings} {s : PlanState} {tree : JoinTree}
  {found : Option JoinTree}

theorem Outline.holds_iff (outline : Outline tables done p)
    (run : PatternRun p.state bindings pattern (some tree) s bound) (name : String) :
    tree.Holds name ↔ ∃ t ∈ ownTriples done pattern, name ∈ t.names := by
  have own := outline.own_leaves run
  rw [JoinTree.holds_iff]
  constructor
  · intro held
    obtain ⟨leaf, present, named⟩ := held
    exact ⟨leaf.2.folded, own.mem_iff.mp (List.mem_map.mpr ⟨leaf, present, rfl⟩),
      leaf.2.names_folded ▸ named⟩
  · intro held
    obtain ⟨t, member, named⟩ := held
    obtain ⟨leaf, present, rfl⟩ := List.mem_map.mp (own.mem_iff.mpr member)
    exact ⟨leaf, present, leaf.2.names_folded ▸ named⟩

theorem Outline.reaches (outline : Outline tables done p)
    (run : PatternRun p.state bindings pattern found s bound)
    (single : ∀ f ∈ pattern.filters, f.vars.length = 1) : Reaches done pattern := by
  intro own f member v used
  cases found with
  | none => exact absurd (outline.ownTriples_nil run) own
  | some tree => exact (outline.holds_iff run v.name).mp (run.holds single f member v used)

structure Reached (tables : TableMap) (done : List Element) (p : Progress) : Prop
    extends Outline tables done p where
  reachable : FiltersSingle done → FiltersReachable done

theorem Reached.concat (reached : Reached tables done p)
    (run : PatternRun p.state bindings pattern found s bound)
    (outline : Outline tables (done ++ [.pattern pattern]) next) :
    Reached tables (done ++ [.pattern pattern]) next := by
  refine ⟨outline, ?_⟩
  intro single before other after split
  rcases split_concat split with ⟨rfl, same, -⟩ | ⟨rest, split, -⟩
  · cases same
    exact reached.toOutline.reaches run (single (.pattern pattern) (by simp))
  · have earlier : FiltersSingle done := fun e member => single e (List.mem_append_left _ member)
    exact reached.reachable earlier before other rest split

theorem reached_required
    (run : (addEach addRequired (.start tables) elements).outcome = .ok p) :
    Reached tables elements p := by
  have kept : ∀ done p element next, Reached tables done p →
      (addRequired p element).outcome = .ok next → Reached tables (done ++ [element]) next := by
    intro done p element next reached added
    obtain ⟨pattern, found, s, bound, rfl, run, rfl⟩ := addRequired_exact.mp added
    exact reached.concat run (reached.toOutline.require run)
  have start : Reached tables [] (.start tables) :=
    ⟨outline_start tables, by simp [FiltersReachable]⟩
  exact addEach_keeps kept start run

theorem reached_optional (reached : Reached tables done p)
    (run : (addEach addOptional p.turn elements).outcome = .ok next) :
    Reached tables (done ++ elements) next := by
  have kept : ∀ done p element next, Reached tables done p →
      (addOptional p element).outcome = .ok next → Reached tables (done ++ [element]) next := by
    intro done p element next reached added
    obtain ⟨pattern, init, found, s, bound, rfl, held, run, rfl⟩ := addOptional_exact.mp added
    exact reached.concat run (reached.toOutline.allow held run)
  have start : Reached tables done p.turn := ⟨reached.toOutline.turn, reached.reachable⟩
  exact addEach_keeps kept start run

end Plan

end GraphSql
