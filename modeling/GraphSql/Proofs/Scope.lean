import Mathlib.Control.Monad.Basic
import GraphSql.Proofs.Planning.Required

namespace GraphSql
open Sql

-- Which tables the columns of an ON clause belong to.

namespace Sql.JoinTree

def core : JoinTree → JoinTree
  | .join init .left _ _ => init.core
  | t => t

-- Every column of an ON clause is one of its own sequence, from the members before the clause, or
-- one that `outside` allows. `lends` says which columns a sequence allows in its next member.
def Scoped (lends : JoinTree → Column → Prop) (outside : Column → Prop) : JoinTree → Prop
  | .table .. => True
  | .group first => first.Scoped lends fun _ => False
  | .join init _ last on =>
    init.Scoped lends outside ∧ last.Scoped lends (lends init) ∧
      ∀ c ∈ on, ∀ column ∈ c.columns,
        column.table ∈ init.aliases ++ last.aliases ∨ outside column

def Closed (t : JoinTree) : Prop := t.Scoped (fun _ _ => False) fun _ => False

def Primary (t : JoinTree) (column : Column) : Prop :=
  ∃ name, t.core.held.lookup name = some column

theorem core_of_isInner {t : JoinTree} (inner : t.IsInner) : t.core = t := by
  cases t with
  | table => rfl
  | group => rfl
  | join init kind last on =>
    obtain ⟨rfl, -⟩ := inner
    rfl

theorem Scoped.mono {lends : JoinTree → Column → Prop} {outside more : Column → Prop}
    {t : JoinTree} (scope : t.Scoped lends outside)
    (subset : ∀ column, outside column → more column) : t.Scoped lends more := by
  induction t with
  | table => trivial
  | group first => exact scope
  | join init kind last on ihInit ihLast =>
    obtain ⟨left, right, within⟩ := scope
    refine ⟨ihInit left, right, ?_⟩
    intro c member column used
    exact (within c member column used).imp_right (subset column)

end Sql.JoinTree

section columns

variable {held : Bindings} {leaves : List (Relation × TriplePattern)} {filters : Filter → Prop}
  {f : Filter} {c : Condition} {column : Column}

theorem columns_linked {one two : Column} :
    column ∈ (linked one two).columns ↔ column = one ∨ column = two := by
  simp [linked, Condition.equal, Condition.columns, Operand.columns]

theorem columns_fixed {one : Column} {n : Node} :
    column ∈ (fixed one n).columns ↔ column = one := by
  simp [fixed, Condition.equal, Condition.columns, Operand.columns]

theorem Reads.mem_held {node : NodePattern} {operand : Operand} (reads : Reads held node operand)
    (used : column ∈ operand.columns) : ∃ name, (name, column) ∈ held := by
  cases reads with
  | column at_ =>
    cases List.mem_singleton.mp used
    exact ⟨_, at_⟩
  | value => cases used

theorem Expresses.mem_held (expressed : Expresses held f c) (used : column ∈ c.columns) :
    ∃ name, (name, column) ∈ held := by
  rcases List.mem_append.mp used with left | right
  · exact expressed.left.mem_held left
  · exact expressed.right.mem_held right

theorem Justified.columns (justified : Justified held leaves filters c)
    (used : column ∈ c.columns) :
    (∃ name, (name, column) ∈ held) ∨ ∃ leaf ∈ leaves, column.table = leaf.1.aliasName := by
  cases justified with
  | same one two =>
    rcases columns_linked.mp used with rfl | rfl
    · exact .inl ⟨_, one⟩
    · exact .inl ⟨_, two⟩
  | constant member node =>
    cases columns_fixed.mp used
    exact .inr ⟨_, member, rfl⟩
  | filter member expressed => exact .inl (expressed.mem_held used)

end columns

namespace PlanState

variable {s : PlanState} {bindings : Bindings} {predicate : Iri} {pattern : TriplePattern}

def Alone (s : PlanState) : Prop :=
  ∀ aliasName c, s.Waits aliasName c → ∀ column ∈ c.columns, column.table = aliasName

theorem alone_own {leaf : Relation × TriplePattern} {c : Condition}
    (own : c ∈ ownConditions bindings leaf) {column : Column} (used : column ∈ c.columns) :
    column.table = leaf.1.aliasName := by
  rcases mem_ownConditions.mp own with ⟨side, n, _, rfl⟩ | ⟨side, v, bound, _, _, table, _, rfl⟩
  · cases columns_fixed.mp used
    rfl
  · rcases columns_linked.mp used with rfl | rfl
    · exact table
    · rfl

theorem Alone.settle (alone : s.Alone) : (s.settle bindings predicate pattern).Alone := by
  intro aliasName c waits column used
  rcases (waits_settle _ _ _ _ _ _).mp waits with old | ⟨rfl, own⟩
  · exact alone aliasName c old column used
  · exact alone_own own used

theorem alone_attached (leaf : Relation × TriplePattern) {filters : List Filter} (alone : s.Alone) :
    (s.await leaf.1.aliasName (attached leaf filters)).Alone := by
  intro aliasName c waits column used
  rcases (waits_await _ _ _ _ _).mp waits with old | ⟨rfl, new⟩
  · exact alone aliasName c old column used
  · obtain ⟨f, _, found⟩ := mem_attached.mp new
    obtain ⟨name, held⟩ := (expresses_seedCondition found).mem_held used
    obtain ⟨_, _, _, _, rfl⟩ := JoinTree.mem_leafVariables.mp held
    rfl

end PlanState

namespace Growth

variable {s : PlanState} {bindings : Bindings} {triples remaining : List TriplePattern}
  {filters : List Filter} {g next : Growth} {predicate : Iri} {pattern : TriplePattern}
  {lends : JoinTree → Column → Prop}

def Lent (bindings : Bindings) (column : Column) : Prop := ∃ name, (name, column) ∈ bindings

theorem Founded.columns (founded : Founded s bindings filters g) (alone : s.Alone) {c : Condition}
    (own : g.Own c) {column : Column} (used : column ∈ c.columns) :
    column.table ∈ g.tree.aliases ∨ Lent bindings column := by
  rcases founded.sound c own with ⟨aliasName, member, waits⟩ | justified
  · rw [alone aliasName c waits column used]
    exact .inl member
  · rcases justified.columns used with ⟨name, held⟩ | ⟨leaf, member, table⟩
    · rcases List.mem_append.mp held with old | new
      · exact .inr ⟨name, old⟩
      · exact .inl (JoinTree.table_of_held new)
    · exact .inl (List.mem_map.mpr ⟨leaf, member, table.symm⟩)

theorem scope_step (grown : GrownFrom s bindings triples g)
    (founded : Founded s bindings filters g) (alone : s.Alone)
    (scope : g.tree.Scoped lends (Lent bindings)) :
    (g.step predicate pattern).tree.Scoped lends (Lent bindings) := by
  refine ⟨scope, trivial, ?_⟩
  intro c member column used
  have own : (g.step predicate pattern).Own c := by
    refine .inl ?_
    rw [step_tree]
    exact List.mem_append_right _ member
  have within := (founded.step grown).columns alone own used
  rw [aliases_step] at within
  exact within

theorem Grows.scope (run : Grows g remaining next) (among : ∀ t ∈ remaining, t ∈ triples)
    (grown : GrownFrom s bindings triples g) (founded : Founded s bindings filters g)
    (alone : s.Alone) (scope : g.tree.Scoped lends (Lent bindings)) :
    next.tree.Scoped lends (Lent bindings) := by
  have kept : ∀ g predicate pattern, (GrownFrom s bindings triples g ∧
      Founded s bindings filters g ∧ g.tree.Scoped lends (Lent bindings)) → pattern ∈ triples →
      pattern.folded ∉ g.state.planned → pattern.predicate = .iri predicate →
      GrownFrom s bindings triples (g.step predicate pattern) ∧
        Founded s bindings filters (g.step predicate pattern) ∧
        (g.step predicate pattern).tree.Scoped lends (Lent bindings) := by
    intro g predicate pattern all member fresh mapped
    obtain ⟨grown, founded, scope⟩ := all
    exact ⟨grown.step member fresh mapped, founded.step grown,
      scope_step grown founded alone scope⟩
  exact (run.keeps kept among ⟨grown, founded, scope⟩).2.2

theorem Grows.alone (run : Grows g remaining next) (alone : g.state.Alone) : next.state.Alone := by
  have kept : ∀ (g : Growth) predicate pattern, g.state.Alone → pattern ∈ remaining →
      pattern.folded ∉ g.state.planned → pattern.predicate = .iri predicate →
      (g.step predicate pattern).state.Alone := by
    intro g predicate pattern alone _ _ _ aliasName c waits
    exact alone aliasName c (waits_step aliasName c |>.mp waits).2
  exact run.keeps kept (fun _ => id) alone

end Growth

theorem PatternRun.scope {s next : PlanState} {bindings bound : Bindings} {pattern : GraphPattern}
    {tree : JoinTree} {lends : JoinTree → Column → Prop}
    (run : PatternRun s bindings pattern (some tree) next bound) (tidy : s.Tidy) (alone : s.Alone) :
    tree.Scoped lends (Growth.Lent bindings) ∧ next.Alone := by
  cases run with
  | grown order known fresh mapped run left =>
    rename_i before seed others predicate g
    have among : ∀ t ∈ others, t ∈ pattern.triples := by
      intro t member
      simp [order, member]
    have grown : Growth.GrownFrom s bindings pattern.triples
        (seedGrowth s bindings pattern.filters predicate seed) :=
      Growth.grownFrom_seed (by simp [order]) fresh mapped
    have later := run.alone alone.settle
    exact ⟨run.scope among grown (Growth.founded_seed tidy) alone trivial,
      PlanState.alone_attached (s.aliases.relation predicate, seed) later⟩

namespace Plan

variable {tables : TableMap} {done : List Element} {p next : Progress} {pattern : GraphPattern}
  {bound : Bindings} {s : PlanState} {tree init : JoinTree} {column : Column}

structure Scope (p : Progress) : Prop where
  tidy : p.state.Tidy
  alone : p.state.Alone
  lent : ∀ column, Growth.Lent p.required column → ∃ tree, p.tree = some tree ∧ tree.Primary column
  scope : ∀ tree, p.tree = some tree → tree.Scoped JoinTree.Primary fun _ => False

theorem Required.lent (required : Required tables done p) (lent : Growth.Lent p.required column) :
    ∃ tree, p.tree = some tree ∧ tree.Primary column := by
  obtain ⟨name, member⟩ := lent
  rw [required.bound] at member
  have looked := lookup_of_mem_addBindings (by simp) member
  rw [lookup_addBindings, List.lookup_nil, Option.none_or] at looked
  cases tree : p.tree with
  | none => simp [Progress.held, Progress.leaves, tree] at looked
  | some t =>
    refine ⟨t, rfl, name, ?_⟩
    rw [JoinTree.core_of_isInner (required.inner t tree)]
    simpa [Progress.held, Progress.leaves, tree, JoinTree.held] using looked

theorem scope_links {init member : JoinTree} {bindings : Bindings} {c : Condition}
    (link : c ∈ init.links member bindings) (used : column ∈ c.columns) :
    column.table ∈ init.aliases ++ member.aliases := by
  obtain ⟨name, one, two, held, _, own, rfl⟩ := JoinTree.mem_links.mp link
  rcases columns_linked.mp used with rfl | rfl
  · exact List.mem_append_left _ (JoinTree.table_of_held held)
  · exact List.mem_append_right _ (JoinTree.table_of_held own)

theorem Scope.member (scope : Scope p)
    (run : PatternRun p.state p.required pattern (some tree) s bound) (held : p.tree = some init) :
    tree.Scoped JoinTree.Primary init.Primary := by
  have lends : tree.Scoped JoinTree.Primary (Growth.Lent p.required) :=
    (run.scope scope.tidy scope.alone).1
  refine lends.mono ?_
  intro column lent
  obtain ⟨_, same, primary⟩ := scope.lent column lent
  rw [held] at same
  cases same
  exact primary

theorem Scope.first (scope : Scope p)
    (run : PatternRun p.state p.required pattern (some tree) s bound) (empty : p.tree = none) :
    tree.Scoped JoinTree.Primary fun _ => False := by
  have lends : tree.Scoped JoinTree.Primary (Growth.Lent p.required) :=
    (run.scope scope.tidy scope.alone).1
  refine lends.mono ?_
  intro column lent
  obtain ⟨_, same, _⟩ := scope.lent column lent
  rw [empty] at same
  cases same

theorem Scope.required {element : Element} (scope : Scope p)
    (after : Required tables (done ++ [element]) next)
    (added : (addRequired p element).outcome = .ok next) : Scope next := by
  obtain ⟨pattern, found, s, bound, rfl, run, rfl⟩ := addRequired_exact.mp added
  refine ⟨after.tidy, ?_, fun _ => after.lent, ?_⟩
  · cases found with
    | none => cases run with | redundant => exact scope.alone
    | some tree =>
      have both : tree.Scoped JoinTree.Primary (Growth.Lent p.required) ∧ s.Alone :=
        run.scope scope.tidy scope.alone
      exact both.2
  · intro whole same
    cases found with
    | none =>
      rw [Progress.require_none] at same
      exact scope.scope whole same
    | some tree =>
      cases held : p.tree with
      | none =>
        simp only [Progress.require, held, Option.some.injEq] at same
        exact same ▸ scope.first run held
      | some init =>
        simp only [Progress.require, held, Option.some.injEq] at same
        refine same ▸ ⟨scope.scope init held, scope.member run held, ?_⟩
        intro c member column used
        exact .inl (scope_links ((mem_distinct _ _).mp member) used)

theorem Scope.optional {element : Element} (scope : Scope p)
    (added : (addOptional p element).outcome = .ok next) : Scope next := by
  obtain ⟨pattern, init, found, s, bound, rfl, held, run, rfl⟩ := addOptional_exact.mp added
  cases found with
  | none =>
    cases run with
    | redundant => exact scope
  | some tree =>
    obtain ⟨left, _, founded, _⟩ := run.founded scope.tidy
    have both : tree.Scoped JoinTree.Primary (Growth.Lent p.required) ∧ s.Alone :=
      run.scope scope.tidy scope.alone
    refine ⟨PlanState.Tidy.takeAll founded.tidy _, ?_, ?_, ?_⟩
    · intro aliasName c waits
      exact both.2 aliasName c ((PlanState.waits_takeAll _ _ _ _).mp waits).2
    · intro column lent
      obtain ⟨_, same, primary⟩ := scope.lent column lent
      rw [held] at same
      cases same
      exact ⟨_, rfl, primary⟩
    · intro whole same
      cases same
      refine ⟨scope.scope init held, scope.member run held, ?_⟩
      intro c member column used
      rcases List.mem_append.mp ((mem_distinct _ _).mp member) with link | waiting
      · exact .inl (scope_links link used)
      · obtain ⟨name, among, waits⟩ := (PlanState.mem_takeAll founded.tidy _ _).mp waiting
        rw [both.2 name c waits column used]
        exact .inl (List.mem_append_right _ among)

theorem scope_run {elements : List Element}
    (run : (addEach addRequired (.start tables) elements).outcome = .ok p) : Scope p := by
  have kept : ∀ done p element next, (Required tables done p ∧ Scope p) →
      (addRequired p element).outcome = .ok next →
      Required tables (done ++ [element]) next ∧ Scope next :=
    fun _ _ _ _ both added => ⟨both.1.step added, both.2.required (both.1.step added) added⟩
  have start : Scope (.start tables) := by
    refine ⟨.nil, ?_, ?_, ?_⟩
    · intro aliasName c waits
      obtain ⟨entry, member, _⟩ := waits
      cases member
    · intro column lent
      obtain ⟨_, member⟩ := lent
      cases member
    · intro tree same
      cases same
  exact (addEach_keeps kept ⟨required_start tables, start⟩ run).2

theorem scope_allow {elements : List Element} (scope : Scope p)
    (run : (addEach addOptional p elements).outcome = .ok next) : Scope next := by
  have kept : ∀ p element next, Scope p → (addOptional p element).outcome = .ok next →
      Scope next :=
    fun _ _ _ scope added => scope.optional added
  exact addEach_preserves kept scope run

theorem scope_planned {query : Query} {targets : List String}
    {order : Option (String × SortOrder)} {statement : Select}
    (planned : (ofQuery tables query targets order).outcome = .ok (.select statement)) :
    statement.source.Scoped JoinTree.Primary fun _ => False := by
  obtain ⟨base, full, required, optional, tree, -⟩ := ofQuery_select.mp planned
  have base : Scope base.turn := by
    have scope := scope_run required
    exact ⟨scope.tidy, scope.alone, scope.lent, scope.scope⟩
  exact (scope_allow base optional).scope _ tree

end Plan

-- Columns of an ON clause are those of its own sequence, or, in a member that is a sequence itself,
-- first columns of variables of what the member is joined to.
theorem scoped_of_planned {tables : TableMap} {query : Query} {targets : List String}
    {order : Option (String × SortOrder)} {statement : Select}
    (planned : (Plan.ofQuery tables query targets order).outcome = .ok (.select statement)) :
    statement.source.Scoped JoinTree.Primary fun _ => False := by
  exact Plan.scope_planned planned

namespace Nested

def p : Iri := ⟨"http://example.org/p", by decide +kernel⟩

def q : Iri := ⟨"http://example.org/q", by decide +kernel⟩

def r : Iri := ⟨"http://example.org/r", by decide +kernel⟩

def tables : TableMap := [(p, "t_p"), (q, "t_q"), (r, "t_r")]

def node (name : String) (valid : name ≠ "" ∧ name.toList.all Text.isNameChar = true) :
    NodePattern :=
  .variable ⟨name, valid⟩

def outer : TriplePattern := ⟨node "s" (by decide +kernel), .iri p, node "o" (by decide +kernel)⟩

def first : TriplePattern := ⟨node "y" (by decide +kernel), .iri r, node "z" (by decide +kernel)⟩

def second : TriplePattern := ⟨node "s" (by decide +kernel), .iri q, node "y" (by decide +kernel)⟩

def query : Query :=
  ⟨[.pattern (GraphPattern.empty.addTriple outer)],
    [.pattern ((GraphPattern.empty.addTriple first).addTriple second)]⟩

def statement : Select where
  columns := [⟨"t_p", .subject⟩, ⟨"t_r", .object⟩]
  source := .join (.table ⟨"t_p", "t_p"⟩ outer) .left
    (.join (.table ⟨"t_r", "t_r"⟩ first) .inner (.table ⟨"t_q", "t_q"⟩ second)
      [linked ⟨"t_p", .subject⟩ ⟨"t_q", .subject⟩, linked ⟨"t_r", .subject⟩ ⟨"t_q", .object⟩])
    [linked ⟨"t_p", .subject⟩ ⟨"t_q", .subject⟩]
  conditions := []
  order := none

theorem planned :
    (Plan.ofQuery tables query ["s", "z"] none).outcome = .ok (.select statement) := by
  decide +kernel

end Nested

theorem scoped_of_planned_nested :
    (Plan.ofQuery Nested.tables Nested.query ["s", "z"] none).outcome =
        .ok (.select Nested.statement) ∧
      Nested.statement.source.Scoped JoinTree.Primary fun _ => False :=
  ⟨Nested.planned, scoped_of_planned Nested.planned⟩

theorem not_closed_of_planned :
    ¬ ∀ (tables : TableMap) (query : Query) (targets : List String)
        (order : Option (String × SortOrder)) (statement : Select),
      (Plan.ofQuery tables query targets order).outcome = .ok (.select statement) →
        statement.source.Closed := by
  intro closed
  obtain ⟨-, ⟨-, -, within⟩, -⟩ := closed _ _ _ _ _ Nested.planned
  have link := within (linked ⟨"t_p", .subject⟩ ⟨"t_q", .subject⟩) (by simp) ⟨"t_p", .subject⟩
    (columns_linked.mpr (.inl rfl))
  simp [JoinTree.aliases, JoinTree.leaves] at link

end GraphSql
