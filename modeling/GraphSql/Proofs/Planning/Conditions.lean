import GraphSql.Proofs.Planning.Leaves

namespace GraphSql
open Sql

-- The conditions that planning a pattern brings about, in ON clauses or waiting: each of them is
-- justified by a variable, a constant or a filter, and each that these demand is there.

namespace Sql

def Operand.columns : Operand → List Column
  | .column c => [c]
  | .value _ => []

def Condition.columns (c : Condition) : List Column := c.left.columns ++ c.right.columns

def JoinTree.conditions : JoinTree → List Condition
  | .table .. => []
  | .group first => first.conditions
  | .join init _ last on => init.conditions ++ last.conditions ++ on

theorem JoinTree.mem_conditions_add (t : JoinTree) (kind : JoinKind) (member : JoinTree)
    (on : List Condition) (c : Condition) :
    c ∈ (t.add kind member on).conditions ↔
      c ∈ t.conditions ∨ c ∈ member.conditions ∨ c ∈ on := by
  simp [add, conditions]

end Sql

inductive Reads (held : Bindings) : NodePattern → Operand → Prop where
  | column (at_ : (v.name, c) ∈ held) : Reads held (.variable v) (.column c)
  | value : Reads held (.node n) (.value n.display)

structure Expresses (held : Bindings) (filter : Filter) (c : Condition) : Prop where
  operator : c.operator = filter.operator
  left : Reads held filter.left c.left
  right : Reads held filter.right c.right

def fixed (column : Column) (node : Node) : Condition :=
  .equal (.column column) (.value node.display)

def linked (one two : Column) : Condition := .equal (.column one) (.column two)

inductive Justified (held : Bindings) (leaves : List (Relation × TriplePattern))
    (filters : Filter → Prop) : Condition → Prop where
  | same (one : (name, a) ∈ held) (two : (name, b) ∈ held) :
      Justified held leaves filters (linked a b)
  | constant (member : leaf ∈ leaves) (node : JoinTree.nodeAt leaf side = .node n) :
      Justified held leaves filters (fixed (leaf.1.column side) n)
  | filter (member : filters f) (expressed : Expresses held f c) :
      Justified held leaves filters c

-- The conditions `has` say all that the tables demand: constants are fixed, and variables are
-- linked to the columns that `bound` has for them.
structure Pinned (bound : Bindings) (leaves : List (Relation × TriplePattern))
    (has : Condition → Prop) : Prop where
  constants : ∀ leaf ∈ leaves, ∀ side n, JoinTree.nodeAt leaf side = .node n →
    has (fixed (leaf.1.column side) n)
  equated : ∀ leaf ∈ leaves, ∀ side v, JoinTree.nodeAt leaf side = .variable v →
    ∃ primary, bound.lookup v.name = some primary ∧
      (primary = leaf.1.column side ∨ has (linked primary (leaf.1.column side)))

theorem Reads.mono {held more : Bindings} {node : NodePattern} {operand : Operand}
    (reads : Reads held node operand) (subset : ∀ entry ∈ held, entry ∈ more) :
    Reads more node operand := by
  cases reads with
  | column at_ => exact .column (subset _ at_)
  | value => exact .value

theorem Expresses.mono {held more : Bindings} {filter : Filter} {c : Condition}
    (expressed : Expresses held filter c) (subset : ∀ entry ∈ held, entry ∈ more) :
    Expresses more filter c :=
  ⟨expressed.operator, expressed.left.mono subset, expressed.right.mono subset⟩

theorem Justified.mono {held more : Bindings} {leaves leaves' : List (Relation × TriplePattern)}
    {filters filters' : Filter → Prop} {c : Condition} (justified : Justified held leaves filters c)
    (subset : ∀ entry ∈ held, entry ∈ more) (leavesSubset : ∀ leaf ∈ leaves, leaf ∈ leaves')
    (filtersSubset : ∀ f, filters f → filters' f) : Justified more leaves' filters' c := by
  cases justified with
  | same one two => exact .same (subset _ one) (subset _ two)
  | constant member node => exact .constant (leavesSubset _ member) node
  | filter member expressed => exact .filter (filtersSubset _ member) (expressed.mono subset)

namespace Growth

theorem equality?_some {bindings : Bindings} {column : Column} {node : NodePattern}
    {c : Condition} :
    equality? bindings column node = some c ↔
      ∃ v bound, node = .variable v ∧ bindings.lookup v.name = some bound ∧ bound ≠ column ∧
        c = linked bound column := by
  cases node with
  | node n => simp [equality?, NodePattern.asVariable]
  | «variable» v =>
    cases held : bindings.lookup v.name with
    | none => simp [equality?, NodePattern.asVariable, held]
    | some bound =>
      by_cases same : bound = column
      · simp [equality?, NodePattern.asVariable, held, same]
      · simp [equality?, NodePattern.asVariable, held, linked, eq_comm]

theorem mem_equalities {bindings : Bindings} {leaf : Relation × TriplePattern} {c : Condition} :
    c ∈ equalities bindings leaf ↔
      ∃ side v bound, JoinTree.nodeAt leaf side = .variable v ∧
        bindings.lookup v.name = some bound ∧ bound ≠ leaf.1.column side ∧
        c = linked bound (leaf.1.column side) := by
  simp only [equalities, List.mem_append, Option.mem_toList, equality?_some]
  constructor
  · intro either
    rcases either with found | found
    · exact ⟨.subject, found⟩
    · exact ⟨.object, found⟩
  · intro found
    obtain ⟨side, found⟩ := found
    cases side with
    | subject => exact .inl found
    | object => exact .inr found

end Growth

namespace PlanState

theorem ownCondition?_some {bindings : Bindings} {column : Column} {node : NodePattern}
    {c : Condition} :
    ownCondition? bindings column node = some c ↔
      (∃ n, node = .node n ∧ c = fixed column n) ∨
        ∃ v bound, node = .variable v ∧
          (Plan.addBindings bindings (nodeVariables column node)).lookup v.name = some bound ∧
          bound.table = column.table ∧ bound ≠ column ∧ c = linked bound column := by
  cases node with
  | node n => simp [ownCondition?, fixed, eq_comm]
  | «variable» v =>
    have own : (Plan.addBindings bindings (nodeVariables column (.variable v))).lookup v.name =
        (bindings.lookup v.name).or (some column) := by
      simp [lookup_addBindings, nodeVariables, NodePattern.asVariable]
    cases held : bindings.lookup v.name with
    | none =>
      simp only [ownCondition?, held, reduceCtorEq, false_and, exists_false, false_or, false_iff]
      intro found
      obtain ⟨w, bound, same, looked, _, differs, _⟩ := found
      cases same
      rw [own, held] at looked
      cases looked
      exact differs rfl
    | some bound =>
      simp only [ownCondition?, held]
      constructor
      · intro found
        split at found
        next same =>
          cases found
          exact .inr ⟨v, bound, rfl, by rw [own, held]; rfl, same.1, same.2, rfl⟩
        next => cases found
      · intro found
        rcases found with ⟨n, same, _⟩ | ⟨w, other, same, looked, table, differs, rfl⟩
        · cases same
        · cases same
          rw [own, held] at looked
          cases looked
          rw [if_pos ⟨table, differs⟩]
          rfl

theorem lookup_settled_subject (bindings : Bindings) (leaf : Relation × TriplePattern)
    {v : Variable} (node : leaf.2.subject = .variable v) :
    (Plan.addBindings bindings (nodeVariables (leaf.1.column .subject) leaf.2.subject)).lookup
        v.name = (Plan.addBindings bindings (JoinTree.leafVariables leaf)).lookup v.name := by
  simp only [lookup_addBindings, nodeVariables, JoinTree.leafVariables, node,
    NodePattern.asVariable, Option.map_some, Option.toList_some, List.lookup_append]
  simp

theorem mem_ownConditions {bindings : Bindings} {leaf : Relation × TriplePattern}
    {c : Condition} :
    c ∈ ownConditions bindings leaf ↔
      (∃ side n, JoinTree.nodeAt leaf side = .node n ∧ c = fixed (leaf.1.column side) n) ∨
        ∃ side v bound, JoinTree.nodeAt leaf side = .variable v ∧
          (Plan.addBindings bindings (JoinTree.leafVariables leaf)).lookup v.name = some bound ∧
          bound.table = leaf.1.aliasName ∧ bound ≠ leaf.1.column side ∧
          c = linked bound (leaf.1.column side) := by
  have second : Plan.addBindings
      (Plan.addBindings bindings (nodeVariables (leaf.1.column .subject) leaf.2.subject))
      (nodeVariables (leaf.1.column .object) leaf.2.object) =
        Plan.addBindings bindings (JoinTree.leafVariables leaf) :=
    (addBindings_append _ _ _).symm
  simp only [ownConditions, List.mem_append, Option.mem_toList, ownCondition?_some, second]
  constructor
  · intro either
    rcases either with (⟨n, node, rfl⟩ | ⟨v, bound, node, looked, rest⟩) |
      (⟨n, node, rfl⟩ | ⟨v, bound, node, rest⟩)
    · exact .inl ⟨.subject, n, node, rfl⟩
    · rw [lookup_settled_subject _ _ node] at looked
      exact .inr ⟨.subject, v, bound, node, looked, rest⟩
    · exact .inl ⟨.object, n, node, rfl⟩
    · exact .inr ⟨.object, v, bound, node, rest⟩
  · intro either
    rcases either with ⟨side, n, node, rfl⟩ | ⟨side, v, bound, node, looked, rest⟩
    · cases side with
      | subject => exact .inl (.inl ⟨n, node, rfl⟩)
      | object => exact .inr (.inl ⟨n, node, rfl⟩)
    · cases side with
      | subject =>
        rw [← lookup_settled_subject _ _ node] at looked
        exact .inl (.inr ⟨v, bound, node, looked, rest⟩)
      | object => exact .inr (.inr ⟨v, bound, node, looked, rest⟩)

theorem waits_settle (s : PlanState) (bindings : Bindings) (predicate : Iri)
    (pattern : TriplePattern) (aliasName : String) (c : Condition) :
    (s.settle bindings predicate pattern).Waits aliasName c ↔
      s.Waits aliasName c ∨ aliasName = (s.aliases.relation predicate).aliasName ∧
        c ∈ ownConditions bindings (s.aliases.relation predicate, pattern) := by
  rw [settle, waits_await]
  rfl

theorem Tidy.settle {s : PlanState} (tidy : s.Tidy) (bindings : Bindings) (predicate : Iri)
    (pattern : TriplePattern) : (s.settle bindings predicate pattern).Tidy :=
  Tidy.await _ _ tidy

end PlanState

namespace Growth

variable {g next : Growth} {predicate : Iri} {pattern : TriplePattern}
  {remaining : List TriplePattern}

def nextAlias (g : Growth) (predicate : Iri) : String :=
  (g.state.aliases.relation predicate).aliasName

def nextLeaf (g : Growth) (predicate : Iri) (pattern : TriplePattern) : Relation × TriplePattern :=
  (g.state.aliases.relation predicate, pattern)

theorem tidy_step (tidy : g.state.Tidy) : (g.step predicate pattern).state.Tidy :=
  (PlanState.Tidy.release _ _ (tidy.settle _ _ _)).takePending _

-- Joining a triple leaves nothing under its alias and does not touch the others.
theorem waits_step (aliasName : String) (c : Condition) :
    (g.step predicate pattern).state.Waits aliasName c ↔
      aliasName ≠ g.nextAlias predicate ∧ g.state.Waits aliasName c := by
  simp only [step, joined, PlanState.waits_takePending]
  constructor
  · intro waits
    obtain ⟨differs, waits⟩ := waits
    refine ⟨differs, ?_⟩
    rcases (PlanState.waits_settle _ _ _ _ _ _).mp (PlanState.waits_of_release waits) with old | own
    · exact old
    · exact absurd own.1 differs
  · intro waits
    obtain ⟨differs, waits⟩ := waits
    refine ⟨differs, PlanState.waits_release ?_ fun same => absurd same differs⟩
    exact (PlanState.waits_settle _ _ _ _ _ _).mpr (.inl waits)

def onClause (g : Growth) (predicate : Iri) (pattern : TriplePattern) : List Condition :=
  let settled := g.settled predicate pattern
  let leaf := g.nextLeaf predicate pattern
  distinct (appendAllNew
    (appendAllNew (distinct (equalities settled.bindings leaf))
      (placed settled.bindings (settled.ready leaf)))
    ((settled.state.release leaf.1.aliasName (equalities settled.bindings leaf)).pendingFor
      leaf.1.aliasName))

theorem step_tree : (g.step predicate pattern).tree =
    .join g.tree .inner (.table (g.nextLeaf predicate pattern).1 pattern)
      (g.onClause predicate pattern) := rfl

theorem mem_onClause (tidy : g.state.Tidy) (c : Condition) :
    c ∈ g.onClause predicate pattern ↔
      c ∈ PlanState.ownConditions g.bindings (g.nextLeaf predicate pattern) ∨
        c ∈ equalities (g.settled predicate pattern).bindings (g.nextLeaf predicate pattern) ∨
        c ∈ placed (g.settled predicate pattern).bindings
          ((g.settled predicate pattern).ready (g.nextLeaf predicate pattern)) ∨
        g.state.Waits (g.nextAlias predicate) c := by
  have released : ((g.settled predicate pattern).state.release (g.nextAlias predicate)
      (equalities (g.settled predicate pattern).bindings (g.nextLeaf predicate pattern))).Tidy :=
    PlanState.Tidy.release _ _ (tidy.settle _ _ _)
  have waiting := PlanState.mem_pendingFor released (g.nextAlias predicate) c
  simp only [onClause, mem_appendAllNew, mem_distinct]
  constructor
  · intro present
    rcases present with (equal | ready) | waits
    · exact .inr (.inl equal)
    · exact .inr (.inr (.inl ready))
    · rcases (PlanState.waits_settle _ _ _ _ _ _).mp (PlanState.waits_of_release (waiting.mp waits))
        with before | ⟨_, own⟩
      · exact .inr (.inr (.inr before))
      · exact .inl own
  · intro present
    by_cases equal : c ∈ equalities (g.settled predicate pattern).bindings
        (g.nextLeaf predicate pattern)
    · exact .inl (.inl equal)
    · have kept : (g.settled predicate pattern).state.Waits (g.nextAlias predicate) c →
          c ∈ PlanState.pendingFor _ _ := fun waits =>
        waiting.mpr (PlanState.waits_release waits fun _ => equal)
      rcases present with own | equal' | ready | waits
      · exact .inr (kept ((PlanState.waits_settle _ _ _ _ _ _).mpr (.inr ⟨rfl, own⟩)))
      · exact absurd equal' equal
      · exact .inl (.inr ready)
      · exact .inr (kept ((PlanState.waits_settle _ _ _ _ _ _).mpr (.inl waits)))

def Own (g : Growth) (c : Condition) : Prop :=
  c ∈ g.tree.conditions ∨ ∃ aliasName ∈ g.tree.aliases, g.state.Waits aliasName c

theorem own_step (tidy : g.state.Tidy) (c : Condition) :
    (g.step predicate pattern).Own c ↔
      g.Own c ∨
        c ∈ PlanState.ownConditions g.bindings (g.nextLeaf predicate pattern) ∨
        c ∈ equalities (g.settled predicate pattern).bindings (g.nextLeaf predicate pattern) ∨
        c ∈ placed (g.settled predicate pattern).bindings
          ((g.settled predicate pattern).ready (g.nextLeaf predicate pattern)) ∨
        g.state.Waits (g.nextAlias predicate) c := by
  have names : (g.step predicate pattern).tree.aliases =
      g.tree.aliases ++ [g.nextAlias predicate] := by
    simp [JoinTree.aliases, nextAlias]
  simp only [Own, step_tree, JoinTree.conditions, List.append_nil, List.mem_append,
    mem_onClause tidy, waits_step]
  rw [← step_tree, names]
  constructor
  · intro own
    rcases own with (old | rest) | ⟨name, member, differs, waits⟩
    · exact .inl (.inl old)
    · exact .inr rest
    · rcases List.mem_append.mp member with old | new
      · exact .inl (.inr ⟨name, old, waits⟩)
      · exact absurd (List.mem_singleton.mp new) differs
  · intro own
    rcases own with (old | ⟨name, member, waits⟩) | rest
    · exact .inl (.inl old)
    · by_cases same : name = g.nextAlias predicate
      · subst same
        exact .inl (.inr (.inr (.inr (.inr waits))))
      · exact .inr ⟨name, List.mem_append_left _ member, same, waits⟩
    · exact .inl (.inr rest)

section justified

variable {bindings held : Bindings} {leaf : Relation × TriplePattern}
  {leaves : List (Relation × TriplePattern)} {filters : Filter → Prop} {c : Condition}

theorem justified_own (member : leaf ∈ leaves)
    (own : ∀ entry ∈ JoinTree.leafVariables leaf, entry ∈ held)
    (bound : ∀ name column, (Plan.addBindings bindings (JoinTree.leafVariables leaf)).lookup name =
      some column → (name, column) ∈ held)
    (present : c ∈ PlanState.ownConditions bindings leaf) : Justified held leaves filters c := by
  rcases PlanState.mem_ownConditions.mp present with
    ⟨side, n, node, rfl⟩ | ⟨side, v, other, node, looked, _, _, rfl⟩
  · exact .constant member node
  · exact .same (bound _ _ looked)
      (own _ (JoinTree.mem_leafVariables.mpr ⟨side, v, node, rfl, rfl⟩))

theorem justified_equal (own : ∀ entry ∈ JoinTree.leafVariables leaf, entry ∈ held)
    (bound : ∀ name column, bindings.lookup name = some column → (name, column) ∈ held)
    (present : c ∈ equalities bindings leaf) : Justified held leaves filters c := by
  obtain ⟨side, v, other, node, looked, _, rfl⟩ := mem_equalities.mp present
  exact .same (bound _ _ looked) (own _ (JoinTree.mem_leafVariables.mpr ⟨side, v, node, rfl, rfl⟩))

theorem reads_operand (bound : ∀ name column, bindings.lookup name = some column →
      (name, column) ∈ held) {node : NodePattern} {found : Operand}
    (read : operand bindings node = .ok found) : Reads held node found := by
  cases node with
  | node n =>
    cases read
    exact .value
  | «variable» v =>
    cases looked : bindings.lookup v.name with
    | none => simp [operand, looked] at read
    | some column =>
      simp only [operand, looked, Except.ok.injEq] at read
      subst read
      exact .column (bound _ _ looked)

theorem expresses_condition {filter : Filter} (bound : ∀ name column,
      bindings.lookup name = some column → (name, column) ∈ held)
    (found : condition bindings filter = .ok c) : Expresses held filter c := by
  unfold condition at found
  cases left : operand bindings filter.left with
  | error e =>
    rw [left] at found
    cases found
  | ok one =>
    cases right : operand bindings filter.right with
    | error e =>
      rw [left, right] at found
      cases found
    | ok two =>
      simp only [left, right, ok_bind] at found
      cases found
      exact ⟨filter.trimmed, reads_operand bound left, reads_operand bound right⟩

theorem mem_placed {filters : List Filter} :
    c ∈ placed bindings filters ↔ ∃ f ∈ filters, condition bindings f = .ok c := by
  have some : ∀ f, (condition bindings f).toOption = some c ↔ condition bindings f = .ok c := by
    intro f
    cases condition bindings f <;> simp [Except.toOption]
  simp only [placed, List.mem_filterMap, some]

end justified

end Growth

end GraphSql
