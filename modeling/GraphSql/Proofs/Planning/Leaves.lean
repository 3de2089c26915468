import GraphSql.Proofs.Planning.Run
import GraphSql.Proofs.Planning.Waiting

namespace GraphSql
open Sql

-- What planning knows is what the tables of its tree say: a variable is bound to the first column
-- that holds it, and the planned triples are those of the tables.

theorem lookup_addBindings (bindings more : Bindings) (name : String) :
    (Plan.addBindings bindings more).lookup name =
      (bindings.lookup name).or (more.lookup name) := by
  unfold Plan.addBindings
  induction more generalizing bindings with
  | nil => simp
  | cons entry rest ih =>
    obtain ⟨key, column⟩ := entry
    rw [List.foldl_cons, ih, lookup_first]
    cases held : bindings.lookup key with
    | some other =>
      by_cases same : name = key
      · simp [same, held]
      · simp [same]
    | none =>
      by_cases same : name = key
      · simp [same, held, List.lookup_append]
      · simp [same, List.lookup_append, lookup_first]

theorem mem_of_lookup {bindings : Bindings} {name : String} {column : Column}
    (found : bindings.lookup name = some column) : (name, column) ∈ bindings := by
  obtain ⟨before, after, rfl, -⟩ := List.lookup_eq_some_iff.mp found
  simp

theorem mem_addBindings {bindings more : Bindings} {entry : String × Column}
    (member : entry ∈ Plan.addBindings bindings more) : entry ∈ bindings ∨ entry ∈ more := by
  unfold Plan.addBindings at member
  induction more generalizing bindings with
  | nil => exact .inl member
  | cons new rest ih =>
    rcases ih member with old | later
    · simp only at old
      split at old
      next => exact .inl old
      next =>
        rcases List.mem_append.mp old with old | single
        · exact .inl old
        · exact .inr (List.mem_cons.mpr (.inl (List.mem_singleton.mp single)))
    · exact .inr (List.mem_cons_of_mem _ later)

theorem lookup_of_mem_addBindings {bindings more : Bindings}
    (keyed : ∀ name column, (name, column) ∈ bindings → bindings.lookup name = some column)
    {name : String} {column : Column} (member : (name, column) ∈ Plan.addBindings bindings more) :
    (Plan.addBindings bindings more).lookup name = some column := by
  unfold Plan.addBindings at member ⊢
  induction more generalizing bindings with
  | nil => exact keyed name column member
  | cons entry rest ih =>
    refine ih ?_ member
    intro name column member
    simp only at member ⊢
    split at member
    next known =>
      rw [if_pos known]
      exact keyed name column member
    next fresh =>
      rw [if_neg fresh, List.lookup_append]
      rcases List.mem_append.mp member with old | single
      · rw [keyed name column old, Option.some_or]
      · cases List.mem_singleton.mp single
        simp [Option.not_isSome_iff_eq_none.mp fresh]

theorem lookup_isSome_iff (bindings : Bindings) (name : String) :
    (bindings.lookup name).isSome ↔ ∃ column, (name, column) ∈ bindings := by
  simp [List.lookup_isSome_iff]

def TableMap.relationName (tables : TableMap) (predicate : Iri) : String :=
  (tables.table? predicate).getD emptyRelation

theorem Aliases.relation_name (a : Aliases) (predicate : Iri) :
    (a.relation predicate).name = a.tables.relationName predicate := by
  unfold relation TableMap.relationName
  cases a.tables.table? predicate <;> rfl

def NodePattern.names : NodePattern → List String
  | .variable v => [v.name]
  | .node _ => []

def TriplePattern.names (t : TriplePattern) : List String := t.subject.names ++ t.object.names

namespace Sql.JoinTree

def held (t : JoinTree) : Bindings := t.leaves.flatMap leafVariables

theorem mem_heldVariables (t : JoinTree) (entry : String × Column) :
    entry ∈ t.heldVariables ↔ entry ∈ t.held := by
  simp [heldVariables, held]

def nodeAt (leaf : Relation × TriplePattern) : Side → NodePattern
  | .subject => leaf.2.subject
  | .object => leaf.2.object

theorem mem_leafVariables {leaf : Relation × TriplePattern} {name : String} {column : Column} :
    (name, column) ∈ leafVariables leaf ↔
      ∃ side v, nodeAt leaf side = .variable v ∧ v.name = name ∧ column = leaf.1.column side := by
  have sides : ∀ holds : Side → Prop, (∃ side, holds side) ↔ holds .subject ∨ holds .object := by
    intro holds
    constructor
    · rintro ⟨side, held⟩
      cases side
      · exact .inl held
      · exact .inr held
    · rintro (held | held)
      · exact ⟨_, held⟩
      · exact ⟨_, held⟩
  rw [sides]
  unfold leafVariables nodeAt
  cases leaf.2.subject <;> cases leaf.2.object <;> simp [NodePattern.asVariable, eq_comm]

theorem mem_names_iff {leaf : Relation × TriplePattern} {name : String} :
    name ∈ leaf.2.names ↔ ∃ column, (name, column) ∈ leafVariables leaf := by
  have each : ∀ node : NodePattern,
      name ∈ node.names ↔ ∃ v, node = .variable v ∧ v.name = name := by
    intro node
    cases node <;> simp [NodePattern.names, eq_comm]
  simp only [TriplePattern.names, List.mem_append, each, mem_leafVariables]
  constructor
  · intro either
    rcases either with ⟨v, node, same⟩ | ⟨v, node, same⟩
    · exact ⟨_, .subject, v, node, same, rfl⟩
    · exact ⟨_, .object, v, node, same, rfl⟩
  · intro held
    obtain ⟨_, side, v, node, same, rfl⟩ := held
    cases side with
    | subject => exact .inl ⟨v, node, same⟩
    | object => exact .inr ⟨v, node, same⟩

theorem table_of_leaves {leaves : List (Relation × TriplePattern)} {name : String} {column : Column}
    (held : (name, column) ∈ leaves.flatMap leafVariables) :
    column.table ∈ leaves.map (·.1.aliasName) := by
  obtain ⟨leaf, member, held⟩ := List.mem_flatMap.mp held
  refine List.mem_map.mpr ⟨leaf, member, ?_⟩
  obtain ⟨_, _, _, _, rfl⟩ := mem_leafVariables.mp held
  rfl

theorem table_of_held {t : JoinTree} {name : String} {column : Column}
    (held : (name, column) ∈ t.held) : column.table ∈ t.aliases :=
  table_of_leaves held

theorem exists_held_iff {leaves : List (Relation × TriplePattern)} {name : String} :
    (∃ column, (name, column) ∈ leaves.flatMap leafVariables) ↔
      ∃ leaf ∈ leaves, name ∈ leaf.2.names := by
  simp only [mem_names_iff]
  constructor
  · intro holds
    obtain ⟨column, held⟩ := holds
    obtain ⟨leaf, present, held⟩ := List.mem_flatMap.mp held
    exact ⟨leaf, present, column, held⟩
  · intro named
    obtain ⟨leaf, present, column, held⟩ := named
    exact ⟨column, List.mem_flatMap.mpr ⟨leaf, present, held⟩⟩

def Holds (t : JoinTree) (name : String) : Prop := ∃ column, (name, column) ∈ t.held

theorem holds_iff (t : JoinTree) (name : String) :
    t.Holds name ↔ ∃ leaf ∈ t.leaves, name ∈ leaf.2.names := exists_held_iff

def IsInner : JoinTree → Prop
  | .table .. => True
  | .group first => first.IsInner
  | .join init kind last _ => kind = .inner ∧ init.IsInner ∧ last.IsInner

@[simp] theorem leaves_add (t : JoinTree) (kind : JoinKind) (member : JoinTree)
    (on : List Condition) : (t.add kind member on).leaves = t.leaves ++ member.leaves := rfl

theorem leaves_ne_nil (t : JoinTree) : t.leaves ≠ [] := by
  induction t with
  | table => simp [leaves]
  | group first ih => exact ih
  | join init kind last on ihInit ihLast => simp [leaves, ihInit]

end Sql.JoinTree

namespace Growth

@[simp] theorem step_leaves (g : Growth) (predicate : Iri) (pattern : TriplePattern) :
    (g.step predicate pattern).tree.leaves =
      g.tree.leaves ++ [(g.state.aliases.relation predicate, pattern)] := rfl

@[simp] theorem step_held (g : Growth) (predicate : Iri) (pattern : TriplePattern) :
    (g.step predicate pattern).tree.held = g.tree.held ++
      JoinTree.leafVariables (g.state.aliases.relation predicate, pattern) := by
  simp [JoinTree.held]

@[simp] theorem step_planned (g : Growth) (predicate : Iri) (pattern : TriplePattern) :
    (g.step predicate pattern).state.planned = g.state.planned ++ [pattern.folded] := by
  simp [step, settled, joined, PlanState.takePending, PlanState.settle]

@[simp] theorem step_part (g : Growth) (predicate : Iri) (pattern : TriplePattern) :
    (g.step predicate pattern).state.part = g.state.part := by
  simp [step, settled, joined, PlanState.takePending, PlanState.settle]

@[simp] theorem step_aliases (g : Growth) (predicate : Iri) (pattern : TriplePattern) :
    (g.step predicate pattern).state.aliases =
      { g.state.aliases with issued := g.state.aliases.issued ++ [predicate] } := by
  simp [step, settled, joined, PlanState.takePending, PlanState.settle]

@[simp] theorem step_bindings (g : Growth) (predicate : Iri) (pattern : TriplePattern) :
    (g.step predicate pattern).bindings = Plan.addBindings g.bindings
      (JoinTree.leafVariables (g.state.aliases.relation predicate, pattern)) := rfl

def Named (tables : TableMap) (leaf : Relation × TriplePattern) : Prop :=
  ∃ predicate, leaf.2.predicate = .iri predicate ∧ leaf.1.name = tables.relationName predicate

structure GrownFrom (s : PlanState) (bindings : Bindings) (triples : List TriplePattern)
    (g : Growth) : Prop where
  bound : g.bindings = Plan.addBindings bindings g.tree.held
  planned : g.state.planned = s.planned ++ g.tree.leaves.map (·.2.folded)
  fresh : ∀ leaf ∈ g.tree.leaves, leaf.2.folded ∉ s.planned
  apart : (g.tree.leaves.map (·.2.folded)).Nodup
  among : ∀ leaf ∈ g.tree.leaves, leaf.2 ∈ triples
  tables : g.state.aliases.tables = s.aliases.tables
  named : ∀ leaf ∈ g.tree.leaves, Named s.aliases.tables leaf
  part : g.state.part = s.part
  inner : g.tree.IsInner
  long : g.tree.isLong = true ↔ 2 ≤ g.tree.leaves.length

theorem grownFrom_seed {s : PlanState} {bindings : Bindings} {pattern : GraphPattern}
    {predicate : Iri} {seed : TriplePattern} (member : seed ∈ pattern.triples)
    (fresh : seed.folded ∉ s.planned) (mapped : seed.predicate = .iri predicate) :
    GrownFrom s bindings pattern.triples
      (seedGrowth s bindings pattern.filters predicate seed) where
  bound := by simp [seedGrowth, JoinTree.held, JoinTree.leaves]
  planned := by simp [seedGrowth, JoinTree.leaves, PlanState.settle]
  fresh := by simpa [seedGrowth, JoinTree.leaves] using fresh
  apart := by simp [seedGrowth, JoinTree.leaves]
  among := by simpa [seedGrowth, JoinTree.leaves] using member
  tables := by simp [seedGrowth, PlanState.settle]
  named := by
    intro leaf single
    cases List.mem_singleton.mp single
    exact ⟨predicate, mapped, Aliases.relation_name _ _⟩
  part := by simp [seedGrowth, PlanState.settle]
  inner := trivial
  long := by simp [seedGrowth, JoinTree.isLong, JoinTree.leaves]

theorem GrownFrom.step {s : PlanState} {bindings : Bindings} {triples : List TriplePattern}
    {g : Growth} {predicate : Iri} {pattern : TriplePattern}
    (grown : GrownFrom s bindings triples g) (member : pattern ∈ triples)
    (fresh : pattern.folded ∉ g.state.planned) (mapped : pattern.predicate = .iri predicate) :
    GrownFrom s bindings triples (g.step predicate pattern) where
  bound := by rw [step_bindings, grown.bound, step_held, PlanState.addBindings_append]
  planned := by simp [grown.planned]
  fresh := by
    rw [grown.planned, List.mem_append, not_or] at fresh
    intro leaf present
    rcases List.mem_append.mp present with old | new
    · exact grown.fresh leaf old
    · cases List.mem_singleton.mp new
      exact fresh.1
  apart := by
    rw [grown.planned, List.mem_append, not_or] at fresh
    rw [step_leaves, List.map_append]
    refine List.nodup_append.mpr ⟨grown.apart, by simp, ?_⟩
    intro one old two new same
    cases List.mem_singleton.mp new
    subst same
    exact fresh.2 old
  among := by
    intro leaf present
    rcases List.mem_append.mp present with old | new
    · exact grown.among leaf old
    · cases List.mem_singleton.mp new
      exact member
  tables := by simp [grown.tables]
  named := by
    intro leaf present
    rcases List.mem_append.mp present with old | new
    · exact grown.named leaf old
    · cases List.mem_singleton.mp new
      exact ⟨predicate, mapped, by rw [Aliases.relation_name, grown.tables]⟩
  part := by simp [grown.part]
  inner := ⟨rfl, grown.inner, trivial⟩
  long := by
    have some : 1 ≤ g.tree.leaves.length := List.length_pos_iff.mpr g.tree.leaves_ne_nil
    have long : (g.step predicate pattern).tree.isLong = true := rfl
    simp only [long, step_leaves, List.length_append, List.length_singleton, true_iff]
    omega

theorem Grows.grownFrom {s : PlanState} {bindings : Bindings}
    {triples remaining : List TriplePattern} {g next : Growth} (run : Grows g remaining next)
    (among : ∀ t ∈ remaining, t ∈ triples)
    (grown : GrownFrom s bindings triples g) : GrownFrom s bindings triples next :=
  run.keeps (fun _ _ _ grown => grown.step) among grown

theorem Grows.planned_subset {g next : Growth} {remaining : List TriplePattern}
    (run : Grows g remaining next) : ∀ t ∈ g.state.planned, t ∈ next.state.planned := by
  induction run with
  | done => exact fun _ member => member
  | skip taken known rest ih => exact ih
  | join taken fresh mapped rest ih =>
    intro t member
    exact ih t (by simp [member])

theorem Grows.leaves_subset {g next : Growth} {remaining : List TriplePattern}
    (run : Grows g remaining next) : ∀ leaf ∈ g.tree.leaves, leaf ∈ next.tree.leaves := by
  induction run with
  | done => exact fun _ member => member
  | skip taken known rest ih => exact ih
  | join taken fresh mapped rest ih =>
    intro leaf member
    exact ih leaf (by simp [member])

theorem Grows.seed_mem {s : PlanState} {bindings : Bindings} {filters : List Filter}
    {predicate : Iri} {seed : TriplePattern} {remaining : List TriplePattern} {next : Growth}
    (run : Grows (seedGrowth s bindings filters predicate seed) remaining next) :
    (s.aliases.relation predicate, seed) ∈ next.tree.leaves :=
  run.leaves_subset _ (List.mem_singleton_self _)

theorem Grows.covers {g next : Growth} {remaining : List TriplePattern}
    (run : Grows g remaining next) : ∀ t ∈ remaining, t.folded ∈ next.state.planned := by
  induction run with
  | done => simp
  | skip taken known rest ih =>
    intro t member
    rcases (mem_takeFirst? taken t).mp member with rfl | later
    · exact rest.planned_subset _ known
    · exact ih t later
  | join taken fresh mapped rest ih =>
    intro t member
    rcases (mem_takeFirst? taken t).mp member with rfl | later
    · exact rest.planned_subset _ (by simp)
    · exact ih t later

end Growth

end GraphSql
