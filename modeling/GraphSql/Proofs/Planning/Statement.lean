import Mathlib.Data.List.Forall2
import GraphSql.Proofs.Planning.Required

namespace GraphSql
open Sql

-- What the statement of a query is made of: which tables it declares, which columns it selects, and
-- which conditions it has.

theorem exists_of_forall₂ {α β : Type} {related : α → β → Prop} {xs : List α} {ys : List β}
    (pairs : List.Forall₂ related xs ys) {y : β} (member : y ∈ ys) : ∃ x ∈ xs, related x y := by
  induction pairs with
  | nil => cases member
  | cons first rest ih =>
    rcases List.mem_cons.mp member with rfl | later
    · exact ⟨_, List.mem_cons_self, first⟩
    · obtain ⟨x, among, pair⟩ := ih later
      exact ⟨x, List.mem_cons_of_mem _ among, pair⟩

def Issued (tables : TableMap) (relation : Relation) : Prop :=
  ∃ (a : Aliases) (predicate : Iri), a.tables = tables ∧ relation = a.relation predicate

structure Growth.Issues (tables : TableMap) (g : Growth) : Prop where
  same : g.state.aliases.tables = tables
  issued : ∀ leaf ∈ g.tree.leaves, Issued tables leaf.1

theorem Growth.Issues.step {tables : TableMap} {g : Growth} (issues : Issues tables g)
    (predicate : Iri) (pattern : TriplePattern) : Issues tables (g.step predicate pattern) where
  same := by
    rw [step_aliases]
    exact issues.same
  issued := by
    intro leaf present
    rcases List.mem_append.mp present with old | new
    · exact issues.issued leaf old
    · cases List.mem_singleton.mp new
      exact ⟨g.state.aliases, predicate, issues.same, rfl⟩

theorem PatternRun.issued {s next : PlanState} {bindings bound : Bindings} {pattern : GraphPattern}
    {tree : JoinTree} (run : PatternRun s bindings pattern (some tree) next bound) :
    ∀ leaf ∈ tree.leaves, Issued s.aliases.tables leaf.1 := by
  cases run with
  | grown order known fresh mapped run left =>
    rename_i before seed others predicate g
    have start : Growth.Issues s.aliases.tables
        (seedGrowth s bindings pattern.filters predicate seed) := by
      refine ⟨by simp [seedGrowth, PlanState.settle], ?_⟩
      intro leaf single
      cases List.mem_singleton.mp single
      exact ⟨s.aliases, predicate, rfl, rfl⟩
    have finished : Growth.Issues s.aliases.tables g :=
      run.keeps (fun _ predicate pattern issues _ _ _ => issues.step predicate pattern)
        (fun _ member => member) start
    exact finished.issued

namespace Plan

variable {tables : TableMap} {query : Query} {targets : List String}
  {order : Option (String × SortOrder)} {statement : Select} {done : List Element}
  {p next : Progress} {pattern : GraphPattern} {bindings bound : Bindings} {s : PlanState}
  {tree : JoinTree}

structure Stocked (tables : TableMap) (done : List Element) (p : Progress) : Prop
    extends Outline tables done p where
  issued : ∀ leaf ∈ p.leaves, Issued tables leaf.1
  drawn : ∀ entry ∈ p.required, entry ∈ p.held
  all : ∀ entry ∈ p.all, entry ∈ p.held

theorem stocked_start (tables : TableMap) : Stocked tables [] (.start tables) where
  toOutline := outline_start tables
  issued := by simp [Progress.leaves, Progress.start]
  drawn := by simp [Progress.start]
  all := by simp [Progress.start]

theorem Stocked.turn (stocked : Stocked tables done p) : Stocked tables done p.turn :=
  ⟨stocked.toOutline.turn, stocked.issued, stocked.drawn, stocked.drawn⟩

theorem Stocked.extend (stocked : Stocked tables done p)
    (run : PatternRun p.state p.required pattern (some tree) s bound)
    (outline : Outline tables (done ++ [.pattern pattern]) next)
    (leaves : next.leaves = p.leaves ++ tree.leaves)
    (required : ∀ entry ∈ next.required, entry ∈ p.required ∨ entry ∈ bound)
    (all : ∀ entry ∈ next.all, entry ∈ p.all ∨ entry ∈ bound) :
    Stocked tables (done ++ [.pattern pattern]) next := by
  obtain ⟨left, grown, -⟩ := run.founded stocked.tidy
  have held : next.held = p.held ++ tree.held := by
    rw [Progress.held, leaves, List.flatMap_append]
    rfl
  have fresh : ∀ entry ∈ bound, entry ∈ p.held ++ tree.held := by
    intro entry member
    rw [show bound = _ from grown.bound] at member
    rcases mem_addBindings member with old | new
    · exact List.mem_append_left _ (stocked.drawn entry old)
    · exact List.mem_append_right _ new
  refine ⟨outline, ?_, ?_, ?_⟩
  · intro leaf present
    rcases List.mem_append.mp (leaves ▸ present) with old | new
    · exact stocked.issued leaf old
    · exact stocked.same ▸ run.issued leaf new
  · rw [held]
    intro entry member
    rcases required entry member with old | new
    · exact List.mem_append_left _ (stocked.drawn entry old)
    · exact fresh entry new
  · rw [held]
    intro entry member
    rcases all entry member with old | new
    · exact List.mem_append_left _ (stocked.all entry old)
    · exact fresh entry new

theorem Stocked.require {element : Element} (stocked : Stocked tables done p)
    (added : (addRequired p element).outcome = .ok next) :
    Stocked tables (done ++ [element]) next := by
  obtain ⟨pattern, found, s, bound, rfl, run, rfl⟩ := addRequired_exact.mp added
  have outline := stocked.toOutline.require run
  cases found with
  | none =>
    cases run with
    | redundant known =>
      rw [Progress.require_none] at outline ⊢
      exact ⟨outline, stocked.issued, stocked.drawn, stocked.all⟩
  | some tree =>
    exact stocked.extend run outline (by simp) (fun _ => .inr) (fun _ => .inl)

theorem Stocked.allow {element : Element} (stocked : Stocked tables done p)
    (added : (addOptional p element).outcome = .ok next) :
    Stocked tables (done ++ [element]) next := by
  obtain ⟨pattern, init, found, s, bound, rfl, held, run, rfl⟩ := addOptional_exact.mp added
  have outline := stocked.toOutline.allow held run
  cases found with
  | none =>
    cases run with
    | redundant known => exact ⟨outline, stocked.issued, stocked.drawn, stocked.all⟩
  | some tree =>
    refine stocked.extend run outline ?_ (fun _ => .inl) (fun _ => mem_addBindings)
    simp [Progress.allow, Progress.leaves, held]

theorem columnOf_ok {name : String} {column : Column} :
    columnOf bindings name = .ok column ↔ bindings.lookup name = some column := by
  unfold columnOf
  cases bindings.lookup name <;> simp

theorem columns_ok {targets : List String} {columns : List Column}
    (mapped : targets.mapM (columnOf bindings) = .ok columns) :
    List.Forall₂ (fun name column => bindings.lookup name = some column) targets columns := by
  induction targets generalizing columns with
  | nil =>
    cases mapped
    exact .nil
  | cons target rest ih =>
    rw [List.mapM_cons] at mapped
    obtain ⟨column, found, mapped⟩ := bind_ok_iff.mp mapped
    obtain ⟨others, later, mapped⟩ := bind_ok_iff.mp mapped
    cases mapped
    exact .cons (columnOf_ok.mp found) (ih later)

theorem orderOf_ok {order : Option (String × SortOrder)} {column : Column} {direction : SortOrder}
    (ordered : orderOf bindings order = .ok (some (column, direction))) :
    ∃ name, order = some (name, direction) ∧ bindings.lookup name = some column := by
  cases order with
  | none => cases ordered
  | some entry =>
    obtain ⟨name, other⟩ := entry
    rw [orderOf] at ordered
    obtain ⟨first, found, same⟩ := map_ok_iff.mp ordered
    cases same
    exact ⟨name, rfl, columnOf_ok.mp found⟩

theorem stocked_planned
    (planned : (ofQuery tables query targets order).outcome = .ok (.select statement)) :
    (∀ leaf ∈ statement.source.leaves, Issued tables leaf.1 ∧
        ∃ e ∈ query.required ++ query.optional, leaf.2 ∈ e.triples) ∧
      (∀ column ∈ statement.columns, column.table ∈ statement.source.aliases) ∧
      ∀ column direction, statement.order = some (column, direction) →
        column.table ∈ statement.source.aliases := by
  obtain ⟨base, full, first, later, tree, -, mapped, -, ordered⟩ := ofQuery_select.mp planned
  have required : Stocked tables query.required base :=
    addEach_keeps (fun _ _ _ _ => Stocked.require) (stocked_start tables) first
  have stocked : Stocked tables (query.required ++ query.optional) full :=
    addEach_keeps (fun _ _ _ _ => Stocked.allow) required.turn later
  have leaves : full.leaves = statement.source.leaves := by simp [Progress.leaves, tree]
  have bound : ∀ name column, full.all.lookup name = some column →
      column.table ∈ statement.source.aliases := by
    intro name column looked
    have held := stocked.all _ (mem_of_lookup looked)
    rw [Progress.held, leaves] at held
    exact JoinTree.table_of_held held
  rw [← leaves]
  refine ⟨fun leaf member => ⟨stocked.issued leaf member, stocked.among leaf member⟩, ?_, ?_⟩
  · intro column member
    obtain ⟨name, -, looked⟩ := exists_of_forall₂ (columns_ok mapped) member
    exact bound name column looked
  · intro column direction same
    obtain ⟨name, -, looked⟩ := orderOf_ok (same ▸ ordered)
    exact bound name column looked

theorem sourced_planned
    (planned : (ofQuery tables query targets order).outcome = .ok (.select statement)) :
    ∃ full, Sourced (query.required ++ query.optional) full ∧ full.tree = some statement.source ∧
      ∀ c, full.Has c ↔ c ∈ statement.source.conditions ++ statement.conditions := by
  obtain ⟨base, full, first, later, tree, -, -, left, -⟩ := ofQuery_select.mp planned
  have known := required_run first
  have kept : ∀ done p element next, Outline tables done p ∧ Sourced done p →
      (addOptional p element).outcome = .ok next →
      Outline tables (done ++ [element]) next ∧ Sourced (done ++ [element]) next := by
    intro done p element next both added
    obtain ⟨pattern, init, found, s, bound, rfl, held, run, rfl⟩ := addOptional_exact.mp added
    exact ⟨both.1.allow held run, both.2.allow both.1 held run⟩
  have start : Outline tables query.required base.turn ∧ Sourced query.required base.turn :=
    ⟨known.toOutline.turn, known.toSourced.turn⟩
  refine ⟨full, (addEach_keeps kept start later).2, tree, ?_⟩
  intro c
  rw [List.mem_append, PlanState.mem_of_residual left]
  simp [Progress.Has, Progress.conditions, tree]

end Plan

end GraphSql
