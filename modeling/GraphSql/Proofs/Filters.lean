import Mathlib.Control.Monad.Basic
import GraphSql.Proofs.Planning.Alike
import GraphSql.Proofs.Planning.Residual
import GraphSql.Proofs.Planning.Statement

namespace GraphSql
open Sql

-- What becomes of the filters of a query. An element that has no triples of its own loses its
-- filters, and an element that has some may use a filter only on a variable of these.

namespace Plan

variable {tables : TableMap} {query : Query} {targets : List String}
  {order : Option (String × SortOrder)} {statement bare : Select}

theorem exists_planned (single : FiltersSingle (query.required ++ query.optional))
    (reachable : FiltersReachable (query.required ++ query.optional))
    (plain : (ofQuery tables query.unfiltered targets order).outcome = .ok (.select bare)) :
    ∃ statement, (ofQuery tables query targets order).outcome = .ok (.select statement) := by
  obtain ⟨base, full, first, later, tree, some, columns, -, ordered⟩ := ofQuery_select.mp plain
  have start : Follows tables [] (.start tables) (.start tables) :=
    ⟨outline_start tables, ⟨rfl, rfl⟩, rfl, rfl, rfl⟩
  have inRequired : ∀ before pattern after, query.required = before ++ .pattern pattern :: after →
      Reaches ([] ++ before) pattern := by
    intro before pattern after split
    exact reachable before pattern (after ++ query.optional) (by simp [split])
  obtain ⟨base', first', follows⟩ := addEach_follows
    (fun _ _ _ _ _ => Follows.required) start first
    (fun e member => single e (List.mem_append_left _ member)) inRequired
  have turned : Follows tables query.required base.turn base'.turn :=
    ⟨follows.outline.turn, ⟨follows.alike.state.aliases, follows.alike.state.planned⟩,
      follows.alike.required, follows.alike.required, follows.alike.leaves⟩
  have inOptional : ∀ before pattern after, query.optional = before ++ .pattern pattern :: after →
      Reaches (query.required ++ before) pattern := by
    intro before pattern after split
    exact reachable (query.required ++ before) pattern after (by simp [split])
  obtain ⟨full', later', follows⟩ := addEach_follows
    (fun _ _ _ _ _ => Follows.optional) turned later
    (fun e member => single e (List.mem_append_right _ member)) inOptional
  obtain ⟨source, held, -⟩ := Option.map_eq_some_iff.mp
    (follows.alike.leaves.trans (congrArg _ tree))
  obtain ⟨conditions, left⟩ := residual_planned first' later'
  refine ⟨⟨bare.columns, source, conditions, bare.order⟩, ofQuery_select.mpr
    ⟨base', full', first', later', held, some, ?_, left, ?_⟩⟩
  · exact follows.alike.all ▸ columns
  · exact follows.alike.all ▸ ordered

end Plan

theorem planned_iff_filtersReachable {tables : TableMap} {query : Query} {targets : List String}
    {order : Option (String × SortOrder)} {bare : Select}
    (single : FiltersSingle (query.required ++ query.optional))
    (plain : (Plan.ofQuery tables query.unfiltered targets order).outcome = .ok (.select bare)) :
    ((∃ statement, (Plan.ofQuery tables query targets order).outcome = .ok (.select statement)) ↔
      FiltersReachable (query.required ++ query.optional)) ∧
    ∀ statement, (Plan.ofQuery tables query targets order).outcome = .ok (.select statement) →
      (∀ f, Owned (query.required ++ query.optional) f →
        ∃ c ∈ statement.source.conditions ++ statement.conditions,
          Expresses statement.source.held f c) ∧
      ∀ c ∈ statement.source.conditions ++ statement.conditions,
        Justified statement.source.held statement.source.leaves
          (Owned (query.required ++ query.optional)) c := by
  refine ⟨⟨?_, fun reachable => Plan.exists_planned single reachable plain⟩, ?_⟩
  · intro compiles
    obtain ⟨statement, planned⟩ := compiles
    obtain ⟨base, full, first, later, -⟩ := Plan.ofQuery_select.mp planned
    exact (Plan.reached_optional (Plan.reached_required first) later).reachable single
  · intro statement planned
    obtain ⟨full, sourced, tree, conditions⟩ := Plan.sourced_planned planned
    have leaves : full.leaves = statement.source.leaves := by simp [Plan.Progress.leaves, tree]
    have held : full.held = statement.source.held := by
      rw [Plan.Progress.held, leaves]
      rfl
    refine ⟨?_, ?_⟩
    · intro f owned
      obtain ⟨before, pattern, after, split, own, used⟩ := owned
      have one : f.vars.length = 1 := single (.pattern pattern) (by simp [split]) f used
      obtain ⟨c, has, expressed⟩ := sourced.filtered before pattern after split own f used
        fun two => by omega
      exact ⟨c, (conditions c).mp has, held ▸ expressed⟩
    · intro c member
      exact held ▸ leaves ▸ sourced.sound c ((conditions c).mpr member)

namespace Repeated

def owns : Iri := ⟨"urn:owns", by decide +kernel⟩

def costs : Iri := ⟨"urn:costs", by decide +kernel⟩

def tables : TableMap := [(owns, "owns"), (costs, "costs")]

def owner : Variable := ⟨"owner", by decide +kernel⟩

def thing : Variable := ⟨"thing", by decide +kernel⟩

def price : Variable := ⟨"price", by decide +kernel⟩

def owned : TriplePattern := ⟨.variable owner, .iri owns, .variable thing⟩

def priced : TriplePattern := ⟨.variable thing, .iri costs, .variable price⟩

def equals (v : Variable) : Filter := .ofSides (.variableNode v (.plain "x")) "="

def query (more : List TriplePattern) (v : Variable) : Query :=
  ⟨[.pattern (GraphPattern.empty.addTriple owned),
    .pattern ((more.foldl GraphPattern.addTriple
      (GraphPattern.empty.addTriple owned)).addFilter (equals v))], []⟩

def statement (conditions : List Condition) : Select where
  columns := [⟨"owns", .subject⟩]
  source := .join (.table ⟨"owns", "owns"⟩ owned) .inner (.table ⟨"costs", "costs"⟩ priced)
    [linked ⟨"owns", .object⟩ ⟨"costs", .subject⟩]
  conditions := conditions
  order := none

theorem unfiltered_planned (v : Variable) (among : v ∈ [owner, price]) :
    (Plan.ofQuery tables (query [priced] v).unfiltered ["owner"] none).outcome =
      .ok (.select (statement [])) := by
  revert v
  decide +kernel

end Repeated

theorem planned_iff_filtersReachable_repeated :
    (Plan.ofQuery Repeated.tables (Repeated.query [Repeated.priced] Repeated.price).unfiltered
        ["owner"] none).outcome = .ok (.select (Repeated.statement [])) ∧
      FiltersReachable (Repeated.query [Repeated.priced] Repeated.price).required ∧
      ∃ statement c, (Plan.ofQuery Repeated.tables
          (Repeated.query [Repeated.priced] Repeated.price) ["owner"] none).outcome =
            .ok (.select statement) ∧
        c ∈ statement.source.conditions ++ statement.conditions ∧
        Expresses statement.source.held (Repeated.equals Repeated.price) c := by
  have single : FiltersSingle ((Repeated.query [Repeated.priced] Repeated.price).required ++
      (Repeated.query [Repeated.priced] Repeated.price).optional) := by
    unfold FiltersSingle
    decide +kernel
  have plain := Repeated.unfiltered_planned Repeated.price (by simp)
  have planned : (Plan.ofQuery Repeated.tables (Repeated.query [Repeated.priced] Repeated.price)
      ["owner"] none).outcome =
        .ok (.select (Repeated.statement [fixed ⟨"costs", .object⟩ (.plain "x")])) := by
    decide +kernel
  obtain ⟨compiles, placed⟩ := planned_iff_filtersReachable single plain
  have owned : Owned ((Repeated.query [Repeated.priced] Repeated.price).required ++
      (Repeated.query [Repeated.priced] Repeated.price).optional)
      (Repeated.equals Repeated.price) := by
    refine ⟨[.pattern (GraphPattern.empty.addTriple Repeated.owned)], _, [], rfl, ?_, ?_⟩
    · decide +kernel
    · decide +kernel
  obtain ⟨c, member, expressed⟩ := (placed _ planned).1 _ owned
  exact ⟨plain, compiles.mp ⟨_, planned⟩, _, c, planned, member, expressed⟩

-- The filter of an element that only repeats a triple is lost, and a filter on a variable of a
-- repeated triple is rejected.
theorem filters_lost_and_rejected :
    (∃ statement, (Plan.ofQuery Repeated.tables (Repeated.query [] Repeated.thing)
        ["owner"] none).outcome = .ok (.select statement) ∧
      statement.source.conditions ++ statement.conditions = []) ∧
    (Plan.ofQuery Repeated.tables (Repeated.query [Repeated.priced] Repeated.owner).unfiltered
      ["owner"] none).outcome = .ok (.select (Repeated.statement [])) ∧
    (Plan.ofQuery Repeated.tables (Repeated.query [Repeated.priced] Repeated.owner)
        ["owner"] none).outcome = .error (.filterVariableNotFound Repeated.owner) := by
  refine ⟨⟨⟨[⟨"owns", .subject⟩], .table ⟨"owns", "owns"⟩ Repeated.owned, [], none⟩, ?_, rfl⟩,
    ?_, ?_⟩
  · decide +kernel
  · exact Repeated.unfiltered_planned Repeated.owner (by simp)
  · decide +kernel

end GraphSql
