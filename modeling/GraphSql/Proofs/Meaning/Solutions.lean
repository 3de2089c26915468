import Mathlib.Data.Finset.Insert
import GraphSql.Proofs.Meaning.Block
import GraphSql.Proofs.Planning.Required

namespace GraphSql
open Sql

-- The rows of the statement of a query without optional elements are its solutions.

def Uniform (elements : List Element) : Prop :=
  ∀ one ∈ elements, ∀ t ∈ one.triples, ∀ two ∈ elements, ∀ u ∈ two.triples, t.Same u → t = u

theorem Uniform.mono {less more : List Element} (uniform : Uniform more)
    (subset : ∀ e ∈ less, e ∈ more) : Uniform less :=
  fun one first t used two second u used' =>
    uniform one (subset one first) t used two (subset two second) u used'

-- Every element with filters has a triple that no element before it has, and two of them if one of
-- its filters is between two variables.
def FiltersOwned (elements : List Element) : Prop :=
  ∀ before pattern after, elements = before ++ .pattern pattern :: after → pattern.filters ≠ [] →
    ownTriples before pattern ≠ [] ∧
      ((∃ f ∈ pattern.filters, f.vars.length = 2) → 2 ≤ (ownTriples before pattern).length)

structure Assignment.Solves (db : Database) (ops : Operators) (tables : TableMap)
    (elements : List Element) (σ : Assignment) : Prop where
  domain : ∀ name, (σ name).isSome ↔ ∃ e ∈ elements, name ∈ e.names
  triples : ∀ e ∈ elements, ∀ t ∈ e.triples, σ.Meets db tables t
  filters : ∀ e ∈ elements, ∀ f ∈ e.filters, σ.Passes ops f

theorem cells_eq_values {bindings : Bindings} {targets : List String} {columns : List Column}
    (selected : targets.mapM (Plan.columnOf bindings) = .ok columns) (row : Row) :
    columns.map row.cell = targets.map (Assignment.ofRow bindings row) := by
  induction targets generalizing columns with
  | nil =>
    cases selected
    rfl
  | cons target rest ih =>
    rw [List.mapM_cons] at selected
    cases looked : bindings.lookup target with
    | none => simp [Plan.columnOf, looked] at selected
    | some column =>
      cases later : rest.mapM (Plan.columnOf bindings) with
      | error e => simp [Plan.columnOf, looked, later] at selected
      | ok others =>
        simp only [Plan.columnOf, looked, later, ok_bind] at selected
        cases selected
        rw [List.map_cons, List.map_cons, ih later, Assignment.ofRow, looked, Option.bind_some]

namespace Plan

variable {tables : TableMap} {done : List Element} {p : Progress}

theorem Outline.exists_leaf (outline : Outline tables done p) (uniform : Uniform done) {e : Element}
    (member : e ∈ done) {t : TriplePattern} (used : t ∈ e.triples) :
    ∃ leaf ∈ p.leaves, leaf.2 = t := by
  have planned := outline.covers e member t used
  rw [outline.planned] at planned
  obtain ⟨leaf, present, same⟩ := List.mem_map.mp planned
  obtain ⟨other, among, used'⟩ := outline.among leaf present
  exact ⟨leaf, present, uniform other among leaf.2 used' e member t used same⟩

theorem Outline.extends_iff (outline : Outline tables done p) (uniform : Uniform done)
    {db : Database} {ops : Operators} {σ : Assignment} :
    Assignment.Extends db ops (.ofRow [] []) p.leaves (done.flatMap Element.filters) σ ↔
      σ.Solves db ops tables done := by
  have names : ∀ name, ((Assignment.ofRow [] [] name).isSome ∨
      ∃ column, (name, column) ∈ p.leaves.flatMap JoinTree.leafVariables) ↔
        ∃ e ∈ done, name ∈ e.names := by
    intro name
    rw [JoinTree.exists_held_iff]
    constructor
    · intro held
      rcases held with none | ⟨leaf, present, named⟩
      · cases none
      · obtain ⟨e, member, used⟩ := outline.among leaf present
        exact ⟨e, member, List.mem_flatMap.mpr ⟨leaf.2, used, named⟩⟩
    · intro named
      obtain ⟨e, member, named⟩ := named
      obtain ⟨t, used, named⟩ := List.mem_flatMap.mp named
      obtain ⟨leaf, present, rfl⟩ := outline.exists_leaf uniform member used
      exact .inr ⟨leaf, present, named⟩
  constructor
  · intro extension
    refine ⟨fun name => (extension.domain name).trans (names name), ?_, ?_⟩
    · intro e member t used
      obtain ⟨leaf, present, rfl⟩ := outline.exists_leaf uniform member used
      exact (Assignment.picks_iff_meets (outline.named leaf present)).mp
        (extension.picks leaf present)
    · intro e member f used
      exact extension.passes f (List.mem_flatMap.mpr ⟨e, member, used⟩)
  · intro solution
    refine ⟨fun name => (solution.domain name).trans (names name).symm, ?_, ?_, ?_⟩
    · intro name none
      cases none
    · intro leaf present
      obtain ⟨e, member, used⟩ := outline.among leaf present
      exact (Assignment.picks_iff_meets (outline.named leaf present)).mpr
        (solution.triples e member leaf.2 used)
    · intro f member
      obtain ⟨e, member, used⟩ := List.mem_flatMap.mp member
      exact solution.filters e member f used

theorem Required.block (required : Required tables done p) (owned : FiltersOwned done) :
    Block [] p.required p.leaves (done.flatMap Element.filters) p.Has where
  toPinned := required.toPinned
  keyed := by simp
  binds := required.bound
  sound := by
    intro c has
    refine (required.sound c has).mono (fun _ => id) (fun _ => id) ?_
    intro f owned
    obtain ⟨before, pattern, after, rfl, _, used⟩ := owned
    exact List.mem_flatMap.mpr ⟨.pattern pattern, by simp, used⟩
  filtered := by
    intro f member
    obtain ⟨e, planned, used⟩ := List.mem_flatMap.mp member
    obtain ⟨before, after, split⟩ := List.append_of_mem planned
    cases e with
    | subquery required optional => cases used
    | pattern pattern =>
      obtain ⟨own, pair⟩ := owned before pattern after split (List.ne_nil_of_mem used)
      exact required.filtered before pattern after split own f used fun two => pair ⟨f, used, two⟩

end Plan

-- The statement of a query without optional elements returns its solutions, restricted to the
-- targets, as often as there are solutions.
theorem flatRows_eq_solutions {tables : TableMap} {query : Query} {targets : List String}
    {order : Option (String × SortOrder)} {statement : Select} (noOptional : query.optional = [])
    (planned : (Plan.ofQuery tables query targets order).outcome = .ok (.select statement))
    (apart : statement.source.aliases.Nodup) (uniform : Uniform query.required)
    (owned : FiltersOwned query.required) (db : Database) (ops : Operators) :
    ∃ solutions : Finset Assignment,
      (∀ σ, σ ∈ solutions ↔ σ.Solves db ops tables query.required) ∧
      statement.flatRows db ops = solutions.val.map fun σ => targets.map σ := by
  obtain ⟨base, full, required, optional, tree, -, columns, residual, -⟩ :=
    Plan.ofQuery_select.mp planned
  rw [noOptional] at optional
  cases optional
  have known := Plan.required_run required
  have leaves : base.leaves = statement.source.leaves := by
    simp [Plan.Progress.leaves, show base.tree = _ from tree]
  have listed : ∀ c, c ∈ statement.source.conditions ++ statement.conditions ↔ base.Has c := by
    intro c
    rw [List.mem_append, PlanState.mem_of_residual residual, Plan.Progress.Has,
      Plan.Progress.conditions, show base.tree = _ from tree]
    rfl
  have beside : Block.Beside [] base.leaves [] := ⟨leaves ▸ apart, by simp, by simp⟩
  obtain ⟨solutions, exact_, same⟩ :=
    (known.block owned).exists_extensions beside db ops _ listed
  refine ⟨solutions, ?_, ?_⟩
  · intro σ
    rw [exact_, known.toOutline.extends_iff uniform]
  · rw [same, Multiset.map_map, Select.flatRows, leaves]
    refine Multiset.map_congr rfl ?_
    intro row _
    exact cells_eq_values columns row

namespace Friends

def knows : Iri := ⟨"urn:knows", by decide +kernel⟩

def likes : Iri := ⟨"urn:likes", by decide +kernel⟩

def tables : TableMap := [(knows, "knows"), (likes, "likes")]

def one : Variable := ⟨"one", by decide +kernel⟩

def two : Variable := ⟨"two", by decide +kernel⟩

def three : Variable := ⟨"three", by decide +kernel⟩

def first : TriplePattern := ⟨.variable one, .iri knows, .variable two⟩

def second : TriplePattern := ⟨.variable two, .iri knows, .variable three⟩

def third : TriplePattern := ⟨.variable three, .iri likes, .node (.plain "tea")⟩

def different : Filter := .ofSides (.variablePair one three) "!="

def chain : GraphPattern :=
  ((GraphPattern.empty.addTriple first).addTriple second).addFilter different

def taste : GraphPattern := GraphPattern.empty.addTriple third

def query : Query := ⟨[.pattern chain, .pattern taste], []⟩

def statement : Select where
  columns := [⟨"knows", .subject⟩, ⟨"knows_1", .object⟩]
  source := .join
    (.join (.table ⟨"knows", "knows"⟩ first) .inner (.table ⟨"knows", "knows_1"⟩ second)
      [linked ⟨"knows", .object⟩ ⟨"knows_1", .subject⟩,
        ⟨.column ⟨"knows", .subject⟩, "!=", .column ⟨"knows_1", .object⟩⟩])
    .inner (.table ⟨"likes", "likes"⟩ third)
    [linked ⟨"knows_1", .object⟩ ⟨"likes", .subject⟩]
  conditions := [fixed ⟨"likes", .object⟩ (.plain "tea")]
  order := none

def database : Database where
  rows name :=
    if name = "knows" then {("x", "y"), ("y", "x"), ("y", "z")}
    else if name = "likes" then {("x", "\"tea\""), ("z", "\"tea\"")}
    else ∅
  void := by decide

def operators : Operators where
  test operator left right :=
    if operator = "=" then left = right else operator = "!=" ∧ left ≠ right
  equality := by simp

end Friends

theorem flatRows_eq_solutions_friends :
    (Plan.ofQuery Friends.tables Friends.query ["one", "three"] none).outcome =
        .ok (.select Friends.statement) ∧
      Friends.statement.flatRows Friends.database Friends.operators = {[some "x", some "z"]} ∧
      ∃ solutions : Finset Assignment,
        (∀ σ, σ ∈ solutions ↔
          σ.Solves Friends.database Friends.operators Friends.tables Friends.query.required) ∧
        Friends.statement.flatRows Friends.database Friends.operators =
          solutions.val.map fun σ => ["one", "three"].map σ := by
  have planned : (Plan.ofQuery Friends.tables Friends.query ["one", "three"] none).outcome =
      .ok (.select Friends.statement) := by
    decide +kernel
  have uniform : Uniform Friends.query.required := by
    unfold Uniform
    decide +kernel
  have owned : FiltersOwned Friends.query.required := by
    intro before pattern after split some
    cases before with
    | nil =>
      cases split
      exact ⟨by decide +kernel, fun _ => by decide +kernel⟩
    | cons _ before =>
      cases before with
      | nil =>
        cases split
        exact absurd rfl some
      | cons _ before => simp [Friends.query] at split
  refine ⟨planned, ?_, ?_⟩
  · decide +kernel
  · exact flatRows_eq_solutions rfl planned (by decide) uniform owned _ _

end GraphSql
