import Mathlib.Data.Finset.Card
import GraphSql.Proofs.Meaning.Joins
import GraphSql.Proofs.Meaning.Solutions

namespace GraphSql
open Sql

-- What one optional element adds to a row of the required tables: each way to complete the values
-- of the required variables, or nothing where there is none.

structure Assignment.Completes (db : Database) (ops : Operators) (tables : TableMap)
    (ρ : Assignment) (e : Element) (σ : Assignment) : Prop where
  domain : ∀ name, (σ name).isSome ↔ (ρ name).isSome ∨ name ∈ e.names
  agrees : ∀ name, (ρ name).isSome → σ name = ρ name
  triples : ∀ t ∈ e.triples, σ.Meets db tables t
  filters : ∀ f ∈ e.filters, σ.Passes ops f

namespace Assignment

variable {db : Database} {ops : Operators} {tables : TableMap} {ρ : Assignment} {e : Element}

open Classical in
noncomputable def completions (db : Database) (ops : Operators) (tables : TableMap)
    (ρ : Assignment) (e : Element) : Finset Assignment :=
  if finite : ∃ all : Finset Assignment, ∀ σ, σ ∈ all ↔ Completes db ops tables ρ e σ then
    finite.choose
  else ∅

theorem completions_eq {all : Finset Assignment}
    (listed : ∀ σ, σ ∈ all ↔ Completes db ops tables ρ e σ) :
    completions db ops tables ρ e = all := by
  have finite : ∃ all : Finset Assignment, ∀ σ, σ ∈ all ↔ Completes db ops tables ρ e σ :=
    ⟨all, listed⟩
  unfold completions
  rw [dif_pos finite]
  ext σ
  rw [finite.choose_spec, listed]

end Assignment

def orGiven (ρ : Assignment) (completions : Finset Assignment) : Multiset Assignment :=
  if completions.card = 0 then {ρ} else completions.val

namespace Plan

variable {tables : TableMap} {required : List Element} {base p : Progress} {bs : List Branch}
  {b : Branch} {before : List Element} {db : Database} {ops : Operators} {row : Row}

section required

variable (known : Required tables required base) (apart : base.aliases.Nodup)
  (member : row ∈ db.combinations base.leaves)

include known apart member

theorem Required.valued (name : String) (column : Column) (bound : (name, column) ∈ base.required) :
    (row.cell column).isSome := by
  obtain ⟨leaf, present, held⟩ := List.mem_flatMap.mp (known.drawn _ bound)
  obtain ⟨side, _, _, _, rfl⟩ := JoinTree.mem_leafVariables.mp held
  obtain ⟨pair, _, found⟩ := Database.pair_of_combination apart member present
  rw [Database.cell_of_lookup found side]
  rfl

theorem Required.meets (holds : ∀ c, base.Has c → c.holds ops row = true)
    {leaf : Relation × TriplePattern} (present : leaf ∈ base.leaves) :
    Assignment.Meets db tables (.ofRow base.required row) leaf.2 := by
  have nodes := known.toPinned.cell_eq_value holds
  exact (Assignment.picks_iff_meets (known.named leaf present)).mp
    (Assignment.picks_of_nodes apart member nodes present)

end required

theorem Branched.exists_leaf (branched : Branched tables base (required ++ before) b)
    (known : Required tables required base)
    (uniform : Uniform (required ++ before ++ [b.element]))
    (disjoint : ∀ e ∈ before, ∀ t ∈ e.triples, ∀ u ∈ b.pattern.triples, ¬ t.Same u)
    {t : TriplePattern} (used : t ∈ b.pattern.triples) :
    ∃ leaf ∈ b.leaves ++ base.leaves, leaf.2 = t := by
  have last : b.element ∈ required ++ before ++ [b.element] := by simp
  by_cases old : t.folded ∈ (required ++ before).flatMap fun e => e.triples.map (·.folded)
  · obtain ⟨e, planned, same⟩ := List.mem_flatMap.mp old
    obtain ⟨u, among, same⟩ := List.mem_map.mp same
    rcases List.mem_append.mp planned with early | late
    · have here := known.covers e early u among
      rw [known.planned] at here
      obtain ⟨leaf, present, same'⟩ := List.mem_map.mp here
      obtain ⟨other, among', used'⟩ := known.among leaf present
      refine ⟨leaf, List.mem_append_right _ present, ?_⟩
      exact uniform other (by simp [among']) leaf.2 used' _ last t used (same'.trans same)
    · exact absurd same (disjoint e late u among t used)
  · have own : t.folded ∈ ownTriples (required ++ before) b.pattern := by
      simp only [ownTriples, mem_distinct, List.mem_filter, decide_eq_true_eq]
      exact ⟨List.mem_map.mpr ⟨t, used, rfl⟩, old⟩
    obtain ⟨leaf, present, same⟩ := List.mem_map.mp (branched.own.mem_iff.mpr own)
    refine ⟨leaf, List.mem_append_left _ present, ?_⟩
    exact uniform _ last leaf.2 (branched.among leaf present) _ last t used same

theorem Branched.extends_iff (branched : Branched tables base before b) {ρ σ : Assignment}
    (covered : ∀ t ∈ b.pattern.triples, ∃ leaf ∈ b.leaves ++ base.leaves, leaf.2 = t)
    (meets : ∀ leaf ∈ base.leaves, ρ.Meets db tables leaf.2) :
    Assignment.Extends db ops ρ b.leaves b.pattern.filters σ ↔
      Assignment.Completes db ops tables ρ b.element σ := by
  have names : ∀ name, ((ρ name).isSome ∨
      ∃ column, (name, column) ∈ b.leaves.flatMap JoinTree.leafVariables) ↔
        (ρ name).isSome ∨ name ∈ b.element.names := by
    intro name
    rw [JoinTree.exists_held_iff]
    constructor
    · intro either
      rcases either with given | ⟨leaf, present, named⟩
      · exact .inl given
      · exact .inr (List.mem_flatMap.mpr ⟨leaf.2, branched.among leaf present, named⟩)
    · intro either
      rcases either with given | named
      · exact .inl given
      · obtain ⟨t, used, named⟩ := List.mem_flatMap.mp named
        obtain ⟨leaf, present, rfl⟩ := covered t used
        rcases List.mem_append.mp present with own | old
        · exact .inr ⟨leaf, own, named⟩
        · exact .inl ((meets leaf old).isSome named)
  constructor
  · intro extension
    refine ⟨fun name => (extension.domain name).trans (names name), extension.agrees, ?_,
      extension.passes⟩
    intro t used
    obtain ⟨leaf, present, rfl⟩ := covered t used
    rcases List.mem_append.mp present with own | old
    · exact (Assignment.picks_iff_meets (branched.named leaf own)).mp (extension.picks leaf own)
    · exact (meets leaf old).extend extension.agrees
  · intro completion
    refine ⟨fun name => (completion.domain name).trans (names name).symm, completion.agrees, ?_,
      completion.filters⟩
    intro leaf present
    exact (Assignment.picks_iff_meets (branched.named leaf present)).mpr
      (completion.triples leaf.2 (branched.among leaf present))

theorem Branched.block (branched : Branched tables base before b)
    (known : Required tables required base) (some : b.leaves ≠ [])
    (pairs : (∃ f ∈ b.pattern.filters, f.vars.length = 2) → 2 ≤ b.leaves.length) :
    Block base.required (addBindings base.required b.held) b.leaves b.pattern.filters
      (· ∈ b.conditions) where
  toPinned := branched.toPinned
  keyed := by
    intro name column member
    rw [known.bound] at member ⊢
    exact lookup_of_mem_addBindings (by simp) member
  binds := rfl
  sound := branched.sound
  filtered := fun f used => branched.filtered some f used fun two => pairs ⟨f, used, two⟩

theorem ofRow_nulls (beside : Block.Beside base.required b.leaves row) :
    Assignment.ofRow (addBindings base.required b.held) (row ++ nulls b.aliases) =
      .ofRow base.required row := by
  funext name
  unfold Assignment.ofRow
  rw [lookup_addBindings]
  cases looked : base.required.lookup name with
  | some column =>
    rw [Option.some_or, Option.bind_some, Option.bind_some,
      beside.cell_outer (mem_of_lookup looked)]
  | none =>
    rw [Option.none_or, Option.bind_none]
    cases own : b.held.lookup name with
    | none => rfl
    | some column =>
      obtain ⟨leaf, present, held⟩ := List.mem_flatMap.mp (mem_of_lookup own)
      obtain ⟨side, _, _, _, rfl⟩ := JoinTree.mem_leafVariables.mp held
      rw [Option.bind_some, beside.cell_leaf present]
      unfold Row.cell nulls
      have absent : ∀ names : List String, ((names.map fun name => (name, none)).lookup
          (leaf.1.column side).table).join = (none : Option (String × String)) := by
        intro names
        induction names with
        | nil => rfl
        | cons first rest ih =>
          rw [List.map_cons, lookup_first]
          split
          next => rfl
          next => exact ih
      rw [absent]
      rfl

theorem rows_of_leaves_nil (empty : b.leaves = []) : b.rows db ops row = {[]} := by
  have conditions : b.conditions = [] := by
    unfold Branch.leaves at empty
    unfold Branch.conditions
    cases joined : b.joined with
    | none => rfl
    | some joined' =>
      rw [joined] at empty
      exact absurd empty (JoinTree.leaves_ne_nil _)
  simp [Branch.rows, Branch.found, empty, conditions, Database.combinations, orNulls]

theorem eq_of_extends_nil {ρ σ : Assignment} {filters : List Filter}
    (extension : Assignment.Extends db ops ρ [] filters σ) : σ = ρ := by
  funext name
  cases given : ρ name with
  | some text => exact (extension.agrees name (by simp [given])).trans given
  | none =>
    have domain := extension.domain name
    simpa [given] using domain

-- An element without tables of its own adds no values, whether it can be completed or not.
theorem Branched.exists_completions_of_nil (branched : Branched tables base before b)
    (covered : ∀ t ∈ b.pattern.triples, ∃ leaf ∈ b.leaves ++ base.leaves, leaf.2 = t)
    {ρ : Assignment} (meets : ∀ leaf ∈ base.leaves, ρ.Meets db tables leaf.2)
    (empty : b.leaves = []) :
    ∃ completions : Finset Assignment,
      (∀ σ, σ ∈ completions ↔ Assignment.Completes db ops tables ρ b.element σ) ∧
      orGiven ρ completions = {ρ} := by
  have only : ∀ σ, Assignment.Completes db ops tables ρ b.element σ → σ = ρ := by
    intro σ completion
    have extension := (branched.extends_iff covered meets).mpr completion
    rw [empty] at extension
    exact eq_of_extends_nil extension
  by_cases itself : Assignment.Completes db ops tables ρ b.element ρ
  · refine ⟨{ρ}, ?_, by simp [orGiven]⟩
    intro σ
    rw [Finset.mem_singleton]
    exact ⟨fun same => same ▸ itself, only σ⟩
  · refine ⟨∅, ?_, by simp [orGiven]⟩
    intro σ
    refine iff_of_false (Finset.notMem_empty σ) ?_
    intro completion
    exact itself (only σ completion ▸ completion)

theorem Branched.exists_completions (branched : Branched tables base before b)
    (known : Required tables required base)
    (covered : ∀ t ∈ b.pattern.triples, ∃ leaf ∈ b.leaves ++ base.leaves, leaf.2 = t)
    (pairs : (∃ f ∈ b.pattern.filters, f.vars.length = 2) → 2 ≤ b.leaves.length)
    (meets : ∀ leaf ∈ base.leaves, Assignment.Meets db tables (.ofRow base.required row) leaf.2)
    (beside : Block.Beside base.required b.leaves row) :
    ∃ completions : Finset Assignment,
      (∀ σ, σ ∈ completions ↔
        Assignment.Completes db ops tables (.ofRow base.required row) b.element σ) ∧
      (b.rows db ops row).map (fun more =>
          Assignment.ofRow (addBindings base.required b.held) (row ++ more)) =
        orGiven (.ofRow base.required row) completions := by
  by_cases some : b.leaves = []
  · obtain ⟨completions, exact_, given⟩ := branched.exists_completions_of_nil covered meets some
    refine ⟨completions, exact_, ?_⟩
    rw [given, rows_of_leaves_nil some, Multiset.map_singleton, List.append_nil, Branch.held, some]
    rfl
  · obtain ⟨completions, exact_, same⟩ :=
      (branched.block known some pairs).exists_extensions beside db ops b.conditions
        fun _ => Iff.rfl
    refine ⟨completions, fun σ => (exact_ σ).trans (branched.extends_iff covered meets), ?_⟩
    unfold orGiven Branch.rows orNulls
    have count : completions.card = 0 ↔ b.found db ops row = 0 := by
      rw [Finset.card, same, Multiset.card_map, Multiset.card_eq_zero]
      rfl
    split
    next empty =>
      rw [if_pos (count.mpr empty), Multiset.map_singleton, ofRow_nulls beside]
    next found =>
      rw [if_neg fun zero => found (count.mp zero), same]
      rfl

end Plan

end GraphSql
