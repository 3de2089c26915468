import GraphSql.Proofs.Meaning.Assignment

namespace GraphSql
open Sql

-- Tables with their conditions, joined to a row that is there already: the combinations of their
-- rows that the conditions allow are the ways to extend the values of that row.

structure Assignment.Extends (db : Database) (ops : Operators) (ρ : Assignment)
    (leaves : List (Relation × TriplePattern)) (filters : List Filter) (σ : Assignment) :
    Prop where
  domain : ∀ name, (σ name).isSome ↔
    (ρ name).isSome ∨ ∃ column, (name, column) ∈ leaves.flatMap JoinTree.leafVariables
  agrees : ∀ name, (ρ name).isSome → σ name = ρ name
  picks : ∀ leaf ∈ leaves, σ.Picks db leaf
  passes : ∀ f ∈ filters, σ.Passes ops f

-- The conditions `has` are the right ones for `leaves` and `filters`, where `outer` binds the
-- variables of the row that is there and `bound` all of them.
structure Block (outer bound : Bindings) (leaves : List (Relation × TriplePattern))
    (filters : List Filter) (has : Condition → Prop) : Prop extends Pinned bound leaves has where
  keyed : ∀ name column, (name, column) ∈ outer → outer.lookup name = some column
  binds : bound = Plan.addBindings outer (leaves.flatMap JoinTree.leafVariables)
  sound : ∀ c, has c →
    Justified (outer ++ leaves.flatMap JoinTree.leafVariables) leaves (· ∈ filters) c
  filtered : ∀ f ∈ filters, ∃ c, has c ∧
    Expresses (outer ++ leaves.flatMap JoinTree.leafVariables) f c

namespace Block

variable {db : Database} {ops : Operators} {outer bound : Bindings}
  {leaves : List (Relation × TriplePattern)} {filters : List Filter} {has : Condition → Prop}
  {before row : Row} {σ : Assignment}

structure Beside (outer : Bindings) (leaves : List (Relation × TriplePattern)) (before : Row) :
    Prop where
  apart : (leaves.map (·.1.aliasName)).Nodup
  away : ∀ leaf ∈ leaves, leaf.1.aliasName ∉ before.map (·.1)
  valued : ∀ name column, (name, column) ∈ outer → (before.cell column).isSome

theorem Beside.cell_outer (beside : Beside outer leaves before) {name : String} {column : Column}
    (member : (name, column) ∈ outer) : Row.cell (before ++ row) column = before.cell column := by
  apply cell_append_left
  obtain ⟨text, cell⟩ := Option.isSome_iff_exists.mp (beside.valued name column member)
  by_contra missing
  have none : Row.cell (before ++ []) column = Row.cell [] column := cell_append_right _ missing
  rw [List.append_nil, cell] at none
  cases none

theorem Beside.cell_leaf (beside : Beside outer leaves before) {leaf : Relation × TriplePattern}
    (present : leaf ∈ leaves) (side : Side) :
    Row.cell (before ++ row) (leaf.1.column side) = row.cell (leaf.1.column side) :=
  cell_append_right _ (beside.away leaf present)

theorem ofRow_outer (block : Block outer bound leaves filters has)
    (beside : Beside outer leaves before) {name : String} {column : Column}
    (looked : outer.lookup name = some column) :
    Assignment.ofRow bound (before ++ row) name = before.cell column := by
  rw [Assignment.ofRow, block.binds, lookup_addBindings, looked, Option.some_or,
    Option.bind_some, beside.cell_outer (mem_of_lookup looked)]

theorem ofRow_isSome (beside : Beside outer leaves before) (name : String) :
    (Assignment.ofRow outer before name).isSome ↔ (outer.lookup name).isSome := by
  unfold Assignment.ofRow
  cases looked : outer.lookup name with
  | none => simp
  | some column => simpa using beside.valued name column (mem_of_lookup looked)

theorem fits_append (block : Block outer bound leaves filters has)
    (agrees : ∀ name column, outer.lookup name = some column →
      σ name = Row.cell (before ++ row) column)
    (nodes : ∀ leaf ∈ leaves, ∀ side,
      Row.cell (before ++ row) (leaf.1.column side) = (JoinTree.nodeAt leaf side).value σ) :
    σ.Fits (before ++ row) (outer ++ leaves.flatMap JoinTree.leafVariables) := by
  intro name column member
  rcases List.mem_append.mp member with old | new
  · exact (agrees name column (block.keyed name column old)).symm
  · exact fits_of_nodes nodes name column new

theorem mem_of_bound (block : Block outer bound leaves filters has) {name : String}
    {column : Column} (looked : bound.lookup name = some column) :
    (name, column) ∈ outer ++ leaves.flatMap JoinTree.leafVariables := by
  rw [block.binds, lookup_addBindings] at looked
  rcases Option.or_eq_some_iff.mp looked with old | ⟨_, new⟩
  · exact List.mem_append_left _ (mem_of_lookup old)
  · exact List.mem_append_right _ (mem_of_lookup new)

theorem bound_isSome (block : Block outer bound leaves filters has) (name : String) :
    (bound.lookup name).isSome ↔ (outer.lookup name).isSome ∨
      ∃ column, (name, column) ∈ leaves.flatMap JoinTree.leafVariables := by
  rw [block.binds, lookup_addBindings, Option.isSome_or, Bool.or_eq_true, ← lookup_isSome_iff]

theorem extends_of_holds (block : Block outer bound leaves filters has)
    (beside : Beside outer leaves before) (member : row ∈ db.combinations leaves)
    (holds : ∀ c, has c → c.holds ops (before ++ row) = true) :
    Assignment.Extends db ops (.ofRow outer before) leaves filters
      (.ofRow bound (before ++ row)) := by
  have nodes := block.toPinned.cell_eq_value holds
  have picks : ∀ leaf ∈ leaves, Assignment.Picks db (.ofRow bound (before ++ row)) leaf := by
    intro leaf present
    refine Assignment.picks_of_nodes beside.apart member ?_ present
    intro leaf present side
    rw [← nodes leaf present side, beside.cell_leaf present]
  have agrees : ∀ name column, outer.lookup name = some column →
      Assignment.ofRow bound (before ++ row) name = before.cell column :=
    fun name column => block.ofRow_outer beside
  refine ⟨?_, ?_, picks, ?_⟩
  · intro name
    rw [ofRow_isSome beside, ← block.bound_isSome, Assignment.ofRow]
    cases looked : bound.lookup name with
    | none => simp
    | some column =>
      simp only [Option.bind_some, Option.isSome_some, iff_true]
      rcases List.mem_append.mp (block.mem_of_bound looked) with old | new
      · rw [beside.cell_outer old]
        exact beside.valued name column old
      · obtain ⟨leaf, present, held⟩ := List.mem_flatMap.mp new
        obtain ⟨side, _, _, _, rfl⟩ := JoinTree.mem_leafVariables.mp held
        obtain ⟨pair, _, sides⟩ := picks leaf present
        rw [nodes leaf present side, sides side]
        rfl
  · intro name some
    obtain ⟨column, looked⟩ := Option.isSome_iff_exists.mp ((ofRow_isSome beside name).mp some)
    rw [agrees name column looked, Assignment.ofRow, looked, Option.bind_some]
  · intro f present
    obtain ⟨c, held, expressed⟩ := block.filtered f present
    refine (expressed.holds_iff (block.fits_append ?_ nodes)).mp (holds c held)
    intro name column looked
    rw [agrees name column looked, beside.cell_outer (mem_of_lookup looked)]

section extension

variable (block : Block outer bound leaves filters has) (beside : Beside outer leaves before)
  (extension : Assignment.Extends db ops (.ofRow outer before) leaves filters σ)

include block beside extension

theorem fits_of_extends :
    σ.Fits (before ++ σ.row leaves) (outer ++ leaves.flatMap JoinTree.leafVariables) := by
  apply block.fits_append
  · intro name column looked
    have valued := (ofRow_isSome beside name).mpr (by simp [looked])
    rw [extension.agrees name valued, beside.cell_outer (mem_of_lookup looked), Assignment.ofRow,
      looked, Option.bind_some]
  · intro leaf present side
    rw [beside.cell_leaf present]
    exact Assignment.cell_row beside.apart extension.picks present side

theorem holds_of_extends (c : Condition) (held : has c) :
    c.holds ops (before ++ σ.row leaves) = true := by
  refine (block.sound c held).holds (block.fits_of_extends beside extension) ?_ ?_ extension.passes
  · intro name column member
    rw [extension.domain]
    rcases List.mem_append.mp member with old | new
    · exact .inl ((ofRow_isSome beside name).mpr (by simp [block.keyed name column old]))
    · exact .inr ⟨column, new⟩
  · intro leaf present side
    rw [beside.cell_leaf present]
    exact Assignment.cell_row beside.apart extension.picks present side

theorem ofRow_row : Assignment.ofRow bound (before ++ σ.row leaves) = σ := by
  funext name
  unfold Assignment.ofRow
  cases looked : bound.lookup name with
  | some column =>
    exact block.fits_of_extends beside extension name column (block.mem_of_bound looked)
  | none =>
    have unbound : ¬ (σ name).isSome := by
      rw [extension.domain, ofRow_isSome beside, ← block.bound_isSome, looked]
      simp
    exact (Option.not_isSome_iff_eq_none.mp unbound).symm

end extension

theorem exists_extensions (block : Block outer bound leaves filters has)
    (beside : Beside outer leaves before) (db : Database) (ops : Operators)
    (conditions : List Condition) (listed : ∀ c, c ∈ conditions ↔ has c) :
    ∃ extensions : Finset Assignment,
      (∀ σ, σ ∈ extensions ↔
        Assignment.Extends db ops (.ofRow outer before) leaves filters σ) ∧
      extensions.val = ((db.combinations leaves).filter fun row =>
        ∀ c ∈ conditions, c.holds ops (before ++ row)).map fun row =>
          .ofRow bound (before ++ row) := by
  have holds : ∀ row ∈ (db.combinations leaves).filter fun row =>
      ∀ c ∈ conditions, c.holds ops (before ++ row),
      row ∈ db.combinations leaves ∧ ∀ c, has c → c.holds ops (before ++ row) = true := by
    intro row member
    obtain ⟨member, all⟩ := Multiset.mem_filter.mp member
    exact ⟨member, fun c held => all c ((listed c).mpr held)⟩
  -- A row is determined by the values in it, so that no two rows give the same assignment.
  have back : ∀ row ∈ (db.combinations leaves).filter fun row =>
      ∀ c ∈ conditions, c.holds ops (before ++ row),
      row = Assignment.row (.ofRow bound (before ++ row)) leaves := by
    intro row present
    obtain ⟨member, all⟩ := holds row present
    refine Assignment.eq_row_of_nodes beside.apart member ?_
    intro leaf present side
    rw [← block.toPinned.cell_eq_value all leaf present side, beside.cell_leaf present]
  refine ⟨⟨_, Multiset.Nodup.map_on ?_ ((Database.nodup_combinations leaves).filter _)⟩, ?_, rfl⟩
  · intro one first two second same
    rw [back one first, same, ← back two second]
  · intro σ
    rw [Finset.mem_mk, Multiset.mem_map]
    constructor
    · intro given
      obtain ⟨row, present, rfl⟩ := given
      obtain ⟨member, all⟩ := holds row present
      exact block.extends_of_holds beside member all
    · intro extension
      refine ⟨σ.row leaves, Multiset.mem_filter.mpr ⟨?_, ?_⟩, block.ofRow_row beside extension⟩
      · exact Assignment.row_mem_combinations extension.picks
      · intro c member
        exact block.holds_of_extends beside extension c ((listed c).mp member)

end Block

end GraphSql
