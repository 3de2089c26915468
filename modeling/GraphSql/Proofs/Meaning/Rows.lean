import Mathlib.Data.Finset.Empty
import Mathlib.Data.Multiset.Bind
import GraphSql.Proofs.Planning.Conditions

namespace GraphSql
open Sql

-- What SQL statements say about a database of predicate tables.

structure Database where
  rows : String → Finset (String × String)
  void : rows emptyRelation = ∅

-- When a comparison is true. Only the meaning of `=` is fixed.
structure Operators where
  test : String → String → String → Bool
  equality : ∀ left right, test "=" left right = decide (left = right)

abbrev Row := List (String × Option (String × String))

def Sql.Side.pick : Side → String × String → String
  | .subject, pair => pair.1
  | .object, pair => pair.2

def Row.cell (row : Row) (column : Column) : Option String :=
  (row.lookup column.table).join.map column.side.pick

def Sql.Operand.read (row : Row) : Operand → Option String
  | .column c => row.cell c
  | .value text => some text

-- A comparison with a null is not true.
def Sql.Condition.holds (ops : Operators) (row : Row) (c : Condition) : Bool :=
  match c.left.read row, c.right.read row with
  | some left, some right => ops.test c.operator left right
  | _, _ => false

namespace Database

def combinations (db : Database) : List (Relation × TriplePattern) → Multiset Row
  | [] => {[]}
  | leaf :: rest => (db.rows leaf.1.name).val.bind fun pair =>
      (db.combinations rest).map fun row => (leaf.1.aliasName, some pair) :: row

end Database

-- The rows of a statement without outer joins: the combinations of rows of all declared tables for
-- which every ON and WHERE condition holds, each with the selected columns only.
def Sql.Select.flatRows (db : Database) (ops : Operators) (statement : Select) :
    Multiset (List (Option String)) :=
  ((db.combinations statement.source.leaves).filter fun row =>
    ∀ c ∈ statement.source.conditions ++ statement.conditions, c.holds ops row).map fun row =>
      statement.columns.map row.cell

section holds

variable {ops : Operators} {row : Row}

theorem holds_fixed {column : Column} {node : Node} :
    (fixed column node).holds ops row = true ↔ row.cell column = some node.display := by
  unfold Condition.holds
  cases cell : row.cell column <;> simp [fixed, Condition.equal, Operand.read, cell, ops.equality]

theorem holds_linked {one two : Column} :
    (linked one two).holds ops row = true ↔
      ∃ text, row.cell one = some text ∧ row.cell two = some text := by
  unfold Condition.holds
  cases first : row.cell one with
  | none => simp [linked, Condition.equal, Operand.read, first]
  | some text =>
    cases second : row.cell two with
    | none => simp [linked, Condition.equal, Operand.read, first, second]
    | some other =>
      simp [linked, Condition.equal, Operand.read, first, second, ops.equality, @eq_comm _ text]

end holds

section cell

theorem cell_append_left {row more : Row} {column : Column}
    (declared : column.table ∈ row.map (·.1)) :
    Row.cell (row ++ more) column = row.cell column := by
  unfold Row.cell
  have found : (row.lookup column.table).isSome := by
    induction row with
    | nil => cases declared
    | cons entry rest ih =>
      rw [List.lookup_cons]
      split
      next => rfl
      next differs =>
        rcases List.mem_cons.mp declared with same | later
        · simp [same] at differs
        · exact ih later
  obtain ⟨pair, found⟩ := Option.isSome_iff_exists.mp found
  rw [List.lookup_append, found, Option.some_or]

theorem cell_append_right (row : Row) {more : Row} {column : Column}
    (other : column.table ∉ row.map (·.1)) : Row.cell (row ++ more) column = more.cell column := by
  unfold Row.cell
  have missing : row.lookup column.table = none := by
    rw [List.lookup_eq_none_iff]
    intro entry member
    refine bne_iff_ne.mpr ?_
    intro same
    exact other (List.mem_map.mpr ⟨entry, member, same.symm⟩)
  rw [List.lookup_append, missing, Option.none_or]

section tail

variable {leaves : List (Relation × TriplePattern)} {first leaf : Relation × TriplePattern}
  {entry : Option (String × String)} {row : Row}

theorem Row.lookup_tail (fresh : first.1.aliasName ∉ leaves.map (·.1.aliasName))
    (present : leaf ∈ leaves) :
    List.lookup leaf.1.aliasName ((first.1.aliasName, entry) :: row) =
      row.lookup leaf.1.aliasName := by
  have differs : leaf.1.aliasName ≠ first.1.aliasName := by
    intro same
    exact fresh (List.mem_map.mpr ⟨leaf, present, same⟩)
  rw [lookup_first, if_neg differs]

theorem Row.cell_tail (fresh : first.1.aliasName ∉ leaves.map (·.1.aliasName))
    (present : leaf ∈ leaves) (side : Side) :
    Row.cell ((first.1.aliasName, entry) :: row) (leaf.1.column side) =
      row.cell (leaf.1.column side) := by
  unfold Row.cell Relation.column
  rw [Row.lookup_tail fresh present]

end tail

end cell

namespace Database

variable {db : Database} {leaves : List (Relation × TriplePattern)} {row : Row}

theorem mem_combinations_cons {leaf : Relation × TriplePattern} :
    row ∈ db.combinations (leaf :: leaves) ↔
      ∃ pair ∈ db.rows leaf.1.name, ∃ rest ∈ db.combinations leaves,
        row = (leaf.1.aliasName, some pair) :: rest := by
  simp only [combinations, Multiset.mem_bind, Multiset.mem_map, Finset.mem_val, eq_comm]

theorem nodup_combinations (leaves : List (Relation × TriplePattern)) :
    (db.combinations leaves).Nodup := by
  induction leaves with
  | nil => exact Multiset.nodup_singleton _
  | cons leaf rest ih =>
    refine Multiset.nodup_bind.mpr ⟨?_, ?_⟩
    · intro pair _
      exact ih.map fun _ _ same => (List.cons.inj same).2
    · refine (db.rows leaf.1.name).nodup.pairwise ?_
      intro one _ two _ differs
      refine Multiset.disjoint_left.mpr ?_
      intro row first second
      obtain ⟨_, _, rfl⟩ := Multiset.mem_map.mp first
      obtain ⟨_, _, same⟩ := Multiset.mem_map.mp second
      cases same
      exact differs rfl

theorem names_of_combination (member : row ∈ db.combinations leaves) :
    row.map (·.1) = leaves.map (·.1.aliasName) := by
  induction leaves generalizing row with
  | nil =>
    cases Multiset.mem_singleton.mp member
    rfl
  | cons leaf rest ih =>
    obtain ⟨pair, _, tail, later, rfl⟩ := mem_combinations_cons.mp member
    simp [ih later]

theorem combinations_append (one two : List (Relation × TriplePattern)) :
    db.combinations (one ++ two) =
      (db.combinations one).bind fun row => (db.combinations two).map (row ++ ·) := by
  induction one with
  | nil => simp [combinations]
  | cons leaf rest ih =>
    simp [combinations, ih, Multiset.map_bind, Multiset.bind_map, Multiset.bind_assoc]

theorem pair_of_combination (apart : (leaves.map (·.1.aliasName)).Nodup)
    (member : row ∈ db.combinations leaves) {leaf : Relation × TriplePattern}
    (present : leaf ∈ leaves) :
    ∃ pair ∈ db.rows leaf.1.name, row.lookup leaf.1.aliasName = some (some pair) := by
  induction leaves generalizing row with
  | nil => cases present
  | cons first rest ih =>
    obtain ⟨pair, held, tail, later, rfl⟩ := mem_combinations_cons.mp member
    obtain ⟨fresh, apart⟩ := List.nodup_cons.mp apart
    rcases List.mem_cons.mp present with rfl | present
    · exact ⟨pair, held, by simp⟩
    · obtain ⟨other, among, found⟩ := ih apart later present
      exact ⟨other, among, (Row.lookup_tail fresh present).trans found⟩

theorem cell_of_lookup {leaf : Relation × TriplePattern} {pair : String × String}
    (found : row.lookup leaf.1.aliasName = some (some pair)) (side : Side) :
    row.cell (leaf.1.column side) = some (side.pick pair) := by
  unfold Row.cell Relation.column
  rw [found]
  rfl

end Database

end GraphSql
