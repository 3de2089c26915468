import GraphSql.Proofs.Meaning.Rows
import GraphSql.Proofs.Planning.Elements

namespace GraphSql
open Sql

-- What graph patterns say about a database: which values their variables can have.

abbrev Assignment := String → Option String

def NodePattern.value (σ : Assignment) : NodePattern → Option String
  | .variable v => σ v.name
  | .node n => some n.display

namespace Assignment

def Meets (db : Database) (tables : TableMap) (σ : Assignment) (t : TriplePattern) : Prop :=
  ∃ predicate, t.predicate = .iri predicate ∧
    ∃ pair ∈ db.rows (tables.relationName predicate),
      t.subject.value σ = some pair.1 ∧ t.object.value σ = some pair.2

def Passes (ops : Operators) (σ : Assignment) (f : Filter) : Prop :=
  ∃ left right, f.left.value σ = some left ∧ f.right.value σ = some right ∧
    ops.test f.operator left right = true

theorem Meets.isSome {db : Database} {tables : TableMap} {σ : Assignment} {t : TriplePattern}
    (meets : σ.Meets db tables t) {name : String} (used : name ∈ t.names) : (σ name).isSome := by
  obtain ⟨_, _, pair, _, subject, object⟩ := meets
  have each : ∀ {node : NodePattern} {text : String}, node.value σ = some text →
      name ∈ node.names → (σ name).isSome := by
    intro node text value used
    cases node with
    | node n => cases used
    | «variable» v =>
      cases List.mem_singleton.mp used
      exact Option.isSome_iff_exists.mpr ⟨text, value⟩
  rcases List.mem_append.mp used with one | two
  · exact each subject one
  · exact each object two

theorem Meets.extend {db : Database} {tables : TableMap} {ρ σ : Assignment} {t : TriplePattern}
    (meets : ρ.Meets db tables t) (agrees : ∀ name, (ρ name).isSome → σ name = ρ name) :
    σ.Meets db tables t := by
  obtain ⟨predicate, mapped, pair, member, subject, object⟩ := meets
  have each : ∀ {node : NodePattern} {text : String}, node.value ρ = some text →
      node.value σ = some text := by
    intro node text value
    cases node with
    | node n => exact value
    | «variable» v => exact (agrees v.name (Option.isSome_iff_exists.mpr ⟨text, value⟩)).trans value
  exact ⟨predicate, mapped, pair, member, each subject, each object⟩

def row (σ : Assignment) (leaves : List (Relation × TriplePattern)) : Row :=
  leaves.map fun leaf =>
    (leaf.1.aliasName, (leaf.2.subject.value σ).bind fun subject =>
      (leaf.2.object.value σ).map fun object => (subject, object))

def ofRow (bindings : Bindings) (row : Row) : Assignment :=
  fun name => (bindings.lookup name).bind row.cell

theorem ofRow_apply (bindings : Bindings) (row : Row) (name : String) :
    ofRow bindings row name = (bindings.lookup name).bind row.cell := rfl

-- The columns that hold a variable have its value.
def Fits (σ : Assignment) (row : Row) (held : Bindings) : Prop :=
  ∀ name column, (name, column) ∈ held → row.cell column = σ name

end Assignment

section fits

variable {ops : Operators} {row : Row} {σ : Assignment} {held : Bindings}
  {leaves : List (Relation × TriplePattern)} {filters : Filter → Prop} {c : Condition} {f : Filter}

theorem Reads.read_eq {node : NodePattern} {operand : Operand} (reads : Reads held node operand)
    (fits : σ.Fits row held) : operand.read row = node.value σ := by
  cases reads with
  | column at_ => exact fits _ _ at_
  | value => rfl

theorem Expresses.holds_iff (expressed : Expresses held f c) (fits : σ.Fits row held) :
    c.holds ops row = true ↔ σ.Passes ops f := by
  unfold Condition.holds Assignment.Passes
  rw [expressed.left.read_eq fits, expressed.right.read_eq fits, expressed.operator]
  cases f.left.value σ with
  | none => simp
  | some left =>
    cases f.right.value σ with
    | none => simp
    | some right => simp

theorem Justified.holds (justified : Justified held leaves filters c) (fits : σ.Fits row held)
    (valued : ∀ name column, (name, column) ∈ held → (σ name).isSome)
    (nodes : ∀ leaf ∈ leaves, ∀ side,
      row.cell (leaf.1.column side) = (JoinTree.nodeAt leaf side).value σ)
    (passes : ∀ f, filters f → σ.Passes ops f) : c.holds ops row = true := by
  cases justified with
  | same one two =>
    obtain ⟨text, value⟩ := Option.isSome_iff_exists.mp (valued _ _ one)
    exact holds_linked.mpr ⟨text, (fits _ _ one).trans value, (fits _ _ two).trans value⟩
  | constant member node =>
    rw [holds_fixed, nodes _ member, node]
    rfl
  | filter member expressed => exact (expressed.holds_iff fits).mpr (passes _ member)

theorem Pinned.cell_eq_value {bound : Bindings} {has : Condition → Prop}
    (pinned : Pinned bound leaves has) (holds : ∀ c, has c → c.holds ops row = true)
    (leaf : Relation × TriplePattern) (present : leaf ∈ leaves) (side : Side) :
    row.cell (leaf.1.column side) = (JoinTree.nodeAt leaf side).value (.ofRow bound row) := by
  cases node : JoinTree.nodeAt leaf side with
  | node n => exact holds_fixed.mp (holds _ (pinned.constants leaf present side n node))
  | «variable» v =>
    obtain ⟨primary, looked, why⟩ := pinned.equated leaf present side v node
    simp only [NodePattern.value, Assignment.ofRow, looked, Option.bind_some]
    rcases why with rfl | equal
    · rfl
    · obtain ⟨text, one, two⟩ := holds_linked.mp (holds _ equal)
      rw [one, two]

theorem fits_of_nodes
    (nodes : ∀ leaf ∈ leaves, ∀ side,
      row.cell (leaf.1.column side) = (JoinTree.nodeAt leaf side).value σ) :
    σ.Fits row (leaves.flatMap JoinTree.leafVariables) := by
  intro name column member
  obtain ⟨leaf, present, held⟩ := List.mem_flatMap.mp member
  obtain ⟨side, v, node, rfl, rfl⟩ := JoinTree.mem_leafVariables.mp held
  rw [nodes leaf present side, node]
  rfl

end fits

namespace Assignment

variable {db : Database} {tables : TableMap} {σ : Assignment} {row : Row}
  {leaves : List (Relation × TriplePattern)} {leaf : Relation × TriplePattern}

def Picks (db : Database) (σ : Assignment) (leaf : Relation × TriplePattern) : Prop :=
  ∃ pair ∈ db.rows leaf.1.name, ∀ side, (JoinTree.nodeAt leaf side).value σ = some (side.pick pair)

theorem picks_iff_meets (named : Growth.Named tables leaf) :
    σ.Picks db leaf ↔ σ.Meets db tables leaf.2 := by
  obtain ⟨predicate, mapped, table⟩ := named
  constructor
  · intro picks
    obtain ⟨pair, member, sides⟩ := picks
    exact ⟨predicate, mapped, pair, table ▸ member, sides .subject, sides .object⟩
  · intro meets
    obtain ⟨other, same, pair, member, subject, object⟩ := meets
    cases mapped.symm.trans same
    refine ⟨pair, table ▸ member, ?_⟩
    intro side
    cases side with
    | subject => exact subject
    | object => exact object

theorem picks_of_nodes (apart : (leaves.map (·.1.aliasName)).Nodup)
    (member : row ∈ db.combinations leaves)
    (nodes : ∀ leaf ∈ leaves, ∀ side,
      row.cell (leaf.1.column side) = (JoinTree.nodeAt leaf side).value σ)
    (present : leaf ∈ leaves) : σ.Picks db leaf := by
  obtain ⟨pair, held, found⟩ := Database.pair_of_combination apart member present
  refine ⟨pair, held, ?_⟩
  intro side
  rw [← nodes leaf present side]
  exact Database.cell_of_lookup found side

theorem row_cons_of_pair {pair : String × String}
    (sides : ∀ side, (JoinTree.nodeAt leaf side).value σ = some (side.pick pair)) :
    σ.row (leaf :: leaves) = (leaf.1.aliasName, some pair) :: σ.row leaves := by
  have subject : leaf.2.subject.value σ = some pair.1 := sides .subject
  have object : leaf.2.object.value σ = some pair.2 := sides .object
  simp [row, subject, object]

theorem row_mem_combinations (picks : ∀ leaf ∈ leaves, σ.Picks db leaf) :
    σ.row leaves ∈ db.combinations leaves := by
  induction leaves with
  | nil => exact Multiset.mem_singleton_self _
  | cons first rest ih =>
    obtain ⟨pair, member, sides⟩ := picks first (by simp)
    have later := ih fun leaf present => picks leaf (by simp [present])
    exact Database.mem_combinations_cons.mpr ⟨pair, member, _, later, row_cons_of_pair sides⟩

theorem eq_row_of_nodes (apart : (leaves.map (·.1.aliasName)).Nodup)
    (member : row ∈ db.combinations leaves)
    (nodes : ∀ leaf ∈ leaves, ∀ side,
      row.cell (leaf.1.column side) = (JoinTree.nodeAt leaf side).value σ) :
    row = σ.row leaves := by
  induction leaves generalizing row with
  | nil => exact Multiset.mem_singleton.mp member
  | cons first rest ih =>
    obtain ⟨pair, _, tail, later, rfl⟩ := Database.mem_combinations_cons.mp member
    obtain ⟨fresh, apart⟩ := List.nodup_cons.mp apart
    have sides : ∀ side, (JoinTree.nodeAt first side).value σ = some (side.pick pair) := by
      intro side
      rw [← nodes first (by simp) side]
      exact Database.cell_of_lookup (by simp) side
    rw [row_cons_of_pair sides, ← ih apart later]
    intro leaf present side
    rw [← nodes leaf (by simp [present]) side, Row.cell_tail fresh present]

theorem cell_row (apart : (leaves.map (·.1.aliasName)).Nodup)
    (picks : ∀ leaf ∈ leaves, σ.Picks db leaf) (present : leaf ∈ leaves) (side : Side) :
    (σ.row leaves).cell (leaf.1.column side) = (JoinTree.nodeAt leaf side).value σ := by
  induction leaves with
  | nil => cases present
  | cons first rest ih =>
    obtain ⟨fresh, apart⟩ := List.nodup_cons.mp apart
    obtain ⟨pair, member, sides⟩ := picks first (by simp)
    rw [row_cons_of_pair sides]
    rcases List.mem_cons.mp present with rfl | present
    · rw [sides side]
      exact Database.cell_of_lookup (by simp) side
    · rw [← ih apart (fun leaf present => picks leaf (by simp [present])) present]
      exact Row.cell_tail fresh present side

end Assignment

end GraphSql
