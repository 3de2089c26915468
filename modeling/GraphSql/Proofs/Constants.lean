import GraphSql.Proofs.Scope
import GraphSql.Proofs.Sessions
import GraphSql.Proofs.Sql.Literals

namespace GraphSql
open Sql

-- The constants of a query are the literals of its statement: whatever is in them, none ends before
-- its own end, and each can be read back.

namespace NodePattern

def constants : NodePattern → List Node
  | .variable _ => []
  | .node n => [n]

end NodePattern

def TriplePattern.constants (t : TriplePattern) : List Node :=
  t.subject.constants ++ t.object.constants

def Filter.constants (f : Filter) : List Node := f.left.constants ++ f.right.constants

def Element.constants (e : Element) : List Node :=
  e.triples.flatMap TriplePattern.constants ++ e.filters.flatMap Filter.constants

def Query.constants (q : Query) : List Node := (q.required ++ q.optional).flatMap Element.constants

def Plan.values : Plan → List String
  | .empty => []
  | .select statement => statement.values

section names

theorem quoteless_repr (n : Nat) : Quoteless n.repr := by
  intro member
  rw [Nat.toList_repr] at member
  have digit := Nat.isDigit_of_mem_toDigits (by decide) (by decide) member
  cases digit

theorem quoteless_numbered {base : String} (quoteless : Quoteless base) (uses : Nat) :
    Quoteless (Aliases.numbered base uses) := by
  unfold Aliases.numbered
  split
  next => exact quoteless
  next => exact (quoteless.append (by decide)).append (quoteless_repr uses)

theorem TableMap.mem_of_table? {tables : TableMap} {predicate : Iri} {table : String}
    (found : tables.table? predicate = some table) : ∃ entry ∈ tables, entry.2 = table := by
  obtain ⟨before, after, rfl, -⟩ := List.lookup_eq_some_iff.mp found
  exact ⟨(predicate, table), by simp, rfl⟩

theorem Issued.quoteless {tables : TableMap} {relation : Relation}
    (quoteless : ∀ entry ∈ tables, Quoteless entry.2) (issued : Issued tables relation) :
    Quoteless relation.name ∧ Quoteless relation.aliasName := by
  obtain ⟨a, predicate, rfl, rfl⟩ := issued
  unfold Aliases.relation
  split
  next table found =>
    obtain ⟨entry, member, rfl⟩ := TableMap.mem_of_table? found
    exact ⟨quoteless entry member, quoteless_numbered (quoteless entry member) _⟩
  next =>
    have empty : Quoteless emptyRelation := by decide
    exact ⟨empty, quoteless_numbered (Quoteless.append (by decide) (quoteless_repr _)) _⟩

end names

section values

variable {held : Bindings} {leaves : List (Relation × TriplePattern)} {filters : Filter → Prop}
  {c : Condition} {text : String}

theorem Reads.values {node : NodePattern} {operand : Operand} (reads : Reads held node operand)
    (used : text ∈ operand.values) : ∃ n ∈ node.constants, text = n.display := by
  cases reads with
  | column at_ => cases used
  | value => exact ⟨_, List.mem_singleton_self _, List.mem_singleton.mp used⟩

theorem Expresses.values {f : Filter} (expressed : Expresses held f c) (used : text ∈ c.values) :
    ∃ n ∈ f.constants, text = n.display := by
  rcases List.mem_append.mp used with left | right
  · obtain ⟨n, member, same⟩ := expressed.left.values left
    exact ⟨n, List.mem_append_left _ member, same⟩
  · obtain ⟨n, member, same⟩ := expressed.right.values right
    exact ⟨n, List.mem_append_right _ member, same⟩

theorem Justified.values (justified : Justified held leaves filters c) (used : text ∈ c.values) :
    ∃ n, text = n.display ∧
      ((∃ leaf ∈ leaves, n ∈ leaf.2.constants) ∨ ∃ f, filters f ∧ n ∈ f.constants) := by
  cases justified with
  | same one two => cases used
  | constant member node =>
    rename_i leaf side n
    refine ⟨n, List.mem_singleton.mp used, .inl ⟨leaf, member, ?_⟩⟩
    cases side with
    | subject =>
      rw [JoinTree.nodeAt] at node
      simp [TriplePattern.constants, node, NodePattern.constants]
    | object =>
      rw [JoinTree.nodeAt] at node
      simp [TriplePattern.constants, node, NodePattern.constants]
  | filter member expressed =>
    obtain ⟨n, present, same⟩ := expressed.values used
    exact ⟨n, same, .inr ⟨_, member, present⟩⟩

theorem Justified.operator (justified : Justified held leaves filters c) :
    c.operator = "=" ∨ ∃ f, filters f ∧ c.operator = f.operator := by
  cases justified with
  | same one two => exact .inl rfl
  | constant member node => exact .inl rfl
  | filter member expressed => exact .inr ⟨_, member, expressed.operator⟩

end values

namespace Plan

variable {tables : TableMap} {query : Query} {targets : List String}
  {order : Option (String × SortOrder)} {statement : Select}

theorem mem_of_owned {elements : List Element} {f : Filter} (owned : Owned elements f) :
    ∃ e ∈ elements, f ∈ e.filters := by
  obtain ⟨before, pattern, after, rfl, -, used⟩ := owned
  exact ⟨.pattern pattern, by simp, used⟩

-- Nothing in a statement but its constants has a quote.
theorem quiet_planned (names : ∀ entry ∈ tables, Quoteless entry.2)
    (operators : ∀ e ∈ query.required ++ query.optional, ∀ f ∈ e.filters, Quoteless f.operator)
    (planned : (ofQuery tables query targets order).outcome = .ok (.select statement)) :
    statement.Quiet := by
  obtain ⟨leaves, columns, ordered⟩ := stocked_planned planned
  obtain ⟨full, sourced, tree, has⟩ := sourced_planned planned
  have tableNames : ∀ leaf ∈ statement.source.leaves,
      Quoteless leaf.1.name ∧ Quoteless leaf.1.aliasName :=
    fun leaf member => (leaves leaf member).1.quoteless names
  have aliasNames : ∀ name ∈ statement.source.aliases, Quoteless name := by
    intro name member
    obtain ⟨leaf, present, rfl⟩ := List.mem_map.mp member
    exact (tableNames leaf present).2
  have same : full.leaves = statement.source.leaves := by simp [Progress.leaves, tree]
  have conditions : ∀ c ∈ statement.source.conditions ++ statement.conditions, c.Quiet := by
    intro c member
    have justified := sourced.sound c ((has c).mpr member)
    constructor
    · rcases justified.operator with equal | ⟨f, owned, equal⟩
      · rw [equal]
        decide
      · obtain ⟨e, present, used⟩ := mem_of_owned owned
        rw [equal]
        exact operators e present f used
    · intro column used
      apply aliasNames
      rw [JoinTree.aliases, ← same]
      rcases justified.columns used with ⟨name, held⟩ | ⟨leaf, present, table⟩
      · exact JoinTree.table_of_leaves held
      · exact table ▸ List.mem_map.mpr ⟨leaf, present, rfl⟩
  exact ⟨fun column member => aliasNames _ (columns column member),
    ⟨tableNames, fun c member => conditions c (List.mem_append_left _ member)⟩,
    fun c member => conditions c (List.mem_append_right _ member),
    fun column direction same => aliasNames _ (ordered column direction same)⟩

theorem values_planned
    (planned : (ofQuery tables query targets order).outcome = .ok (.select statement)) :
    ∀ text ∈ statement.values, ∃ n ∈ query.constants, n.display = text := by
  obtain ⟨leaves, -⟩ := stocked_planned planned
  obtain ⟨full, sourced, tree, has⟩ := sourced_planned planned
  have same : full.leaves = statement.source.leaves := by simp [Progress.leaves, tree]
  intro text member
  obtain ⟨c, present, used⟩ := List.mem_flatMap.mp member
  have justified := sourced.sound c ((has c).mpr present)
  rw [same] at justified
  obtain ⟨n, rfl, ⟨leaf, within, constant⟩ | ⟨f, owned, constant⟩⟩ := justified.values used
  · obtain ⟨-, e, among, triple⟩ := leaves leaf within
    refine ⟨n, List.mem_flatMap.mpr ⟨e, among, List.mem_append_left _ ?_⟩, rfl⟩
    exact List.mem_flatMap.mpr ⟨leaf.2, triple, constant⟩
  · obtain ⟨e, among, filter⟩ := mem_of_owned owned
    refine ⟨n, List.mem_flatMap.mpr ⟨e, among, List.mem_append_right _ ?_⟩, rfl⟩
    exact List.mem_flatMap.mpr ⟨f, filter, constant⟩

theorem exists_constants {texts : List String} {constants : List Node}
    (each : ∀ text ∈ texts, ∃ n ∈ constants, n.display = text) :
    ∃ nodes : List Node, nodes.map Node.display = texts ∧ ∀ n ∈ nodes, n ∈ constants := by
  induction texts with
  | nil => exact ⟨[], rfl, by simp⟩
  | cons text rest ih =>
    obtain ⟨n, member, same⟩ := each text (by simp)
    obtain ⟨nodes, others, among⟩ := ih fun text later => each text (by simp [later])
    exact ⟨n :: nodes, by simp [same, others], by simpa [member] using among⟩

end Plan

namespace Session

theorem compile_ok {tables : TableMap} {query : Query} {targets : List String}
    {ordering : Option (String × Bool)} {dialect : Dialect} {result : Compiled}
    (compiled : (compile tables query targets ordering dialect).outcome = .ok result) :
    ∃ plan, result.statements = [plan.render dialect] ∧
      (Plan.ofQuery tables query result.targets (ordering.map fun entry =>
        (Variable.bareName entry.1, .ofDescending entry.2))).outcome = .ok plan := by
  rw [compile_outcome] at compiled
  obtain ⟨names, -, compiled⟩ := bind_ok_iff.mp compiled
  obtain ⟨order, chosen, compiled⟩ := bind_ok_iff.mp compiled
  obtain ⟨plan, planned, done⟩ := bind_ok_iff.mp compiled
  cases done
  rw [chosenOrder_ok (mapError_ok.mp chosen)] at planned
  exact ⟨plan, rfl, planned⟩

theorem literals_compile {tables : TableMap} {query : Query} {targets : List String}
    {ordering : Option (String × Bool)} {dialect : Dialect} {result : Compiled}
    (names : ∀ entry ∈ tables, Quoteless entry.2)
    (operators : ∀ e ∈ query.required ++ query.optional, ∀ f ∈ e.filters, Quoteless f.operator)
    (compiled : (compile tables query targets ordering dialect).outcome = .ok result) :
    ∃ plan, result.statements = [plan.render dialect] ∧
      (Plan.ofQuery tables query result.targets (ordering.map fun entry =>
        (Variable.bareName entry.1, .ofDescending entry.2))).outcome = .ok plan ∧
      literals dialect (plan.render dialect) = some plan.values ∧
      ∃ constants : List Node, plan.values = constants.map Node.display ∧
        ∀ n ∈ constants, n ∈ query.constants ∧ NTriples.readNode n.display.toList = .ok n := by
  obtain ⟨plan, same, planned⟩ := compile_ok compiled
  refine ⟨plan, same, planned, ?_⟩
  cases plan with
  | empty =>
    have text : Quoteless "SELECT 1 WHERE 1=0" := by decide
    exact ⟨literals_of_quoteless dialect text, [], rfl, by simp⟩
  | select statement =>
    obtain ⟨constants, display, among⟩ := Plan.exists_constants (Plan.values_planned planned)
    refine ⟨(Plan.quiet_planned names operators planned).literals dialect, constants,
      display.symm, ?_⟩
    intro n member
    refine ⟨among n member, ?_⟩
    rw [Node.display, String.toList_ofList]
    exact NTriples.readNode_chars n

end Session

namespace Names

def named : Iri := ⟨"urn:named", by decide +kernel⟩

def styled : Iri := ⟨"urn:styled", by decide +kernel⟩

def bearer : Variable := ⟨"bearer", by decide +kernel⟩

def style : Variable := ⟨"style", by decide +kernel⟩

def irish : Node := .tagged "O'Hara \\" ⟨"En-ie", by decide⟩

def hostile : Node := .plain "\\' OR \"1\"='1"

def tables : TableMap := [(named, "names"), (styled, "styles")]

def query : Query :=
  ⟨[.pattern (((GraphPattern.empty.addTriple ⟨.variable bearer, .iri named, .node irish⟩).addTriple
      ⟨.variable bearer, .iri styled, .variable style⟩).addFilter
      (.ofSides (.variableNode style hostile) "<>"))], []⟩

def compiled : Compiled where
  statements :=
    ["SELECT names.s FROM names JOIN styles" ++
      " ON (names.s = styles.s AND styles.o <> '\"\\\\\\\\'' OR \\\\\"1\\\\\"=''1\"')" ++
      " WHERE names.o = '\"O''Hara \\\\\\\\\"@En-ie' ORDER BY names.s DESC"]
  targets := ["bearer"]
  dialect := .mysql

theorem quoteless_tables : ∀ entry ∈ tables, Quoteless entry.2 := by decide

theorem quoteless_operators :
    ∀ e ∈ query.required ++ query.optional, ∀ f ∈ e.filters, Quoteless f.operator := by
  decide +kernel

theorem compiles :
    (Session.compile tables query ["?bearer"] (some ("bearer", true)) .mysql).outcome =
      .ok compiled := by
  decide +kernel

end Names

theorem Session.literals_compile_names :
    (∀ entry ∈ Names.tables, Quoteless entry.2) ∧
      (∀ e ∈ Names.query.required ++ Names.query.optional, ∀ f ∈ e.filters,
        Quoteless f.operator) ∧
      (compile Names.tables Names.query ["?bearer"] (some ("bearer", true)) .mysql).outcome =
        .ok Names.compiled ∧
      ∃ plan, Names.compiled.statements = [plan.render .mysql] ∧
        (Plan.ofQuery Names.tables Names.query Names.compiled.targets
          ((some ("bearer", true)).map fun entry =>
            (Variable.bareName entry.1, .ofDescending entry.2))).outcome = .ok plan ∧
        literals .mysql (plan.render .mysql) = some plan.values ∧
        ∃ constants : List Node, plan.values = constants.map Node.display ∧
          ∀ n ∈ constants, n ∈ Names.query.constants ∧
            NTriples.readNode n.display.toList = .ok n :=
  ⟨Names.quoteless_tables, Names.quoteless_operators, Names.compiles,
    literals_compile Names.quoteless_tables Names.quoteless_operators Names.compiles⟩

end GraphSql
