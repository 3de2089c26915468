import Mathlib.Control.Monad.Basic
import GraphSql.Proofs.Planning.Optional

namespace GraphSql
open Sql

-- Which triples of an optional element have a table in the operand of the element's left join:
-- those that no required element has, and no optional element before it.

def Occurs (elements : List Element) (t : TriplePattern) : Prop :=
  ∃ e ∈ elements, ∃ u ∈ e.triples, u.Same t

def Branch.Backs (b : Branch) (t : TriplePattern) : Prop := ∃ leaf ∈ b.leaves, leaf.2.Same t

def Independent (required : List Element) (bs : List Branch) : Prop :=
  ∀ b ∈ bs, ∀ t ∈ b.pattern.triples, Occurs required t ∨ b.Backs t

structure Divided (query : Query) (source core : JoinTree) (bs : List Branch) : Prop where
  source : source = core.branches bs
  optional : query.optional = bs.map Branch.element
  inner : core.IsInner
  required : ∀ leaf ∈ core.leaves, ∃ e ∈ query.required, leaf.2 ∈ e.triples
  operands : ∀ b ∈ bs, ∀ member on, b.joined = some (member, on) → member.IsInner
  among : ∀ b ∈ bs, ∀ leaf ∈ b.leaves, leaf.2 ∈ b.pattern.triples

theorem occurs_append {first second : List Element} {t : TriplePattern} :
    Occurs (first ++ second) t ↔ Occurs first t ∨ Occurs second t := by
  simp only [Occurs, List.mem_append, or_and_right, exists_or]

theorem mem_ownTriples {before : List Element} {pattern : GraphPattern} {t : TriplePattern}
    (member : t ∈ pattern.triples) :
    t.folded ∈ ownTriples before pattern ↔ ¬ Occurs before t := by
  simp only [ownTriples, mem_distinct, List.mem_filter, decide_eq_true_eq, List.mem_flatMap,
    List.mem_map, Occurs, TriplePattern.Same]
  constructor
  · exact fun both => both.2
  · exact fun fresh => ⟨⟨t, member, rfl⟩, fresh⟩

namespace Plan

variable {tables : TableMap} {required : List Element} {base p next : Progress} {bs : List Branch}
  {pattern : GraphPattern} {bound : Bindings} {s : PlanState} {init member : JoinTree} {b : Branch}

structure Operand (before : List Element) (b : Branch) : Prop where
  own : (b.leaves.map (·.2.folded)).Perm (ownTriples before b.pattern)
  among : ∀ leaf ∈ b.leaves, leaf.2 ∈ b.pattern.triples
  inner : ∀ member on, b.joined = some (member, on) → member.IsInner

theorem Operand.backs_iff {before : List Element} (operand : Operand before b) {t : TriplePattern}
    (used : t ∈ b.pattern.triples) : b.Backs t ↔ ¬ Occurs before t := by
  rw [← mem_ownTriples used, ← operand.own.mem_iff, List.mem_map]
  rfl

-- What is known of all operands once the optional elements of `bs` are planned. Unlike `Allowed`,
-- this holds even if two tables have one alias.
structure Operands (tables : TableMap) (required : List Element) (base : Progress)
    (bs : List Branch) (p : Progress) : Prop
    extends Outline tables (required ++ bs.map Branch.element) p where
  tree : p.tree = base.tree.map (·.branches bs)
  operand : ∀ earlier b later, bs = earlier ++ b :: later →
    Operand (required ++ earlier.map Branch.element) b

theorem Operands.concat (operands : Operands tables required base bs p)
    (outline : Outline tables (required ++ bs.map Branch.element ++ [b.element]) next)
    (tree : next.tree = base.tree.map (·.branches (bs ++ [b])))
    (last : Operand (required ++ bs.map Branch.element) b) :
    Operands tables required base (bs ++ [b]) next := by
  refine ⟨?_, tree, splits_concat operands.operand last⟩
  rwa [List.map_append, ← List.append_assoc]

theorem Operands.step {element : Element} (operands : Operands tables required base bs p)
    (added : (addOptional p element).outcome = .ok next) :
    ∃ b, element = b.element ∧ Operands tables required base (bs ++ [b]) next := by
  obtain ⟨pattern, init, found, s, bound, rfl, held, run, rfl⟩ := addOptional_exact.mp added
  have outline := operands.toOutline.allow held run
  cases found with
  | none =>
    have tree : (p.allow init none s bound).tree =
        base.tree.map (·.branches (bs ++ [⟨pattern, none⟩])) := by
      rw [show (p.allow init none s bound).tree = p.tree from rfl, operands.tree]
      simp [JoinTree.branches_concat, JoinTree.branch]
    refine ⟨⟨pattern, none⟩, rfl, operands.concat outline tree ⟨?_, ?_, ?_⟩⟩
    · simp [Branch.leaves, operands.toOutline.ownTriples_nil run]
    · simp [Branch.leaves]
    · simp
  | some member =>
    obtain ⟨left, grown, -⟩ := run.founded operands.tidy
    refine ⟨branchOf pattern init member p.required s, rfl,
      operands.concat outline (tree_allow operands.tree held) ⟨?_, grown.among, ?_⟩⟩
    · exact operands.toOutline.own_leaves run
    · intro other on same
      cases same
      exact grown.inner

theorem Operands.run {elements : List Element} (operands : Operands tables required base bs p)
    (run : (addEach addOptional p elements).outcome = .ok next) :
    ∃ more, elements = more.map Branch.element ∧
      Operands tables required base (bs ++ more) next := by
  have kept : ∀ done p element next,
      (∃ more, done = more.map Branch.element ∧ Operands tables required base (bs ++ more) p) →
      (addOptional p element).outcome = .ok next →
      ∃ more, done ++ [element] = more.map Branch.element ∧
        Operands tables required base (bs ++ more) next := by
    intro done p element next before added
    obtain ⟨more, rfl, operands⟩ := before
    obtain ⟨b, rfl, operands⟩ := operands.step added
    exact ⟨more ++ [b], by simp, by rwa [← List.append_assoc]⟩
  exact addEach_keeps kept ⟨[], rfl, by rwa [List.append_nil]⟩ run

theorem operands_run {elements : List Element} (known : Required tables required base)
    (run : (addEach addOptional base.turn elements).outcome = .ok p) :
    ∃ bs, elements = bs.map Branch.element ∧ Operands tables required base bs p := by
  have start : Operands tables required base [] base.turn := by
    refine ⟨?_, ?_, by simp⟩
    · rw [List.map_nil, List.append_nil]
      exact known.toOutline.turn
    · cases tree : base.tree <;> simp [Progress.turn, tree, JoinTree.branches]
  exact start.run run

theorem Operands.divided {query : Query} {source core : JoinTree}
    (operands : Operands tables query.required base bs p)
    (known : Required tables query.required base)
    (optional : query.optional = bs.map Branch.element) (first : base.tree = some core)
    (whole : p.tree = some source) : Divided query source core bs := by
  have operand : ∀ b ∈ bs, ∃ before, Operand before b := by
    intro b present
    obtain ⟨earlier, later, split⟩ := List.append_of_mem present
    exact ⟨_, operands.operand earlier b later split⟩
  have tree := operands.tree
  rw [whole, first, Option.map_some, Option.some.injEq] at tree
  refine ⟨tree, optional, known.inner core first, ?_, ?_, ?_⟩
  · intro leaf present
    exact known.toOutline.among leaf (by simpa [Progress.leaves, first] using present)
  · intro b present
    obtain ⟨_, operand⟩ := operand b present
    exact operand.inner
  · intro b present
    obtain ⟨_, operand⟩ := operand b present
    exact operand.among

theorem operands_planned {query : Query} {targets : List String}
    {order : Option (String × SortOrder)} {statement : Select}
    (planned : (ofQuery tables query targets order).outcome = .ok (.select statement)) :
    ∃ core bs, Divided query statement.source core bs ∧
      ∀ earlier b later, bs = earlier ++ b :: later →
        Operand (query.required ++ earlier.map Branch.element) b := by
  obtain ⟨base, full, first, later, whole, -⟩ := ofQuery_select.mp planned
  have known := required_run first
  obtain ⟨bs, optional, operands⟩ := operands_run known later
  cases core : base.tree with
  | none =>
    have tree := operands.tree
    rw [whole, core] at tree
    cases tree
  | some core' => exact ⟨core', bs, operands.divided known optional core whole, operands.operand⟩

end Plan

-- A triple of an optional element has a table in the operand of the element exactly if no required
-- element and no earlier optional element has the triple. So optional elements are independent of
-- one another exactly if they share no triples but those of required elements.
theorem backs_iff_not_occurs_before {tables : TableMap} {query : Query} {targets : List String}
    {order : Option (String × SortOrder)} {statement : Select}
    (planned : (Plan.ofQuery tables query targets order).outcome = .ok (.select statement)) :
    ∃ core bs, Divided query statement.source core bs ∧
      (∀ earlier b later, bs = earlier ++ b :: later → ∀ t ∈ b.pattern.triples,
        (b.Backs t ↔ ¬ Occurs (query.required ++ earlier.map Branch.element) t)) ∧
      (Independent query.required bs ↔
        ∀ earlier b later, bs = earlier ++ b :: later → ∀ t ∈ b.pattern.triples,
          Occurs (earlier.map Branch.element) t → Occurs query.required t) := by
  obtain ⟨core, bs, divided, operand⟩ := Plan.operands_planned planned
  have backs : ∀ earlier b later, bs = earlier ++ b :: later → ∀ t ∈ b.pattern.triples,
      (b.Backs t ↔ ¬ Occurs (query.required ++ earlier.map Branch.element) t) :=
    fun earlier b later split t used => (operand earlier b later split).backs_iff used
  refine ⟨core, bs, divided, backs, ?_⟩
  constructor
  · intro independent earlier b later split t used early
    rcases independent b (by simp [split]) t used with first | backed
    · exact first
    · exact absurd (occurs_append.mpr (.inr early)) ((backs earlier b later split t used).mp backed)
  · intro apart b present t used
    obtain ⟨earlier, later, split⟩ := List.append_of_mem present
    by_cases first : Occurs query.required t
    · exact .inl first
    · refine .inr ((backs earlier b later split t used).mpr ?_)
      intro before
      rcases occurs_append.mp before with early | early
      · exact first early
      · exact first (apart earlier b later split t used early)

namespace Homes

def born : Iri := ⟨"urn:born", by decide +kernel⟩

def home : Iri := ⟨"urn:home", by decide +kernel⟩

def city : Iri := ⟨"urn:city", by decide +kernel⟩

def tables : TableMap := [(born, "born"), (home, "home"), (city, "city")]

def person : Variable := ⟨"person", by decide +kernel⟩

def date : Variable := ⟨"date", by decide +kernel⟩

def place : Variable := ⟨"place", by decide +kernel⟩

def town : Variable := ⟨"town", by decide +kernel⟩

def birth : TriplePattern := ⟨.variable person, .iri born, .variable date⟩

def housing : TriplePattern := ⟨.variable person, .iri home, .variable place⟩

def location : TriplePattern := ⟨.variable place, .iri city, .variable town⟩

def query : Query :=
  ⟨[.pattern (GraphPattern.empty.addTriple birth)],
    [.pattern (GraphPattern.empty.addTriple housing),
      .pattern ((GraphPattern.empty.addTriple housing).addTriple location)]⟩

def statement : Select where
  columns := [⟨"born", .subject⟩, ⟨"city", .object⟩]
  source := .join
    (.join (.table ⟨"born", "born"⟩ birth) .left (.table ⟨"home", "home"⟩ housing)
      [linked ⟨"born", .subject⟩ ⟨"home", .subject⟩])
    .left (.table ⟨"city", "city"⟩ location) []
  conditions := []
  order := none

theorem planned :
    (Plan.ofQuery tables query ["person", "town"] none).outcome = .ok (.select statement) := by
  decide +kernel

theorem not_backs_housing {rest : JoinTree} {last : Branch}
    (source : statement.source = rest.branch last) : ¬ last.Backs housing := by
  intro backs
  obtain ⟨leaf, present, same⟩ := backs
  obtain ⟨pattern, joined⟩ := last
  cases joined with
  | none => cases present
  | some joined =>
    obtain ⟨member, on⟩ := joined
    cases source
    cases List.mem_singleton.mp present
    revert same
    decide +kernel

end Homes

theorem backs_iff_not_occurs_before_homes :
    (Plan.ofQuery Homes.tables Homes.query ["person", "town"] none).outcome =
        .ok (.select Homes.statement) ∧
      ∃ core bs, Divided Homes.query Homes.statement.source core bs ∧
        (∀ earlier b later, bs = earlier ++ b :: later → ∀ t ∈ b.pattern.triples,
          (b.Backs t ↔ ¬ Occurs (Homes.query.required ++ earlier.map Branch.element) t)) ∧
        (Independent Homes.query.required bs ↔
          ∀ earlier b later, bs = earlier ++ b :: later → ∀ t ∈ b.pattern.triples,
            Occurs (earlier.map Branch.element) t → Occurs Homes.query.required t) :=
  ⟨Homes.planned, backs_iff_not_occurs_before Homes.planned⟩

theorem not_independent_of_planned :
    ¬ ∀ (tables : TableMap) (query : Query) (targets : List String)
        (order : Option (String × SortOrder)) (statement : Select),
      (Plan.ofQuery tables query targets order).outcome = .ok (.select statement) →
        ∃ core bs, Divided query statement.source core bs ∧ Independent query.required bs := by
  intro all
  obtain ⟨core, bs, divided, independent⟩ := all _ _ _ _ _ Homes.planned
  obtain ⟨first, rest, rfl, -, later⟩ := List.map_eq_cons_iff.mp divided.optional.symm
  obtain ⟨last, none, rfl, same, empty⟩ := List.map_eq_cons_iff.mp later
  cases List.map_eq_nil_iff.mp empty
  have used : Homes.housing ∈ last.pattern.triples := by
    obtain ⟨pattern, joined⟩ := last
    cases same
    exact List.mem_cons_self
  rcases independent last (by simp) Homes.housing used with early | backs
  · obtain ⟨e, present, u, used, same⟩ := early
    cases List.mem_singleton.mp present
    cases List.mem_singleton.mp used
    revert same
    decide +kernel
  · exact Homes.not_backs_housing divided.source backs

end GraphSql
