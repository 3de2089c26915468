import Mathlib.Data.Fintype.EquivFin
import Mathlib.Data.Set.Finite.Basic
import Mathlib.Data.Set.Finite.Range
import Mathlib.Logic.Equiv.List
import GraphSql.Proofs.Renaming.Runs

namespace GraphSql
open Sql

-- The statement of a query does not depend on how its variables and predicates are called.

def PredicatePattern.names : PredicatePattern → List String
  | .variable v => [v.name]
  | .iri _ => []

def PredicatePattern.iris : PredicatePattern → List Iri
  | .variable _ => []
  | .iri p => [p]

namespace Element

def mentions (e : Element) : List String :=
  e.triples.flatMap (fun t => t.names ++ t.predicate.names) ++
    e.filters.flatMap fun f => f.vars.map (·.name)

def predicates (e : Element) : List Iri := e.triples.flatMap (·.predicate.iris)

end Element

namespace Query

def mentions (q : Query) : List String := (q.required ++ q.optional).flatMap Element.mentions

def predicates (q : Query) : List Iri := (q.required ++ q.optional).flatMap Element.predicates

end Query

-- What a statement says, apart from the triples its tables stand for.
structure Sql.Select.Clauses where
  columns : List Column
  source : List Token
  conditions : List Condition
  order : Option (Column × SortOrder)
deriving DecidableEq

def Plan.clauses : Plan → Option Select.Clauses
  | .empty => none
  | .select s => some ⟨s.columns, s.source.tokens, s.conditions, s.order⟩

-- A function that keeps some items apart is part of one that keeps all items apart, if there are
-- enough values.
theorem exists_injective_agreeing {α β : Type} [Countable α] [Infinite β] (f : α → β)
    {items : List α} (apart : ∀ a ∈ items, ∀ b ∈ items, f a = f b → a = b) :
    ∃ g : α → β, Function.Injective g ∧ ∀ a ∈ items, g a = f a := by
  classical
  obtain ⟨code, coded⟩ := Countable.exists_injective_nat α
  have unused : (Set.range fun a : {a // a ∈ items} => f a)ᶜ.Infinite :=
    (Set.finite_range _).infinite_compl
  have := unused.to_subtype
  -- All other items get values that `f` gives to none of `items`.
  let fresh := Infinite.natEmbedding ((Set.range fun a : {a // a ∈ items} => f a)ᶜ : Set β)
  have differs : ∀ a ∈ items, ∀ n, f a ≠ fresh n := by
    intro a member n same
    exact (fresh n).2 ⟨⟨a, member⟩, same⟩
  refine ⟨fun a => if a ∈ items then f a else fresh (code a), ?_, fun a member => if_pos member⟩
  intro a b same
  simp only at same
  split at same
  next here =>
    split at same
    next there => exact apart a here b there same
    next => exact absurd same (differs a here _)
  next =>
    split at same
    next there => exact absurd same.symm (differs b there _)
    next => exact coded (fresh.injective (Subtype.ext same))

instance countableChar : Countable Char :=
  Function.Injective.countable (f := Char.toNat) fun _ _ => Char.toNat_inj.mp

instance countableString : Countable String :=
  Function.Injective.countable (f := String.toList) fun _ _ => String.toList_inj.mp

instance countableIri : Countable Iri :=
  Function.Injective.countable (f := Iri.text) fun a b same => by cases a; cases b; cases same; rfl

def manyNames (n : Nat) : Variable where
  name := String.ofList (List.replicate (n + 1) 'a')
  valid := by
    constructor
    · intro empty
      have length := congrArg (fun text => text.toList.length) empty
      simp at length
    · rw [String.toList_ofList, List.all_eq_true]
      intro c member
      rw [List.eq_of_mem_replicate member]
      decide +kernel

theorem isPathOn_replicate (n : Nat) : Iri.isPathOn (List.replicate n 'a') = true := by
  have coded : Iri.isCoded Iri.isPathChar (List.replicate n 'a') = true := by
    induction n with
    | zero => rfl
    | succ n ih =>
      rw [List.replicate_succ, Iri.isCoded, ih]
      · decide
      · intro _ _ _ same
        cases same
  have keep : Iri.endsPath 'a' = false := by decide
  simp [Iri.isPathOn, keep, coded, Iri.isAfterPath]

def manyPredicates (n : Nat) : Iri where
  text := String.ofList ('a' :: ':' :: List.replicate n 'a')
  absolute := by
    have after : Iri.isAfterScheme (List.replicate n 'a') = true := by
      rw [Iri.isAfterScheme]
      · exact isPathOn_replicate n
      · intro rest same
        cases n <;> cases same
    simp [Iri.isAbsolute, Text.cutAt?, after, Iri.isScheme]

instance infiniteVariable : Infinite Variable :=
  Infinite.of_injective manyNames fun a b same => by
    have length := congrArg (fun v => v.name.toList.length) same
    simpa [manyNames] using length

instance infiniteIri : Infinite Iri :=
  Infinite.of_injective manyPredicates fun a b same => by
    have length := congrArg (fun p => p.text.toList.length) same
    simpa [manyPredicates] using length

namespace Renaming

structure Apart (r : Renaming) (names : List String) (predicates : List Iri) : Prop where
  names : ∀ a ∈ names, ∀ b ∈ names, r.toVariable a = r.toVariable b → a = b
  predicates : ∀ a ∈ predicates, ∀ b ∈ predicates, r.toPredicate a = r.toPredicate b → a = b

structure Agree (r r' : Renaming) (names : List String) (predicates : List Iri) : Prop where
  names : ∀ a ∈ names, r'.toVariable a = r.toVariable a
  predicates : ∀ a ∈ predicates, r'.toPredicate a = r.toPredicate a

theorem exists_injective {r : Renaming} {names : List String} {predicates : List Iri}
    (apart : r.Apart names predicates) : ∃ r', r'.Injective ∧ Agree r r' names predicates := by
  obtain ⟨toVariable, differ, same⟩ := exists_injective_agreeing r.toVariable apart.names
  obtain ⟨toPredicate, differ', same'⟩ :=
    exists_injective_agreeing r.toPredicate apart.predicates
  exact ⟨⟨toVariable, toPredicate⟩, ⟨differ, differ'⟩, ⟨same, same'⟩⟩

variable {r r' : Renaming} {names : List String} {predicates : List Iri}
  (agree : Agree r r' names predicates)

include agree in
theorem Agree.node {n : NodePattern} (within : ∀ name ∈ n.names, name ∈ names) :
    r'.node n = r.node n := by
  cases n with
  | node n => rfl
  | «variable» v => exact congrArg _ (agree.names v.name (within _ List.mem_cons_self))

include agree in
theorem Agree.predicate {p : PredicatePattern} (within : ∀ name ∈ p.names, name ∈ names)
    (among : ∀ iri ∈ p.iris, iri ∈ predicates) : r'.predicate p = r.predicate p := by
  cases p with
  | «variable» v => exact congrArg _ (agree.names v.name (within _ List.mem_cons_self))
  | iri p => exact congrArg _ (agree.predicates p (among _ List.mem_cons_self))

include agree in
theorem Agree.filter {f : Filter} (within : ∀ v ∈ f.vars, v.name ∈ names) :
    r'.filter f = r.filter f := by
  have same : ∀ v ∈ f.vars, r'.var v = r.var v := fun v member => agree.names _ (within v member)
  obtain ⟨sides, operator, trimmed⟩ := f
  cases sides with
  | variableNode v n | nodeVariable n v =>
    simp only [Renaming.filter, Renaming.sides, same v List.mem_cons_self]
  | variablePair v w =>
    simp only [Renaming.filter, Renaming.sides, same v List.mem_cons_self,
      same w (List.mem_cons_of_mem _ List.mem_cons_self)]

include agree in
theorem Agree.pattern {p : GraphPattern}
    (within : ∀ name ∈ (Element.pattern p).mentions, name ∈ names)
    (among : ∀ iri ∈ (Element.pattern p).predicates, iri ∈ predicates) :
    r'.pattern p = r.pattern p := by
  have triples : p.triples.map r'.triple = p.triples.map r.triple := by
    refine List.map_congr_left fun t member => ?_
    have used : ∀ name ∈ t.names ++ t.predicate.names, name ∈ names := fun name member' =>
      within name (List.mem_append_left _ (List.mem_flatMap.mpr ⟨t, member, member'⟩))
    have mapped : ∀ iri ∈ t.predicate.iris, iri ∈ predicates := fun iri member' =>
      among iri (List.mem_flatMap.mpr ⟨t, member, member'⟩)
    simp only [TriplePattern.names, List.mem_append] at used
    simp only [triple]
    rw [agree.node fun name member => used name (.inl (.inl member)),
      agree.node fun name member => used name (.inl (.inr member)),
      agree.predicate (fun name member => used name (.inr member)) mapped]
  have filters : p.filters.map r'.filter = p.filters.map r.filter := by
    refine List.map_congr_left fun f member => agree.filter fun v used => ?_
    refine within v.name (List.mem_append_right _ (List.mem_flatMap.mpr ⟨f, member, ?_⟩))
    exact List.mem_map.mpr ⟨v, used, rfl⟩
  rw [Renaming.pattern, Renaming.pattern, triples, filters]

include agree in
theorem Agree.counterparts {elements : List Element}
    (within : ∀ name ∈ elements.flatMap Element.mentions, name ∈ names)
    (among : ∀ iri ∈ elements.flatMap Element.predicates, iri ∈ predicates) :
    List.Forall₂ r'.Counterpart elements (r.elements elements) := by
  induction elements with
  | nil => exact .nil
  | cons e rest ih =>
    simp only [List.flatMap_cons, List.mem_append] at within among
    refine .cons ?_ (ih (fun name member => within name (.inr member))
      fun iri member => among iri (.inr member))
    cases e with
    | subquery => exact .subquery _ _ _ _
    | pattern p =>
      rw [element, ← agree.pattern (fun name member => within name (.inl member))
        fun iri member => among iri (.inl member)]
      exact .pattern p

end Renaming

theorem clauses_renamed (tables : TableMap) (query : Query) (targets : List String)
    (order : Option (String × SortOrder)) (r : Renaming)
    (apart : r.Apart (query.mentions ++ targets ++ (order.map (·.1)).toList)
      (query.predicates ++ tables.predicates)) :
    relabel PlanError.kind Plan.clauses
        (Plan.ofQuery (r.tables tables) (r.query query) (targets.map r.name)
          (r.order order)).outcome =
      relabel PlanError.kind Plan.clauses (Plan.ofQuery tables query targets order).outcome := by
  obtain ⟨r', injective, agree⟩ := Renaming.exists_injective apart
  have required : List.Forall₂ r'.Counterpart query.required (r.query query).required := by
    refine agree.counterparts ?_ ?_
    · simp +contextual [Query.mentions]
    · simp +contextual [Query.predicates]
  have optional : List.Forall₂ r'.Counterpart query.optional (r.query query).optional := by
    refine agree.counterparts ?_ ?_
    · simp +contextual [Query.mentions]
    · simp +contextual [Query.predicates]
  have keys : r'.tables tables = r.tables tables := by
    refine List.map_congr_left fun entry member => ?_
    rw [agree.predicates entry.1
      (List.mem_append_right _ (List.mem_map.mpr ⟨entry, member, rfl⟩))]
  have names : targets.map r'.name = targets.map r.name := by
    refine List.map_congr_left fun target member => ?_
    rw [Renaming.name, Renaming.name, agree.names target (by simp [member])]
  have direction : r'.order order = r.order order := by
    cases order with
    | none => rfl
    | some target =>
      simp only [Renaming.order, Renaming.name, Option.map_some]
      rw [agree.names target.1 (by simp)]
  have planned := Renaming.ofQuery_counterparts injective required optional tables targets order
  rw [keys, names, direction] at planned
  have clauses : ∀ plan, (r'.plan plan).clauses = plan.clauses := by
    intro plan
    cases plan with
    | empty => rfl
    | select s => simp only [Renaming.plan, Plan.clauses, Renaming.tokens_tree]
  rw [planned, relabel_relabel]
  simp only [Renaming.kind_error, clauses]

-- Three variables in a circle, and two predicates, one of them without a table, that change places.
namespace Circle

def leads : Iri := ⟨"urn:leads", by decide +kernel⟩

def follows : Iri := ⟨"urn:follows", by decide +kernel⟩

def cause : Variable := ⟨"cause", by decide +kernel⟩

def effect : Variable := ⟨"effect", by decide +kernel⟩

def result : Variable := ⟨"result", by decide +kernel⟩

def tables : TableMap := [(leads, "leads")]

def query : Query :=
  ⟨[.pattern (((GraphPattern.empty.addTriple
      ⟨.variable cause, .iri leads, .variable effect⟩).addTriple
      ⟨.variable effect, .iri follows, .variable result⟩).addFilter
      (.ofSides (.variablePair cause result) "<>"))], []⟩

def turned : Renaming where
  toVariable name :=
    if name = "cause" then effect else if name = "effect" then result else cause
  toPredicate p := if p = leads then follows else leads

def clauses : Select.Clauses where
  columns := [⟨"leads", .subject⟩, ⟨"np_0", .object⟩]
  source := [.name "leads", .space, .keyword .JOIN, .space, .name emptyRelation, .space,
    .keyword .AS, .space, .name "np_0", .space, .keyword .ON, .space, .openParen,
    .column "leads" "o", .space, .equals, .space, .column "np_0" "s", .space, .keyword .AND, .space,
    .column "leads" "s", .space, .operator "<>", .space, .column "np_0" "o", .closeParen]
  conditions := []
  order := some (⟨"np_0", .object⟩, .ascending)

theorem apart : turned.Apart
    (query.mentions ++ ["cause", "result"] ++
      ((some ("result", SortOrder.ascending)).map (·.1)).toList)
    (query.predicates ++ tables.predicates) :=
  ⟨by decide +kernel, by decide +kernel⟩

theorem planned :
    relabel PlanError.kind Plan.clauses
      (Plan.ofQuery tables query ["cause", "result"] (some ("result", .ascending))).outcome =
        .ok (some clauses) := by
  decide +kernel

end Circle

theorem clauses_renamed_circle :
    Circle.turned.Apart (Circle.query.mentions ++ ["cause", "result"] ++
        ((some ("result", SortOrder.ascending)).map (·.1)).toList)
        (Circle.query.predicates ++ Circle.tables.predicates) ∧
      relabel PlanError.kind Plan.clauses
        (Plan.ofQuery (Circle.turned.tables Circle.tables) (Circle.turned.query Circle.query)
          (["cause", "result"].map Circle.turned.name)
          (Circle.turned.order (some ("result", .ascending)))).outcome =
        .ok (some Circle.clauses) :=
  ⟨Circle.apart, (clauses_renamed _ _ _ _ Circle.turned Circle.apart).trans Circle.planned⟩

end GraphSql
