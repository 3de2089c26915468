import Mathlib.Data.List.Basic
import Mathlib.Data.List.Count
import GraphSql.Plan

namespace GraphSql
open Sql

-- Renaming the variables and the predicates of a query.

structure Renaming where
  toVariable : String → Variable
  toPredicate : Iri → Iri

namespace Renaming

variable (r : Renaming)

def name (name : String) : String := (r.toVariable name).name

def var (v : Variable) : Variable := r.toVariable v.name

def node : NodePattern → NodePattern
  | .variable v => .variable (r.var v)
  | .node n => .node n

def predicate : PredicatePattern → PredicatePattern
  | .variable v => .variable (r.var v)
  | .iri p => .iri (r.toPredicate p)

def triple (t : TriplePattern) : TriplePattern :=
  ⟨r.node t.subject, r.predicate t.predicate, r.node t.object⟩

def sides : FilterSides → FilterSides
  | .variableNode v n => .variableNode (r.var v) n
  | .nodeVariable n v => .nodeVariable n (r.var v)
  | .variablePair v w => .variablePair (r.var v) (r.var w)

def filter (f : Filter) : Filter := { f with sides := r.sides f.sides }

def pattern (p : GraphPattern) : GraphPattern :=
  (p.filters.map r.filter).foldl GraphPattern.addFilter
    { GraphPattern.empty with triples := p.triples.map r.triple }

mutual

def element : Element → Element
  | .pattern p => .pattern (r.pattern p)
  | .subquery required optional => .subquery (elements required) (elements optional)

def elements : List Element → List Element
  | [] => []
  | e :: rest => element e :: elements rest

end

def query (q : Query) : Query := ⟨r.elements q.required, r.elements q.optional⟩

def tables (tables : TableMap) : TableMap :=
  tables.map fun entry => (r.toPredicate entry.1, entry.2)

def order (order : Option (String × SortOrder)) : Option (String × SortOrder) :=
  order.map fun entry => (r.name entry.1, entry.2)

structure Injective : Prop where
  toVariable : Function.Injective r.toVariable
  toPredicate : Function.Injective r.toPredicate

variable {r}

theorem Injective.name (injective : r.Injective) : Function.Injective r.name := by
  intro a b same
  apply injective.toVariable
  cases one : r.toVariable a
  cases two : r.toVariable b
  simp only [Renaming.name, one, two] at same
  subst same
  rfl

theorem Injective.var (injective : r.Injective) : Function.Injective r.var := by
  intro a b same
  have names := injective.toVariable same
  cases a
  cases b
  cases names
  rfl

theorem Injective.node (injective : r.Injective) : Function.Injective r.node := by
  intro a b same
  cases a <;> cases b <;> simp only [Renaming.node, NodePattern.variable.injEq,
    NodePattern.node.injEq, reduceCtorEq] at same
  · rw [injective.var same]
  · rw [same]

theorem Injective.predicate (injective : r.Injective) : Function.Injective r.predicate := by
  intro a b same
  cases a <;> cases b <;> simp only [Renaming.predicate, PredicatePattern.variable.injEq,
    PredicatePattern.iri.injEq, reduceCtorEq] at same
  · rw [injective.var same]
  · rw [injective.toPredicate same]

theorem Injective.triple (injective : r.Injective) : Function.Injective r.triple := by
  intro a b same
  obtain ⟨s, p, o⟩ := a
  obtain ⟨s', p', o'⟩ := b
  simp only [Renaming.triple, TriplePattern.mk.injEq] at same
  rw [injective.node same.1, injective.predicate same.2.1, injective.node same.2.2]

theorem Injective.sides (injective : r.Injective) : Function.Injective r.sides := by
  intro a b same
  cases a <;> cases b <;> simp only [Renaming.sides, FilterSides.variableNode.injEq,
    FilterSides.nodeVariable.injEq, FilterSides.variablePair.injEq, reduceCtorEq] at same
  · rw [injective.var same.1, same.2]
  · rw [same.1, injective.var same.2]
  · rw [injective.var same.1, injective.var same.2]

theorem Injective.filter (injective : r.Injective) : Function.Injective r.filter := by
  intro a b same
  obtain ⟨sides, operator, trimmed⟩ := a
  obtain ⟨sides', operator', trimmed'⟩ := b
  simp only [Renaming.filter, Filter.mk.injEq] at same
  cases injective.sides same.1
  cases same.2
  rfl

theorem predicate_triple (t : TriplePattern) :
    (r.triple t).predicate = r.predicate t.predicate := rfl

@[simp] theorem folded_triple (t : TriplePattern) : (r.triple t).folded = r.triple t.folded := by
  have node : ∀ n : NodePattern, (r.node n).folded = r.node n.folded := by
    intro n
    cases n <;> rfl
  simp [triple, TriplePattern.folded, node]

theorem folded_filter (f : Filter) : (r.filter f).folded = r.filter f.folded := by
  obtain ⟨sides, operator, trimmed⟩ := f
  cases sides <;> rfl

@[simp] theorem triples_pattern (p : GraphPattern) :
    (r.pattern p).triples = p.triples.map r.triple := by
  rw [pattern, GraphPattern.triples_foldl_addFilter]

theorem filters_pattern (injective : r.Injective) (p : GraphPattern) :
    (r.pattern p).filters = p.filters.map r.filter := by
  rw [pattern, GraphPattern.filters_foldl_addFilter]
  · rfl
  · change (p.filters.map r.filter).Pairwise fun a b => ¬ a.Same b
    rw [List.pairwise_map]
    refine p.apart.imp ?_
    intro a b differ same
    rw [Filter.Same, folded_filter, folded_filter] at same
    exact differ (injective.filter same)

end Renaming

end GraphSql
