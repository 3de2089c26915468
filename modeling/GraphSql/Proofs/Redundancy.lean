import GraphSql.Proofs.Planning.Required
import GraphSql.Proofs.Planning.Spare

namespace GraphSql
open Sql

-- A triple that a required element has already may be repeated: the statement stays the same.

structure GraphPattern.Adds (u : TriplePattern) (p q : GraphPattern) : Prop where
  filters : q.filters = p.filters
  triples : ∃ front back, p.triples = front ++ back ∧ q.triples = front ++ u :: back

structure GraphPattern.Repeats (t u : TriplePattern) (p q : GraphPattern) : Prop where
  filters : q.filters = p.filters
  triples : ∃ front middle back, p.triples = front ++ t :: (middle ++ back) ∧
    q.triples = front ++ t :: (middle ++ u :: back)

namespace Element

inductive Has (t : TriplePattern) : Element → Prop where
  | pattern (member : t ∈ p.triples) : Has t (.pattern p)
  | inRequired (member : e ∈ base) (has : Has t e) : Has t (.subquery base extra)
  | inOptional (member : e ∈ extra) (has : Has t e) : Has t (.subquery base extra)

inductive Adds (u : TriplePattern) : Element → Element → Prop where
  | pattern (adds : GraphPattern.Adds u p q) : Adds u (.pattern p) (.pattern q)
  | inRequired (adds : Adds u e e') :
      Adds u (.subquery (before ++ e :: after) extra) (.subquery (before ++ e' :: after) extra)
  | inOptional (adds : Adds u e e') :
      Adds u (.subquery base (before ++ e :: after)) (.subquery base (before ++ e' :: after))

end Element

inductive Query.Repeats (t u : TriplePattern) : Query → Query → Prop where
  | behind (repeats : GraphPattern.Repeats t u p q) :
      Repeats t u ⟨before ++ .pattern p :: after, extra⟩ ⟨before ++ .pattern q :: after, extra⟩
  | inside (has : Element.Has t (.subquery nested nested'))
      (adds : Element.Adds u (.subquery nested nested') e) :
      Repeats t u ⟨before ++ .subquery nested nested' :: after, extra⟩ ⟨before ++ e :: after, extra⟩
  | later (has : Element.Has t d) (adds : Element.Adds u e e') :
      Repeats t u ⟨before ++ d :: middle ++ e :: after, extra⟩
        ⟨before ++ d :: middle ++ e' :: after, extra⟩
  | optional (member : d ∈ base) (has : Element.Has t d) (adds : Element.Adds u e e') :
      Repeats t u ⟨base, before ++ e :: after⟩ ⟨base, before ++ e' :: after⟩

namespace Plan

variable {tables : TableMap} {done : List Element} {p : Progress} {t u : TriplePattern}
  {e e' : Element}

theorem patternOf_adds (spare : Spare p.state p.required u) (adds : Element.Adds u e e') :
    (∃ error, patternOf e = .error error ∧ patternOf e' = .error error) ∨
      ∃ pattern pattern', patternOf e = .ok pattern ∧ patternOf e' = .ok pattern' ∧
        (planPattern p.state p.required pattern').outcome =
          (planPattern p.state p.required pattern).outcome := by
  cases adds with
  | inRequired => exact .inl ⟨_, rfl, rfl⟩
  | inOptional => exact .inl ⟨_, rfl, rfl⟩
  | pattern adds =>
    obtain ⟨front, back, triples, inserted⟩ := adds.triples
    exact .inr ⟨_, _, rfl, rfl, planPattern_spare spare adds.filters triples inserted⟩

theorem addRequired_adds (spare : Spare p.state p.required u) (adds : Element.Adds u e e') :
    (addRequired p e').outcome = (addRequired p e).outcome := by
  rw [addRequired_outcome, addRequired_outcome]
  rcases patternOf_adds spare adds with ⟨error, old, new⟩ | ⟨pattern, pattern', old, new, same⟩
  · rw [old, new]
  · rw [old, new, ok_bind, ok_bind, same]

theorem addOptional_adds (spare : Spare p.state p.required u) (adds : Element.Adds u e e') :
    (addOptional p e').outcome = (addOptional p e).outcome := by
  rw [addOptional_outcome, addOptional_outcome]
  rcases patternOf_adds spare adds with ⟨error, old, new⟩ | ⟨pattern, pattern', old, new, same⟩
  · rw [old, new]
  · rw [old, new, ok_bind, ok_bind, same]

theorem addEach_replaced {add : Progress → Element → Logged PlanError Progress}
    {before after : List Element}
    (alike : ∀ q, (addEach add p before).outcome = .ok q →
      SameAnswer (add q e').outcome (add q e).outcome) :
    SameAnswer (addEach add p (before ++ e' :: after)).outcome
      (addEach add p (before ++ e :: after)).outcome := by
  rw [addEach_append, addEach_append]
  refine SameAnswer.bind (.of_eq rfl) fun q reached => ?_
  rw [addEach, addEach, Logged.outcome_bind, Logged.outcome_bind]
  exact (alike q reached).bind fun _ _ => .of_eq rfl

theorem Required.joinable (required : Required tables done p) (known : t.folded ∈ p.state.planned) :
    Growth.isJoinable p.required t = true := by
  rw [required.planned] at known
  obtain ⟨leaf, present, same⟩ := List.mem_map.mp known
  rw [isJoinable_same (show t.Same leaf.2 from same.symm), required.bound]
  have subject : isBound (addBindings [] p.held) leaf.2.subject = true := by
    cases node : leaf.2.subject with
    | node n => rfl
    | «variable» v =>
      have held : (v.name, leaf.1.column .subject) ∈ p.held :=
        List.mem_flatMap.mpr
          ⟨leaf, present, JoinTree.mem_leafVariables.mpr ⟨.subject, v, node, rfl, rfl⟩⟩
      rw [isBound, lookup_addBindings, List.lookup_nil, Option.none_or, lookup_isSome_iff]
      exact ⟨_, held⟩
  simp [Growth.isJoinable, subject]

-- Only patterns can be planned, so the triple is in the pattern.
theorem mem_triples_of_has {elements : List Element} {start next : Progress}
    (run : (addEach addRequired start elements).outcome = .ok next) (member : e ∈ elements)
    (has : e.Has t) : t ∈ e.triples := by
  have kept : ∀ done p element next, (∀ e ∈ done, ∃ pattern, e = Element.pattern pattern) →
      (addRequired p element).outcome = .ok next →
      ∀ e ∈ done ++ [element], ∃ pattern, e = Element.pattern pattern := by
    intro done p element next all added e member
    obtain ⟨pattern, _, _, _, rfl, -⟩ := addRequired_exact.mp added
    rcases List.mem_append.mp member with old | new
    · exact all e old
    · exact ⟨pattern, List.mem_singleton.mp new⟩
  have none : ∀ e ∈ ([] : List Element), ∃ pattern, e = Element.pattern pattern := by simp
  obtain ⟨pattern, rfl⟩ := addEach_keeps kept none run e member
  cases has with
  | pattern member => exact member

-- A triple of a required element is spare for all elements after it.
theorem spare_required {elements : List Element}
    (run : (addEach addRequired (.start tables) elements).outcome = .ok p) (member : e ∈ elements)
    (has : e.Has t) : Spare p.state p.required t := by
  have required := required_run run
  have known := required.covers e member t (mem_triples_of_has run member has)
  exact ⟨known, required.joinable known⟩

theorem spare_optional {base : Progress} {elements before : List Element}
    (run : (addEach addRequired (.start tables) elements).outcome = .ok base)
    (later : (addEach addOptional base.turn before).outcome = .ok p) (member : e ∈ elements)
    (has : e.Has t) : Spare p.state p.required t := by
  have required := required_run run
  have kept : ∀ done q element next, Outline tables done q ∧ q.required = base.required →
      (addOptional q element).outcome = .ok next →
      Outline tables (done ++ [element]) next ∧ next.required = base.required := by
    intro done q element next both added
    obtain ⟨pattern, init, found, s, bound, rfl, held, run, rfl⟩ := addOptional_exact.mp added
    refine ⟨both.1.allow held run, ?_⟩
    cases found <;> exact both.2
  have start : Outline tables elements base.turn ∧ base.turn.required = base.required :=
    ⟨required.toOutline.turn, rfl⟩
  obtain ⟨outline, same⟩ := addEach_keeps kept start later
  have used := mem_triples_of_has run member has
  refine ⟨outline.covers e (List.mem_append_left _ member) t used, ?_⟩
  rw [same]
  exact required.joinable (required.covers e member t used)

theorem addRequired_repeats {pattern pattern' : GraphPattern} (required : Required tables done p)
    (same : u.Same t) (repeats : GraphPattern.Repeats t u pattern pattern') :
    SameAnswer (addRequired p (.pattern pattern')).outcome
      (addRequired p (.pattern pattern)).outcome := by
  obtain ⟨front, middle, back, triples, repeated⟩ := repeats.triples
  rw [addRequired_outcome, addRequired_outcome]
  simp only [patternOf, ok_bind]
  refine SameAnswer.bind ?_ fun _ _ => .of_eq rfl
  exact planPattern_repeated same required.joinable repeats.filters triples repeated

end Plan

theorem sameAnswer_repeated {query query' : Query} {t u : TriplePattern} (tables : TableMap)
    (targets : List String) (order : Option (String × SortOrder)) (same : u.Same t)
    (repeats : query.Repeats t u query') :
    SameAnswer (Plan.ofQuery tables query' targets order).outcome
      (Plan.ofQuery tables query targets order).outcome := by
  rw [Plan.ofQuery_outcome, Plan.ofQuery_outcome]
  cases repeats with
  | behind repeats =>
    refine SameAnswer.bind (Plan.addEach_replaced fun p run => ?_) fun _ _ => .of_eq rfl
    exact Plan.addRequired_repeats (Plan.required_run run) same repeats
  | inside has adds =>
    refine SameAnswer.bind (Plan.addEach_replaced fun p run => ?_) fun _ _ => .of_eq rfl
    cases adds with
    | inRequired => exact .of_eq rfl
    | inOptional => exact .of_eq rfl
  | later has adds =>
    refine SameAnswer.bind (Plan.addEach_replaced fun p run => ?_) fun _ _ => .of_eq rfl
    have spare := Plan.spare_required run (by simp) has
    exact .of_eq (Plan.addRequired_adds (spare.same same) adds)
  | optional member has adds =>
    refine SameAnswer.bind (.of_eq rfl) fun base run => ?_
    refine SameAnswer.bind (Plan.addEach_replaced fun p later => ?_) fun _ _ => .of_eq rfl
    have spare := Plan.spare_optional run later member has
    exact .of_eq (Plan.addOptional_adds (spare.same same) adds)

namespace Greeting

def label : Iri := ⟨"urn:label", by decide +kernel⟩

def greets : Iri := ⟨"urn:greets", by decide +kernel⟩

def host : Variable := ⟨"host", by decide +kernel⟩

def guest : Variable := ⟨"guest", by decide +kernel⟩

def nick : Variable := ⟨"nick", by decide +kernel⟩

def tables : TableMap := [(label, "names"), (greets, "greets")]

def ann : TriplePattern :=
  ⟨.variable host, .iri label, .node (.tagged "Ann" ⟨"en", by decide⟩)⟩

def loud : TriplePattern :=
  ⟨.variable host, .iri label, .node (.tagged "Ann" ⟨"EN", by decide⟩)⟩

def meeting : TriplePattern := ⟨.variable host, .iri greets, .variable guest⟩

def nickname : TriplePattern := ⟨.variable guest, .iri label, .variable nick⟩

def query : Query :=
  ⟨[.pattern ((GraphPattern.empty.addTriple ann).addTriple meeting)],
    [.pattern (GraphPattern.empty.addTriple nickname)]⟩

def repeated : Query :=
  ⟨[.pattern ((GraphPattern.empty.addTriple ann).addTriple meeting)],
    [.pattern ((GraphPattern.empty.addTriple loud).addTriple nickname)]⟩

def statement : Select where
  columns := [⟨"names", .subject⟩, ⟨"names_1", .object⟩]
  source := .join
    (.join (.table ⟨"names", "names"⟩ ann) .inner (.table ⟨"greets", "greets"⟩ meeting)
      [linked ⟨"names", .subject⟩ ⟨"greets", .subject⟩])
    .left (.table ⟨"names", "names_1"⟩ nickname) [linked ⟨"greets", .object⟩ ⟨"names_1", .subject⟩]
  conditions := [fixed ⟨"names", .object⟩ (.tagged "Ann" ⟨"en", by decide⟩)]
  order := none

theorem same : loud.Same ann := by decide +kernel

theorem repeats : query.Repeats ann loud repeated := by
  change Query.Repeats ann loud ⟨query.required, [] ++ .pattern _ :: []⟩
    ⟨query.required, [] ++ .pattern _ :: []⟩
  refine .optional List.mem_cons_self (.pattern List.mem_cons_self) (.pattern ⟨rfl, ?_⟩)
  exact ⟨[], [nickname], rfl, rfl⟩

theorem planned :
    (Plan.ofQuery tables query ["host", "nick"] none).outcome = .ok (.select statement) := by
  decide +kernel

end Greeting

theorem sameAnswer_repeated_greeting :
    Greeting.loud.Same Greeting.ann ∧
      Greeting.query.Repeats Greeting.ann Greeting.loud Greeting.repeated ∧
      SameAnswer (Plan.ofQuery Greeting.tables Greeting.repeated ["host", "nick"] none).outcome
        (.ok (.select Greeting.statement)) :=
  ⟨Greeting.same, Greeting.repeats, Greeting.planned ▸
    sameAnswer_repeated Greeting.tables ["host", "nick"] none Greeting.same Greeting.repeats⟩

end GraphSql
