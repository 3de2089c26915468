import GraphSql.Proofs.Planning.Reach

namespace GraphSql
open Sql

-- What filters do not change. Two runs that differ in filters only give the same tables to the same
-- triples, as long as the filters of both are reached.

structure PlanState.Alike (s t : PlanState) : Prop where
  aliases : s.aliases = t.aliases
  planned : s.planned = t.planned

namespace Growth

structure Alike (g h : Growth) : Prop where
  state : g.state.Alike h.state
  bindings : g.bindings = h.bindings
  leaves : g.tree.leaves = h.tree.leaves

variable {g h next : Growth} {remaining : List TriplePattern}

theorem Alike.step (alike : g.Alike h) (predicate : Iri) (pattern : TriplePattern) :
    (g.step predicate pattern).Alike (h.step predicate pattern) where
  state := ⟨by simp [alike.state.aliases], by simp [alike.state.planned]⟩
  bindings := by simp [alike.bindings, alike.state.aliases]
  leaves := by simp [alike.leaves, alike.state.aliases]

theorem Grows.alike (run : Grows g remaining next) (alike : g.Alike h) :
    ∃ other, Grows h remaining other ∧ next.Alike other := by
  induction run generalizing h with
  | done => exact ⟨h, .done, alike⟩
  | skip taken known rest ih =>
    obtain ⟨other, run, final⟩ := ih alike
    exact ⟨other, .skip (alike.bindings ▸ taken) (alike.state.planned ▸ known) run, final⟩
  | join taken fresh mapped rest ih =>
    obtain ⟨other, run, final⟩ := ih (alike.step _ _)
    exact ⟨other, .join (alike.bindings ▸ taken) (alike.state.planned ▸ fresh) mapped run, final⟩

end Growth

theorem PlanState.Alike.seed {s t : PlanState} (alike : s.Alike t) (bindings : Bindings)
    (filters others : List Filter) (predicate : Iri) (seed : TriplePattern) :
    (seedGrowth s bindings filters predicate seed).Alike
      (seedGrowth t bindings others predicate seed) where
  state :=
    ⟨by simp [seedGrowth, settle, alike.aliases], by simp [seedGrowth, settle, alike.planned]⟩
  bindings := by simp [seedGrowth, alike.aliases]
  leaves := by simp [seedGrowth, alike.aliases, JoinTree.leaves]

theorem Sql.JoinTree.holds_congr {t u : JoinTree} (same : t.leaves = u.leaves) (name : String) :
    t.Holds name ↔ u.Holds name := by
  rw [holds_iff, holds_iff, same]

theorem PatternRun.alike {s t next : PlanState} {bindings bound : Bindings}
    {pattern other : GraphPattern} {found : Option JoinTree}
    (run : PatternRun s bindings pattern found next bound) (alike : s.Alike t)
    (triples : other.triples = pattern.triples)
    (single : ∀ f ∈ other.filters, f.vars.length = 1)
    (reached : ∀ tree ∈ found, ∀ f ∈ other.filters, ∀ v ∈ f.vars, tree.Holds v.name) :
    ∃ found' next', PatternRun t bindings other found' next' bound ∧ next.Alike next' ∧
      found'.map (·.leaves) = found.map (·.leaves) := by
  cases run with
  | redundant known =>
    refine ⟨none, t, .redundant ?_, alike, rfl⟩
    rw [triples, ← alike.planned]
    exact known
  | grown order known fresh mapped run left =>
    obtain ⟨g, run, final⟩ := run.alike (alike.seed bindings _ other.filters _ _)
    rw [← triples] at order
    rw [alike.planned] at known fresh
    have holds : ∀ f ∈ other.filters, ∀ v ∈ f.vars, g.tree.Holds v.name := by
      intro f member v used
      rw [← JoinTree.holds_congr final.leaves]
      exact reached _ rfl f member v used
    have placed := (run.placed_iff order fresh mapped single).mpr holds
    rw [final.bindings]
    refine ⟨_, _, .grown order known fresh mapped run placed, ?_, ?_⟩
    · constructor
      · simp [final.state.aliases]
      · simp [final.state.planned]
    · simp [final.leaves]

def GraphPattern.unfiltered (p : GraphPattern) : GraphPattern :=
  { GraphPattern.empty with triples := p.triples }

mutual

def Element.unfiltered : Element → Element
  | .pattern p => .pattern p.unfiltered
  | .subquery required optional => .subquery (unfilteredEach required) (unfilteredEach optional)

def Element.unfilteredEach : List Element → List Element
  | [] => []
  | e :: rest => e.unfiltered :: unfilteredEach rest

end

def Query.unfiltered (q : Query) : Query :=
  ⟨Element.unfilteredEach q.required, Element.unfilteredEach q.optional⟩

@[simp] theorem Element.triples_unfiltered (e : Element) : e.unfiltered.triples = e.triples := by
  cases e <;> rfl

theorem ownTriples_unfiltered (before : List Element) (pattern : GraphPattern) :
    ownTriples (before.map Element.unfiltered) pattern.unfiltered = ownTriples before pattern := by
  simp [ownTriples, GraphPattern.unfiltered, List.flatMap_map]

namespace Plan

structure Alike (p q : Progress) : Prop where
  state : p.state.Alike q.state
  required : p.required = q.required
  all : p.all = q.all
  leaves : q.tree.map (·.leaves) = p.tree.map (·.leaves)

variable {tables : TableMap} {done elements : List Element} {p q next : Progress}

theorem Alike.require {found found' : Option JoinTree} {s s' : PlanState} (alike : Alike p q)
    (state : s.Alike s') (same : found'.map (·.leaves) = found.map (·.leaves)) (bound : Bindings) :
    Alike (p.require found s bound) (q.require found' s' bound) := by
  have merged : ∀ (p : Progress) (found : Option JoinTree) (s : PlanState),
      (p.require found s bound).tree.map (·.leaves) =
        Option.merge (· ++ ·) (p.tree.map (·.leaves)) (found.map (·.leaves)) := by
    intro p found s
    cases found <;> cases tree : p.tree <;> simp [Progress.require, tree]
  refine ⟨state, rfl, alike.all, ?_⟩
  rw [merged, merged, alike.leaves, same]

theorem Alike.allow {init init' : JoinTree} {found found' : Option JoinTree} {s s' : PlanState}
    (alike : Alike p q) (held : p.tree = some init) (held' : q.tree = some init')
    (state : s.Alike s') (same : found'.map (·.leaves) = found.map (·.leaves)) (bound : Bindings) :
    Alike (p.allow init found s bound) (q.allow init' found' s' bound) := by
  have leaves : init'.leaves = init.leaves := by simpa [held, held'] using alike.leaves
  cases found with
  | none =>
    rw [Option.map_none, Option.map_eq_none_iff] at same
    subst same
    exact ⟨state, alike.required, alike.all, alike.leaves⟩
  | some member =>
    obtain ⟨other, rfl, inside⟩ := Option.map_eq_some_iff.mp same
    refine ⟨⟨?_, ?_⟩, alike.required, ?_, ?_⟩
    · simp [Progress.allow, state.aliases]
    · simp [Progress.allow, state.planned]
    · simp [Progress.allow, alike.all]
    · simp [Progress.allow, leaves, inside]

structure Follows (tables : TableMap) (done : List Element) (p q : Progress) : Prop where
  outline : Outline tables (done.map Element.unfiltered) p
  alike : Alike p q

theorem Follows.run {pattern : GraphPattern} {found : Option JoinTree} {s : PlanState}
    {bound : Bindings} (follows : Follows tables done p q)
    (run : PatternRun p.state p.required pattern.unfiltered found s bound)
    (single : ∀ f ∈ pattern.filters, f.vars.length = 1) (reaches : Reaches done pattern) :
    ∃ found' s', PatternRun q.state q.required pattern found' s' bound ∧ s.Alike s' ∧
      found'.map (·.leaves) = found.map (·.leaves) := by
  rw [← follows.alike.required]
  refine run.alike follows.alike.state rfl single ?_
  intro tree same f member v used
  cases same
  have own := follows.outline.ownTriples_ne_nil run
  rw [follows.outline.holds_iff run]
  rw [ownTriples_unfiltered] at own ⊢
  exact reaches own f member v used

variable {element : Element}

theorem Follows.required (follows : Follows tables done p q)
    (added : (addRequired p element.unfiltered).outcome = .ok next)
    (single : ∀ f ∈ element.filters, f.vars.length = 1)
    (reaches : ∀ pattern, element = .pattern pattern → Reaches done pattern) :
    ∃ other, (addRequired q element).outcome = .ok other ∧
      Follows tables (done ++ [element]) next other := by
  obtain ⟨bare, found, s, bound, same, run, rfl⟩ := addRequired_exact.mp added
  cases element with
  | subquery required optional => cases same
  | pattern pattern =>
    cases same
    obtain ⟨found', s', run', state, leaves⟩ := follows.run run single (reaches pattern rfl)
    refine ⟨_, addRequired_exact.mpr ⟨pattern, found', s', bound, rfl, run', rfl⟩, ?_, ?_⟩
    · rw [List.map_append]
      exact follows.outline.require run
    · exact follows.alike.require state leaves bound

theorem Follows.optional (follows : Follows tables done p q)
    (added : (addOptional p element.unfiltered).outcome = .ok next)
    (single : ∀ f ∈ element.filters, f.vars.length = 1)
    (reaches : ∀ pattern, element = .pattern pattern → Reaches done pattern) :
    ∃ other, (addOptional q element).outcome = .ok other ∧
      Follows tables (done ++ [element]) next other := by
  obtain ⟨bare, init, found, s, bound, same, held, run, rfl⟩ := addOptional_exact.mp added
  cases element with
  | subquery required optional => cases same
  | pattern pattern =>
    cases same
    obtain ⟨found', s', run', state, leaves⟩ := follows.run run single (reaches pattern rfl)
    have both := follows.alike.leaves
    rw [held, Option.map_some] at both
    obtain ⟨init', held', -⟩ := Option.map_eq_some_iff.mp both
    refine ⟨_, addOptional_exact.mpr ⟨pattern, init', found', s', bound, rfl, held', run', rfl⟩,
      ?_, ?_⟩
    · rw [List.map_append]
      exact follows.outline.allow held run
    · exact follows.alike.allow held held' state leaves bound

-- What one element allows, all of them allow: the induction is on the elements still to come.
theorem addEach_follows {add : Progress → Element → Logged PlanError Progress}
    (step : ∀ done element p q next, Follows tables done p q →
      (add p element.unfiltered).outcome = .ok next → (∀ f ∈ element.filters, f.vars.length = 1) →
      (∀ pattern, element = .pattern pattern → Reaches done pattern) →
      ∃ other, (add q element).outcome = .ok other ∧ Follows tables (done ++ [element]) next other)
    (follows : Follows tables done p q)
    (run : (addEach add p (Element.unfilteredEach elements)).outcome = .ok next)
    (single : FiltersSingle elements)
    (reachable : ∀ before pattern after, elements = before ++ .pattern pattern :: after →
      Reaches (done ++ before) pattern) :
    ∃ other, (addEach add q elements).outcome = .ok other ∧
      Follows tables (done ++ elements) next other := by
  induction elements generalizing done p q with
  | nil =>
    cases run
    exact ⟨q, rfl, by simpa using follows⟩
  | cons element rest ih =>
    obtain ⟨middle, first, later⟩ := Logged.outcome_bind_ok.mp run
    have reaches : ∀ pattern, element = .pattern pattern → Reaches done pattern := by
      intro pattern same
      simpa using reachable [] pattern rest (by simp [same])
    obtain ⟨other, added, follows⟩ :=
      step done element p q middle follows first (single element (by simp)) reaches
    have further : ∀ before pattern after, rest = before ++ .pattern pattern :: after →
        Reaches (done ++ [element] ++ before) pattern := by
      intro before pattern after split
      simpa using reachable (element :: before) pattern after (by simp [split])
    obtain ⟨final, run, follows⟩ :=
      ih follows later (fun e member => single e (List.mem_cons_of_mem _ member)) further
    refine ⟨final, Logged.outcome_bind_ok.mpr ⟨other, added, run⟩, ?_⟩
    rwa [List.append_assoc] at follows

end Plan

end GraphSql
