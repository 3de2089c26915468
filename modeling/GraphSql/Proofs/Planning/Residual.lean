import GraphSql.Proofs.Planning.Frame

namespace GraphSql
open Sql

-- The WHERE clause can always be made: what still waits once all elements are planned came from
-- required elements, because the join of an optional element takes all that waits for it.

namespace Growth

variable {g next : Growth} {remaining : List TriplePattern} {names : List String}

theorem optionalWithin_step {predicate : Iri} {pattern : TriplePattern}
    (within : g.state.OptionalWithin names)
    (allowed : g.state.part = .optional → (g.state.aliases.relation predicate).aliasName ∈ names) :
    (g.step predicate pattern).state.OptionalWithin names := by
  have settled : (g.settled predicate pattern).state.OptionalWithin names :=
    PlanState.OptionalWithin.await _ _ within allowed
  have released := PlanState.OptionalWithin.release (g.state.aliases.relation predicate).aliasName
    (equalities (g.settled predicate pattern).bindings
      (g.state.aliases.relation predicate, pattern)) settled
  exact (released.takePending _).mono fun _ member => (List.mem_filter.mp member).1

theorem Grows.optionalWithin (run : Grows g remaining next) (within : g.state.OptionalWithin names)
    (allowed : g.state.part = .optional → ∀ leaf ∈ next.tree.leaves, leaf.1.aliasName ∈ names) :
    next.state.OptionalWithin names := by
  induction run with
  | done => exact within
  | skip taken known rest ih => exact ih within allowed
  | join taken fresh mapped rest ih =>
    refine ih (optionalWithin_step within ?_) (by simpa using allowed)
    intro optional
    have present := rest.leaves_subset _ (List.mem_append_right _ (List.mem_singleton_self _))
    exact allowed optional _ present

theorem Grows.part (run : Grows g remaining next) : next.state.part = g.state.part := by
  induction run with
  | done => rfl
  | skip taken known rest ih => exact ih
  | join taken fresh mapped rest ih => rw [ih, step_part]

end Growth

namespace PatternRun

variable {s next : PlanState} {bindings bound : Bindings} {pattern : GraphPattern}
  {found : Option JoinTree}

theorem part (run : PatternRun s bindings pattern found next bound) : next.part = s.part := by
  cases run with
  | redundant known => rfl
  | grown order known fresh mapped run left =>
    rw [PlanState.await_part, run.part, seedGrowth, PlanState.settle, PlanState.await_part]

theorem optionalWithin {names : List String}
    (run : PatternRun s bindings pattern found next bound) (within : s.OptionalWithin names)
    (allowed : s.part = .optional → ∀ tree ∈ found, ∀ name ∈ tree.aliases, name ∈ names) :
    next.OptionalWithin names := by
  cases run with
  | redundant known => exact within
  | grown order known fresh mapped run left =>
    rename_i before seed others predicate g
    have aliased : s.part = .optional → ∀ leaf ∈ g.tree.leaves, leaf.1.aliasName ∈ names := by
      intro optional leaf present
      exact allowed optional g.tree rfl _ (List.mem_map.mpr ⟨leaf, present, rfl⟩)
    have first := run.seed_mem
    have seeded :
        (seedGrowth s bindings pattern.filters predicate seed).state.OptionalWithin names :=
      PlanState.OptionalWithin.await _ _ within fun optional => aliased optional _ first
    have part : (seedGrowth s bindings pattern.filters predicate seed).state.part = s.part :=
      PlanState.await_part _ _ _
    refine PlanState.OptionalWithin.await _ _ (run.optionalWithin seeded ?_) ?_
    · intro optional
      exact aliased (part.symm.trans optional)
    · intro optional
      exact aliased (part.symm.trans (run.part.symm.trans optional)) _ first

end PatternRun

namespace Plan

variable {tables : TableMap} {base p : Progress} {elements : List Element}

theorem optionalWithin_required
    (run : (addEach addRequired (.start tables) elements).outcome = .ok base) :
    base.state.part = .required ∧ base.state.OptionalWithin [] := by
  have kept : ∀ p element next, p.state.part = .required ∧ p.state.OptionalWithin [] →
      (addRequired p element).outcome = .ok next →
      next.state.part = .required ∧ next.state.OptionalWithin [] := by
    intro p element next before added
    obtain ⟨pattern, found, s, bound, rfl, run, rfl⟩ := addRequired_exact.mp added
    refine ⟨run.part.trans before.1, run.optionalWithin before.2 ?_⟩
    intro optional
    rw [before.1] at optional
    cases optional
  have start : (Progress.start tables).state.part = .required ∧
      (Progress.start tables).state.OptionalWithin [] :=
    ⟨rfl, by simp [Progress.start, PlanState.fresh, PlanState.OptionalWithin]⟩
  exact addEach_preserves kept start run

theorem optionalWithin_optional (within : p.state.OptionalWithin [])
    (run : (addEach addOptional p elements).outcome = .ok base) :
    base.state.OptionalWithin [] := by
  have kept : ∀ p element next, p.state.OptionalWithin [] →
      (addOptional p element).outcome = .ok next → next.state.OptionalWithin [] := by
    intro p element next within added
    obtain ⟨pattern, init, found, s, bound, rfl, held, run, rfl⟩ := addOptional_exact.mp added
    cases found with
    | none => exact run.optionalWithin within (by simp)
    | some member =>
      have aliased : s.OptionalWithin member.aliases := by
        refine run.optionalWithin (within.mono (by simp)) ?_
        intro _ tree same
        cases same
        exact fun _ => id
      exact aliased.takeAll
  exact addEach_preserves kept within run

theorem residual_planned {required optional : List Element} {full : Progress}
    (first : (addEach addRequired (.start tables) required).outcome = .ok base)
    (later : (addEach addOptional base.turn optional).outcome = .ok full) :
    ∃ conditions, residual full.state.drainPending.1 = .ok conditions :=
  ⟨_, PlanState.residual_drainPending
    (optionalWithin_optional (p := base.turn) (optionalWithin_required first).2 later)⟩

theorem conditions_planned {required optional : List Element} {full : Progress}
    {conditions : List Condition}
    (first : (addEach addRequired (.start tables) required).outcome = .ok base)
    (later : (addEach addOptional base.turn optional).outcome = .ok full)
    (left : residual full.state.drainPending.1 = .ok conditions) :
    conditions = full.state.waiting := by
  have within : base.turn.state.OptionalWithin [] := (optionalWithin_required first).2
  rw [PlanState.residual_drainPending (optionalWithin_optional within later)] at left
  exact (Except.ok.inj left).symm

end Plan

end GraphSql
