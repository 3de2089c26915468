import GraphSql.Proofs.Planning.Conditions

namespace GraphSql
open Sql

-- What planning a pattern leaves alone: all that waits under other aliases, in its order.

namespace PlanState

variable {s : PlanState} {aliasName : String} {names : List String} {conditions : List Condition}

def waiting (s : PlanState) : List Condition := s.pending.flatMap (·.conditions)

def others (s : PlanState) (names : List String) : List Pending :=
  s.pending.filter (·.aliasName ∉ names)

theorem others_addPending (taken : aliasName ∈ names) (c : Condition) :
    (s.addPending aliasName c).others names = s.others names := by
  unfold others addPending
  simp only
  generalize s.pending = pending
  induction pending with
  | nil => simp [insertPending, taken]
  | cons entry rest ih =>
    unfold insertPending
    split
    next same => simp [same, taken]
    next differs => rw [List.filter_cons, List.filter_cons, ih]

theorem others_await (taken : aliasName ∈ names) :
    (s.await aliasName conditions).others names = s.others names := by
  induction conditions generalizing s with
  | nil => rfl
  | cons c rest ih => exact ih.trans (others_addPending taken c)

theorem others_removePending (taken : aliasName ∈ names) (c : Condition) :
    (s.removePending aliasName c).others names = s.others names := by
  unfold others removePending
  simp only
  generalize s.pending = pending
  induction pending with
  | nil => rfl
  | cons entry rest ih =>
    rw [List.map_cons, List.filter_cons, List.filter_cons, ih]
    by_cases same : entry.aliasName = aliasName
    · simp [same, taken]
    · simp [same]

theorem others_release (taken : aliasName ∈ names) :
    (s.release aliasName conditions).others names = s.others names := by
  induction conditions generalizing s with
  | nil => rfl
  | cons c rest ih => exact ih.trans (others_removePending taken c)

theorem others_takePending (s : PlanState) (aliasName : String) (names : List String) :
    (s.takePending aliasName).2.others names = s.others (aliasName :: names) := by
  simp [others, takePending, List.filter_filter, Bool.and_comm]

theorem pending_takeAll (s : PlanState) (names : List String) :
    (Plan.takeAll s names).2.pending = s.others names := by
  induction names generalizing s with
  | nil => exact (List.filter_eq_self.mpr (by simp)).symm
  | cons name rest ih => exact (ih _).trans (others_takePending s name rest)

theorem conditions_others (apart : ∀ aliasName c, s.Waits aliasName c → aliasName ∉ names) :
    (s.others names).flatMap (·.conditions) = s.waiting := by
  have each : ∀ entry ∈ s.pending, ∀ c ∈ entry.conditions, entry.aliasName ∉ names :=
    fun entry member c held => apart _ c ⟨entry, member, rfl, held⟩
  unfold others waiting
  generalize s.pending = pending at each
  induction pending with
  | nil => rfl
  | cons entry rest ih =>
    have later := ih fun other member => each other (List.mem_cons_of_mem _ member)
    by_cases taken : entry.aliasName ∈ names
    · have none : entry.conditions = [] := by
        rw [List.eq_nil_iff_forall_not_mem]
        exact fun c held => each entry List.mem_cons_self c held taken
      rw [List.filter_cons_of_neg (by simpa using taken), later, List.flatMap_cons, none,
        List.nil_append]
    · rw [List.filter_cons_of_pos (by simpa using taken), List.flatMap_cons, later,
        List.flatMap_cons]

end PlanState

namespace Growth

variable {g next : Growth} {predicate : Iri} {pattern : TriplePattern} {names : List String}
  {remaining : List TriplePattern}

theorem others_step (taken : g.nextAlias predicate ∈ names) :
    (g.step predicate pattern).state.others names = g.state.others names := by
  have same : ∀ s : PlanState, s.others (g.nextAlias predicate :: names) = s.others names := by
    intro s
    refine List.filter_congr fun entry _ => ?_
    have iff : entry.aliasName ∈ g.nextAlias predicate :: names ↔ entry.aliasName ∈ names :=
      ⟨fun member => (List.mem_cons.mp member).elim (· ▸ taken) id, List.mem_cons_of_mem _⟩
    simp [iff]
  have settled : (g.settled predicate pattern).state.others names = g.state.others names :=
    PlanState.others_await taken
  calc (g.step predicate pattern).state.others names
    _ = _ := PlanState.others_takePending _ (g.nextAlias predicate) names
    _ = _ := same _
    _ = _ := PlanState.others_release taken
    _ = _ := settled

theorem Grows.others (run : Grows g remaining next)
    (within : ∀ name ∈ next.tree.aliases, name ∈ names) :
    next.state.others names = g.state.others names := by
  induction run with
  | done => rfl
  | skip taken known rest ih => exact ih within
  | join taken fresh mapped rest ih =>
    rw [ih within, others_step]
    have present := rest.leaves_subset _ (List.mem_append_right _ (List.mem_singleton_self _))
    exact within _ (List.mem_map.mpr ⟨_, present, rfl⟩)

end Growth

theorem PatternRun.others {s next : PlanState} {bindings bound : Bindings} {pattern : GraphPattern}
    {tree : JoinTree} (run : PatternRun s bindings pattern (some tree) next bound) :
    next.others tree.aliases = s.others tree.aliases := by
  cases run with
  | grown order known fresh mapped run left =>
    rename_i before seed others predicate g
    have first : (s.aliases.relation predicate).aliasName ∈ g.tree.aliases :=
      List.mem_map.mpr ⟨_, run.seed_mem, rfl⟩
    rw [PlanState.others_await first, run.others fun _ => id]
    exact PlanState.others_await first

theorem PatternRun.waiting_takeAll {s next : PlanState} {bindings bound : Bindings}
    {pattern : GraphPattern} {tree : JoinTree}
    (run : PatternRun s bindings pattern (some tree) next bound)
    (elsewhere : ∀ aliasName c, s.Waits aliasName c → aliasName ∉ tree.aliases) :
    (Plan.takeAll next tree.aliases).2.waiting = s.waiting := by
  rw [← PlanState.conditions_others elsewhere, ← run.others, ← PlanState.pending_takeAll]
  rfl

end GraphSql
