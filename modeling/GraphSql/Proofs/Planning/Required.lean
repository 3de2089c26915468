import GraphSql.Proofs.Planning.Elements

namespace GraphSql
open Sql

-- What planning the required elements of a query ends with.

namespace Plan

structure Required (tables : TableMap) (done : List Element) (p : Progress) : Prop
    extends Outline tables done p, Sourced done p, Pinned p.required p.leaves p.Has where
  part : p.state.part = .required
  bound : p.required = addBindings [] p.held
  inner : ∀ tree, p.tree = some tree → tree.IsInner
  waiting : ∀ aliasName c, p.state.Waits aliasName c → aliasName ∈ p.aliases

theorem required_start (tables : TableMap) : Required tables [] (.start tables) where
  toOutline := outline_start tables
  toSourced := sourced_start tables
  constants := by simp [Progress.leaves, Progress.start]
  equated := by simp [Progress.leaves, Progress.start]
  part := rfl
  bound := rfl
  inner := by simp [Progress.start]
  waiting := by
    intro aliasName c waits
    obtain ⟨entry, member, _⟩ := waits
    cases member

variable {tables : TableMap} {done : List Element} {p next : Progress} {pattern : GraphPattern}
  {bound : Bindings} {s : PlanState} {tree : JoinTree} {left : List Filter}

section member

variable (grown : Growth.GrownFrom p.state p.required pattern.triples ⟨s, bound, tree, left⟩)
  (founded : Growth.Founded p.state p.required pattern.filters ⟨s, bound, tree, left⟩)

include founded in
theorem has_require (c : Condition) :
    (p.require (some tree) s bound).Has c ↔
      p.Has c ∨ Growth.Own ⟨s, bound, tree, left⟩ c ∨
        ∃ name one two, (name, one) ∈ p.held ∧ bound.lookup name = some one ∧
          (name, two) ∈ tree.held ∧ c = linked one two := by
  have same : (p.require (some tree) s bound).state = s := rfl
  simp only [Progress.Has, Progress.mem_conditions_require, Growth.Own, same]
  constructor
  · intro has
    rcases has with (old | own | link) | ⟨aliasName, waits⟩
    · exact .inl (.inl old)
    · exact .inr (.inl (.inl own))
    · exact .inr (.inr link)
    · by_cases taken : aliasName ∈ tree.aliases
      · exact .inr (.inl (.inr ⟨aliasName, taken, waits⟩))
      · exact .inl (.inr ⟨aliasName, (founded.frame aliasName taken c).mp waits⟩)
  · intro has
    rcases has with (old | ⟨aliasName, waits⟩) | own | link
    · exact .inl (.inl old)
    · by_cases taken : aliasName ∈ tree.aliases
      · rcases founded.taken aliasName taken c waits with placed | ⟨other, _, waits⟩
        · exact .inl (.inr (.inl placed))
        · exact .inr ⟨other, waits⟩
      · exact .inr ⟨aliasName, (founded.frame aliasName taken c).mpr waits⟩
    · rcases own with placed | ⟨other, _, waits⟩
      · exact .inl (.inr (.inl placed))
      · exact .inr ⟨other, waits⟩
    · exact .inl (.inr (.inr link))

include grown founded in
theorem Required.pinned_require (required : Required tables done p) :
    Pinned bound (p.leaves ++ tree.leaves) (p.require (some tree) s bound).Has := by
  constructor
  · intro leaf present side n node
    rw [has_require founded]
    rcases List.mem_append.mp present with old | new
    · exact .inl (required.constants leaf old side n node)
    · exact .inr (.inl (founded.constants leaf new side n node))
  · intro leaf present side v node
    simp only [has_require founded]
    rcases List.mem_append.mp present with old | new
    · obtain ⟨primary, looked, why⟩ := required.equated leaf old side v node
      have kept : bound.lookup v.name = some primary := by
        rw [show bound = _ from grown.bound, lookup_addBindings, looked, Option.some_or]
      exact ⟨primary, kept, why.imp_right .inl⟩
    · obtain ⟨primary, looked, why⟩ := founded.equated leaf new side v node
      refine ⟨primary, looked, ?_⟩
      rcases why with before | same | own
      · have held : (v.name, leaf.1.column side) ∈ tree.held :=
          List.mem_flatMap.mpr
            ⟨leaf, new, JoinTree.mem_leafVariables.mpr ⟨side, v, node, rfl, rfl⟩⟩
        have link := required.drawn _ (mem_of_lookup before)
        exact .inr (.inr (.inr ⟨v.name, primary, _, link, looked, held, rfl⟩))
      · exact .inl same
      · exact .inr (.inr (.inl own))

end member

section run

theorem Required.extend (required : Required tables done p)
    (run : PatternRun p.state p.required pattern (some tree) s bound) :
    Required tables (done ++ [.pattern pattern]) (p.require (some tree) s bound) := by
  obtain ⟨left, grown, founded, -⟩ := run.founded required.tidy
  have binds : bound = addBindings [] (p.require (some tree) s bound).held := by
    rw [Progress.held_require, PlanState.addBindings_append, ← required.bound]
    exact grown.bound
  have sourced : Sourced (done ++ [.pattern pattern]) (p.require (some tree) s bound) := by
    refine required.toSourced.extend required.toOutline run (by simp) ?_ ?_
    · intro entry member
      rw [show (p.require (some tree) s bound).required = bound from rfl, binds] at member
      rcases mem_addBindings member with none | held
      · cases none
      · exact held
    · intro left c founded
      rw [has_require founded]
      refine ⟨fun either => either.imp_right .inl, ?_⟩
      intro has
      rcases has with old | own | ⟨name, one, two, held, _, new, same⟩
      · exact .inl old
      · exact .inr (.inl own)
      · exact .inr (.inr ⟨name, one, two, held, new, same⟩)
  have pinned := required.pinned_require grown founded
  rw [← Progress.leaves_require p tree s bound] at pinned
  refine ⟨required.toOutline.require run, sourced, pinned, grown.part.trans required.part, binds,
    ?_, ?_⟩
  · intro whole same
    cases old : p.tree with
    | none =>
      simp only [Progress.require, old, Option.some.injEq] at same
      exact same ▸ grown.inner
    | some t =>
      simp only [Progress.require, old, Option.some.injEq] at same
      exact same ▸ ⟨rfl, required.inner t old, grown.inner⟩
  · intro aliasName c waits
    rw [Progress.aliases_require]
    by_cases taken : aliasName ∈ tree.aliases
    · exact List.mem_append_right _ taken
    · have before := (founded.frame aliasName taken c).mp waits
      exact List.mem_append_left _ (required.waiting aliasName c before)

theorem Required.redundant (required : Required tables done p)
    (run : PatternRun p.state p.required pattern none s bound) :
    Required tables (done ++ [.pattern pattern]) (p.require none s bound) := by
  have empty := required.toOutline.ownTriples_nil run
  have outline := required.toOutline.require run
  cases run with
  | redundant known =>
    have same : p.require none p.state p.required = p := by simp
    rw [same] at outline ⊢
    exact ⟨outline, required.toSourced.redundant empty, required.toPinned, required.part,
      required.bound, required.inner, required.waiting⟩

theorem Required.step {element : Element} (required : Required tables done p)
    (added : (addRequired p element).outcome = .ok next) :
    Required tables (done ++ [element]) next := by
  obtain ⟨pattern, found, s, bound, rfl, run, rfl⟩ := addRequired_exact.mp added
  cases found with
  | none => exact required.redundant run
  | some tree => exact required.extend run

theorem required_run {elements : List Element}
    (run : (addEach addRequired (.start tables) elements).outcome = .ok p) :
    Required tables elements p := by
  have kept : ∀ done p element next, Required tables done p →
      (addRequired p element).outcome = .ok next → Required tables (done ++ [element]) next :=
    fun _ _ _ _ required added => required.step added
  exact addEach_keeps kept (required_start tables) run

-- What holds at the start and is kept by each required element holds in the end, if no two tables
-- have one alias.
theorem required_induction (holds : List Element → Progress → Prop) {elements : List Element}
    (start : holds [] (.start tables))
    (redundant : ∀ done p pattern, Required tables done p → holds done p →
      ownTriples done pattern = [] → holds (done ++ [.pattern pattern]) p)
    (extend : ∀ done p pattern tree s bound, Required tables done p → holds done p →
      PatternRun p.state p.required pattern (some tree) s bound →
      (p.aliases ++ tree.aliases).Nodup →
      holds (done ++ [.pattern pattern]) (p.require (some tree) s bound))
    (run : (addEach addRequired (.start tables) elements).outcome = .ok p)
    (apart : p.aliases.Nodup) : holds elements p := by
  have kept : ∀ done p element next,
      Required tables done p ∧ (p.aliases.Nodup → holds done p) →
      (addRequired p element).outcome = .ok next →
      Required tables (done ++ [element]) next ∧
        (next.aliases.Nodup → holds (done ++ [element]) next) := by
    intro done p element next before added
    obtain ⟨known, holding⟩ := before
    refine ⟨known.step added, fun apart => ?_⟩
    obtain ⟨pattern, found, s, bound, rfl, run, rfl⟩ := addRequired_exact.mp added
    cases found with
    | none =>
      have empty := known.toOutline.ownTriples_nil run
      cases run with
      | redundant =>
        rw [Progress.require_none] at apart ⊢
        exact redundant done p pattern known (holding apart) empty
    | some tree =>
      rw [Progress.aliases_require] at apart
      have earlier := holding (List.nodup_append.mp apart).1
      exact extend done p pattern tree s bound known earlier run apart
  exact (addEach_keeps kept ⟨required_start tables, fun _ => start⟩ run).2 apart

end run

end Plan

end GraphSql
