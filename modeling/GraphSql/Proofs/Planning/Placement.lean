import GraphSql.Proofs.Operands
import GraphSql.Proofs.Planning.Count
import GraphSql.Proofs.Planning.Spare

namespace GraphSql
open Sql

-- Which of several triples that are the same gets the table, and which clause has the conditions of
-- its constants.

section firsts

variable {triples front back : List TriplePattern} {t u : TriplePattern}

def Leads (triples : List TriplePattern) (t : TriplePattern) : Prop :=
  ∃ front back, triples = front ++ t :: back ∧ ∀ u ∈ front, ¬ u.Same t

def firsts : List TriplePattern → List TriplePattern
  | [] => []
  | t :: rest => t :: (firsts rest).filter fun u => ¬ t.Same u

theorem mem_firsts : t ∈ firsts triples ↔ Leads triples t := by
  induction triples with
  | nil => simp [firsts, Leads]
  | cons head rest ih =>
    rw [firsts, List.mem_cons, List.mem_filter, ih, decide_eq_true_eq]
    constructor
    · rintro (rfl | ⟨⟨front, back, rfl, apart⟩, differs⟩)
      · exact ⟨[], rest, rfl, by simp⟩
      · exact ⟨head :: front, back, rfl, by simpa [differs] using apart⟩
    · rintro ⟨front, back, split, apart⟩
      cases front with
      | nil =>
        cases split
        exact .inl rfl
      | cons first front =>
        cases split
        exact .inr ⟨⟨front, back, rfl, fun u member => apart u (List.mem_cons_of_mem _ member)⟩,
          apart head List.mem_cons_self⟩

theorem nodup_firsts (triples : List TriplePattern) : ((firsts triples).map (·.folded)).Nodup := by
  induction triples with
  | nil => exact .nil
  | cons head rest ih =>
    rw [firsts, List.map_cons, List.nodup_cons]
    refine ⟨?_, ih.sublist (List.filter_sublist.map _)⟩
    intro member
    obtain ⟨u, held, same⟩ := List.mem_map.mp member
    exact of_decide_eq_true (List.mem_filter.mp held).2 same.symm

theorem Leads.mem (leads : Leads triples t) : t ∈ triples := by
  obtain ⟨front, back, rfl, -⟩ := leads
  exact List.mem_append_right _ List.mem_cons_self

theorem Leads.eq_of_same (first : Leads triples t) (second : Leads triples u) (same : t.Same u) :
    t = u := by
  have leaders := nodup_firsts triples
  exact List.inj_on_of_nodup_map leaders (mem_firsts.mpr first) (mem_firsts.mpr second) same

theorem Leads.insert (leads : Leads (front ++ back) t) (differs : ¬ u.Same t) :
    Leads (front ++ u :: back) t := by
  obtain ⟨before, after, split, apart⟩ := leads
  rcases List.append_eq_append_iff.mp split with ⟨gap, rfl, rfl⟩ | ⟨gap, rfl, rest⟩
  · refine ⟨front ++ u :: gap, after, by simp, ?_⟩
    intro w member
    rcases List.mem_append.mp member with old | later
    · exact apart w (List.mem_append_left _ old)
    · rcases List.mem_cons.mp later with rfl | old
      · exact differs
      · exact apart w (List.mem_append_right _ old)
  · cases gap with
    | nil =>
      refine ⟨before ++ [u], after, by simp_all, ?_⟩
      intro w member
      rcases List.mem_append.mp member with old | new
      · exact apart w old
      · cases List.mem_singleton.mp new
        exact differs
    | cons first gap =>
      cases rest
      exact ⟨before, gap ++ u :: back, by simp, apart⟩

theorem Leads.append_left (leads : Leads triples t) (front : List TriplePattern)
    (earlier : ∀ u ∈ front, ¬ u.Same t) : Leads (front ++ triples) t := by
  obtain ⟨before, after, rfl, apart⟩ := leads
  refine ⟨front ++ before, after, by simp, ?_⟩
  intro u member
  rcases List.mem_append.mp member with old | new
  · exact earlier u old
  · exact apart u new

theorem Leads.append_right (leads : Leads triples t) : Leads (triples ++ back) t := by
  obtain ⟨before, after, rfl, apart⟩ := leads
  exact ⟨before, after ++ back, by simp, apart⟩

end firsts

namespace Growth

variable {g next : Growth} {remaining : List TriplePattern}

-- Triples that are the same can be joined at the same time, and the first of them is taken.
theorem Grows.leads (run : Grows g remaining next) :
    ∀ leaf ∈ next.tree.leaves, leaf ∈ g.tree.leaves ∨
      leaf.2.folded ∉ g.state.planned ∧ Leads remaining leaf.2 := by
  induction run with
  | done => exact fun _ present => .inl present
  | skip taken known rest ih =>
    intro leaf present
    rcases ih leaf present with old | ⟨fresh, leads⟩
    · exact .inl old
    · obtain ⟨front, back, rfl, rfl, -⟩ := takeFirst?_split taken
      exact .inr ⟨fresh, leads.insert fun same => fresh (same ▸ known)⟩
  | join taken fresh mapped rest ih =>
    intro leaf present
    obtain ⟨front, back, rfl, rfl, unjoinable, joinable⟩ := takeFirst?_split taken
    rcases ih leaf present with old | ⟨later, leads⟩
    · rcases List.mem_append.mp old with old | new
      · exact .inl old
      · cases List.mem_singleton.mp new
        refine .inr ⟨fresh, front, back, rfl, ?_⟩
        intro u member same
        have alike := (unjoinable u member).symm.trans ((isJoinable_same same _).trans joinable)
        cases alike
    · rw [step_planned, List.mem_append, not_or, List.mem_singleton] at later
      exact .inr ⟨later.1, leads.insert fun same => later.2 same.symm⟩

end Growth

namespace Sql.JoinTree

inductive Joins (kind : JoinKind) (member : JoinTree) (on : List Condition) : JoinTree → Prop where
  | here : Joins kind member on (.join init kind member on)
  | inFirst (inside : Joins kind member on first) : Joins kind member on (.group first)
  | inInit (inside : Joins kind member on init) :
      Joins kind member on (.join init other last clause)
  | inLast (inside : Joins kind member on last) :
      Joins kind member on (.join init other last clause)

def Introduces (t : JoinTree) (leaf : Relation × TriplePattern) : Prop :=
  ∃ on, Joins .inner (.table leaf.1 leaf.2) on t ∧ ∀ c ∈ leafConstants leaf, c ∈ on

theorem Introduces.inInit {init last : JoinTree} {leaf : Relation × TriplePattern}
    (introduced : init.Introduces leaf) (kind : JoinKind) (on : List Condition) :
    (JoinTree.join init kind last on).Introduces leaf := by
  obtain ⟨clause, joins, held⟩ := introduced
  exact ⟨clause, .inInit joins, held⟩

theorem Introduces.inLast {init last : JoinTree} {leaf : Relation × TriplePattern}
    (introduced : last.Introduces leaf) (kind : JoinKind) (on : List Condition) :
    (JoinTree.join init kind last on).Introduces leaf := by
  obtain ⟨clause, joins, held⟩ := introduced
  exact ⟨clause, .inLast joins, held⟩

end Sql.JoinTree

namespace Growth

variable {s : PlanState} {bindings : Bindings} {g next : Growth} {predicate : Iri}
  {pattern : TriplePattern} {remaining : List TriplePattern} {seed : Relation × TriplePattern}

-- The conditions of the seed wait, and every other triple has been joined with its own.
structure Placed (seed : Relation × TriplePattern) (g : Growth) : Prop where
  present : seed ∈ g.tree.leaves
  waits : ∀ c ∈ JoinTree.leafConstants seed, g.state.Waits seed.1.aliasName c
  joined : ∀ leaf ∈ g.tree.leaves, leaf = seed ∨ g.tree.Introduces leaf

theorem constants_own {leaf : Relation × TriplePattern} {c : Condition}
    (present : c ∈ JoinTree.leafConstants leaf) (bindings : Bindings) :
    c ∈ PlanState.ownConditions bindings leaf := by
  obtain ⟨side, n, node, rfl⟩ := JoinTree.mem_leafConstants.mp present
  exact PlanState.mem_ownConditions.mpr (.inl ⟨side, n, node, rfl⟩)

theorem placed_seed {filters : List Filter} {seed : TriplePattern} :
    Placed (s.aliases.relation predicate, seed) (seedGrowth s bindings filters predicate seed) where
  present := List.mem_singleton_self _
  waits := fun _ present =>
    (PlanState.waits_settle _ _ _ _ _ _).mpr (.inr ⟨rfl, constants_own present bindings⟩)
  joined := fun _ single => .inl (List.mem_singleton.mp single)

theorem Placed.step (placed : Placed seed g) (tidy : g.state.Tidy)
    (fresh : g.nextAlias predicate ∉ g.tree.aliases) : Placed seed (g.step predicate pattern) where
  present := List.mem_append_left _ placed.present
  waits := by
    intro c present
    have differs : seed.1.aliasName ≠ g.nextAlias predicate := fun same =>
      fresh (same ▸ List.mem_map.mpr ⟨seed, placed.present, rfl⟩)
    exact (waits_step _ c).mpr ⟨differs, placed.waits c present⟩
  joined := by
    intro leaf present
    rcases List.mem_append.mp present with old | new
    · exact (placed.joined leaf old).imp_right fun introduced => introduced.inInit _ _
    · cases List.mem_singleton.mp new
      refine .inr ⟨g.onClause predicate pattern, .here, fun c demanded => ?_⟩
      exact (mem_onClause tidy c).mpr (.inl (constants_own demanded _))

theorem Grows.placed (run : Grows g remaining next) (tidy : g.state.Tidy) (placed : Placed seed g)
    (apart : next.tree.aliases.Nodup) : Placed seed next := by
  have kept : ∀ g predicate (pattern : TriplePattern),
      g.state.Tidy ∧ (g.tree.aliases.Nodup → Placed seed g) → pattern ∈ remaining →
      pattern.folded ∉ g.state.planned → pattern.predicate = .iri predicate →
      (g.step predicate pattern).state.Tidy ∧
        ((g.step predicate pattern).tree.aliases.Nodup →
          Placed seed (g.step predicate pattern)) := by
    intro g predicate pattern known _ _ _
    refine ⟨tidy_step known.1, fun apart => ?_⟩
    rw [aliases_step] at apart
    obtain ⟨before, -, between⟩ := List.nodup_append.mp apart
    refine (known.2 before).step known.1 fun old => ?_
    exact between _ old _ (List.mem_singleton_self _) rfl
  exact (run.keeps kept (fun _ member => member) ⟨tidy, fun _ => placed⟩).2 apart

end Growth

def IsSeed (before : List Element) (pattern : GraphPattern) (t : TriplePattern) : Prop :=
  ∃ front back, pattern.triples = front ++ t :: back ∧ (∀ u ∈ front, Occurs before u) ∧
    ¬ Occurs before t

def Seeds (elements : List Element) (t : TriplePattern) : Prop :=
  ∃ before pattern after, elements = before ++ .pattern pattern :: after ∧ IsSeed before pattern t

theorem Seeds.occurs {elements : List Element} {t : TriplePattern} (seeds : Seeds elements t) :
    Occurs elements t := by
  obtain ⟨before, pattern, after, rfl, front, back, triples, -, -⟩ := seeds
  exact ⟨.pattern pattern, by simp, t, by simp [Element.triples, triples], rfl⟩

theorem IsSeed.unique {before : List Element} {pattern : GraphPattern} {t u : TriplePattern}
    (one : IsSeed before pattern t) (two : IsSeed before pattern u) : t = u := by
  obtain ⟨front, back, first, known, fresh⟩ := one
  obtain ⟨front', back', second, known', fresh'⟩ := two
  rcases List.append_eq_append_iff.mp (first.symm.trans second) with
    ⟨gap, rfl, rest⟩ | ⟨gap, rfl, rest⟩
  · cases gap with
    | nil => exact (List.cons.inj rest).1
    | cons head gap =>
      cases rest
      exact absurd (known' t (by simp)) fresh
  · cases gap with
    | nil => exact (List.cons.inj rest).1.symm
    | cons head gap =>
      cases rest
      exact absurd (known u (by simp)) fresh'

namespace Plan

variable {tables : TableMap} {done : List Element} {p : Progress} {pattern : GraphPattern}
  {bindings bound : Bindings} {s : PlanState} {tree : JoinTree}

theorem Outline.occurs_iff (outline : Outline tables done p) (t : TriplePattern) :
    Occurs done t ↔ t.folded ∈ p.state.planned :=
  (outline.mem_planned t.folded).symm

structure Sited (before : List Element) (pattern : GraphPattern) (s : PlanState) (tree : JoinTree) :
    Prop where
  leads : ∀ leaf ∈ tree.leaves, Leads pattern.triples leaf.2 ∧ ¬ Occurs before leaf.2
  waits : ∀ leaf ∈ tree.leaves, IsSeed before pattern leaf.2 →
    ∀ c ∈ JoinTree.leafConstants leaf, s.Waits leaf.1.aliasName c
  joined : ∀ leaf ∈ tree.leaves, IsSeed before pattern leaf.2 ∨ tree.Introduces leaf

theorem Outline.sited (outline : Outline tables done p)
    (run : PatternRun p.state bindings pattern (some tree) s bound) (apart : tree.aliases.Nodup) :
    Sited done pattern s tree := by
  obtain ⟨left, grownFrom, -⟩ := run.founded outline.tidy
  cases run with
  | grown order known fresh mapped run left =>
    rename_i before seed others predicate g
    have placed := run.placed (outline.tidy.settle _ _ _) Growth.placed_seed apart
    have isSeed : IsSeed done pattern seed :=
      ⟨before, others, order, fun u member => (outline.occurs_iff u).mpr (known u member),
        fun occurs => fresh ((outline.occurs_iff seed).mp occurs)⟩
    have start : (seedGrowth p.state bindings pattern.filters predicate seed).state.planned =
        p.state.planned ++ [seed.folded] := by
      simp [seedGrowth, PlanState.settle]
    refine ⟨?_, ?_, ?_⟩
    · intro leaf present
      have new : leaf.2.folded ∉ p.state.planned := grownFrom.fresh leaf present
      refine ⟨?_, fun occurs => new ((outline.occurs_iff _).mp occurs)⟩
      rw [order]
      have earlier : ∀ u ∈ before, ¬ u.Same leaf.2 := by
        intro u member same
        exact new (same ▸ known u member)
      rcases run.leads leaf present with first | ⟨later, leads⟩
      · cases List.mem_singleton.mp first
        exact ⟨before, others, rfl, earlier⟩
      · rw [start, List.mem_append, not_or, List.mem_singleton] at later
        refine Leads.append_left ?_ before earlier
        exact leads.append_left [seed] (by simpa using fun same => later.2 same.symm)
    · intro leaf present also c demanded
      have same : leaf = (p.state.aliases.relation predicate, seed) := by
        refine List.inj_on_of_nodup_map grownFrom.apart present placed.present ?_
        exact congrArg TriplePattern.folded (also.unique isSeed)
      subst same
      exact (PlanState.waits_await _ _ _ _ _).mpr (.inl (placed.waits c demanded))
    · intro leaf present
      rcases placed.joined leaf present with rfl | introduced
      · exact .inl isSeed
      · exact .inr introduced

theorem seeds_concat {t : TriplePattern} :
    Seeds (done ++ [.pattern pattern]) t ↔ Seeds done t ∨ IsSeed done pattern t := by
  constructor
  · rintro ⟨before, other, after, split, seed⟩
    rcases split_concat split with ⟨rfl, same, -⟩ | ⟨rest, split, -⟩
    · cases same
      exact .inr seed
    · exact .inl ⟨before, other, rest, split, seed⟩
  · rintro (⟨before, other, after, rfl, seed⟩ | seed)
    · exact ⟨before, other, after ++ [.pattern pattern], by simp, seed⟩
    · exact ⟨done, pattern, [], rfl, seed⟩

theorem leads_concat {t : TriplePattern} (leads : Leads pattern.triples t)
    (fresh : ¬ Occurs done t) :
    Leads ((done ++ [Element.pattern pattern]).flatMap Element.triples) t := by
  rw [List.flatMap_append]
  refine Leads.append_left (by simpa [Element.triples] using leads) _ ?_
  intro u member same
  obtain ⟨e, present, used⟩ := List.mem_flatMap.mp member
  exact fresh ⟨e, present, u, used, same⟩

structure Stationed (done : List Element) (p : Progress) : Prop where
  leads : ∀ leaf ∈ p.leaves, Leads (done.flatMap Element.triples) leaf.2
  waits : ∀ leaf ∈ p.leaves, Seeds done leaf.2 →
    ∀ c ∈ JoinTree.leafConstants leaf, p.state.Waits leaf.1.aliasName c
  joined : ∀ leaf ∈ p.leaves, Seeds done leaf.2 ∨
    ∃ tree, p.tree = some tree ∧ tree.Introduces leaf

theorem stationed_start (tables : TableMap) : Stationed [] (.start tables) :=
  ⟨by simp [Progress.leaves, Progress.start], by simp [Progress.leaves, Progress.start],
    by simp [Progress.leaves, Progress.start]⟩

theorem Outline.not_isSeed (outline : Outline tables done p) {leaf : Relation × TriplePattern}
    (present : leaf ∈ p.leaves) : ¬ IsSeed done pattern leaf.2 := by
  rintro ⟨_, _, _, _, fresh⟩
  refine fresh ((outline.occurs_iff _).mpr ?_)
  rw [outline.planned]
  exact List.mem_map.mpr ⟨leaf, present, rfl⟩

theorem Stationed.redundant (stationed : Stationed done p) (outline : Outline tables done p) :
    Stationed (done ++ [.pattern pattern]) p := by
  refine ⟨?_, ?_, ?_⟩
  · intro leaf present
    rw [List.flatMap_append]
    exact (stationed.leads leaf present).append_right
  · intro leaf present seeds
    rcases seeds_concat.mp seeds with old | new
    · exact stationed.waits leaf present old
    · exact absurd new (outline.not_isSeed present)
  · intro leaf present
    exact (stationed.joined leaf present).imp_left fun seeds => seeds_concat.mpr (.inl seeds)

theorem Stationed.require (stationed : Stationed done p) (required : Required tables done p)
    (run : PatternRun p.state p.required pattern (some tree) s bound)
    (apart : (p.aliases ++ tree.aliases).Nodup) :
    Stationed (done ++ [.pattern pattern]) (p.require (some tree) s bound) := by
  obtain ⟨-, own, between⟩ := List.nodup_append.mp apart
  obtain ⟨left, -, founded, -⟩ := run.founded required.tidy
  have sited := required.toOutline.sited run own
  refine ⟨?_, ?_, ?_⟩
  · intro leaf present
    rw [Progress.leaves_require] at present
    rcases List.mem_append.mp present with old | new
    · rw [List.flatMap_append]
      exact (stationed.leads leaf old).append_right
    · exact leads_concat (sited.leads leaf new).1 (sited.leads leaf new).2
  -- An old leaf is not the seed of the new element, nor a new leaf that of an old one.
  · intro leaf present seeds c demanded
    rw [Progress.leaves_require] at present
    rcases List.mem_append.mp present with old | new
    · rcases seeds_concat.mp seeds with before | last
      · have other : leaf.1.aliasName ∉ tree.aliases := fun taken =>
          between _ (List.mem_map.mpr ⟨leaf, old, rfl⟩) _ taken rfl
        exact (founded.frame _ other c).mpr (stationed.waits leaf old before c demanded)
      · exact absurd last (required.toOutline.not_isSeed old)
    · rcases seeds_concat.mp seeds with before | last
      · exact absurd before.occurs (sited.leads leaf new).2
      · exact sited.waits leaf new last c demanded
  · intro leaf present
    rw [Progress.leaves_require] at present
    rw [seeds_concat]
    cases held : p.tree with
    | none =>
      have whole : (p.require (some tree) s bound).tree = some tree := by
        simp [Progress.require, held]
      have none : p.leaves = [] := by simp [Progress.leaves, held]
      rw [none, List.nil_append] at present
      rcases sited.joined leaf present with seed | introduced
      · exact .inl (.inr seed)
      · exact .inr ⟨tree, whole, introduced⟩
    | some t =>
      have whole : (p.require (some tree) s bound).tree =
          some (.join t .inner tree (distinct (t.links tree bound))) := by
        simp [Progress.require, held, JoinTree.add]
      rcases List.mem_append.mp present with old | new
      · rcases stationed.joined leaf old with seeds | ⟨other, same, introduced⟩
        · exact .inl (.inl seeds)
        · cases held.symm.trans same
          exact .inr ⟨_, whole, introduced.inInit _ _⟩
      · rcases sited.joined leaf new with seed | introduced
        · exact .inl (.inr seed)
        · exact .inr ⟨_, whole, introduced.inLast _ _⟩

theorem stationed_required {elements : List Element}
    (run : (addEach addRequired (.start tables) elements).outcome = .ok p)
    (apart : p.aliases.Nodup) : Stationed elements p := by
  refine required_induction Stationed (stationed_start tables) ?_ ?_ run apart
  · intro done p pattern known stationed _
    exact stationed.redundant known.toOutline
  · intro done p pattern tree s bound known stationed run apart
    exact stationed.require known run apart

structure Manned (before : List Element) (b : Branch) : Prop where
  leads : ∀ leaf ∈ b.leaves, Leads b.pattern.triples leaf.2 ∧ ¬ Occurs before leaf.2
  held : ∀ member on, b.joined = some (member, on) → ∀ leaf ∈ member.leaves,
    IsSeed before b.pattern leaf.2 → ∀ c ∈ JoinTree.leafConstants leaf, c ∈ on
  joined : ∀ member on, b.joined = some (member, on) → ∀ leaf ∈ member.leaves,
    IsSeed before b.pattern leaf.2 ∨ member.Introduces leaf

theorem Sited.manned {init : JoinTree} (sited : Sited done pattern s tree) (tidy : s.Tidy)
    (bindings : Bindings) : Manned done (branchOf pattern init tree bindings s) := by
  refine ⟨sited.leads, ?_, ?_⟩
  · intro member on same leaf present seed c demanded
    cases same
    have waits := sited.waits leaf present seed c demanded
    rw [mem_distinct, List.mem_append, PlanState.mem_takeAll tidy]
    exact .inr ⟨_, List.mem_map.mpr ⟨leaf, present, rfl⟩, waits⟩
  · intro member on same
    cases same
    exact sited.joined

theorem manned_run {required elements : List Element} {base : Progress}
    (known : Required tables required base)
    (run : (addEach addOptional base.turn elements).outcome = .ok p) (apart : p.aliases.Nodup) :
    ∃ bs, elements = bs.map Branch.element ∧ Allowed tables required base bs p ∧
      ∀ earlier b later, bs = earlier ++ b :: later →
        Manned (required ++ earlier.map Branch.element) b := by
  refine allowed_induction (fun bs _ => ∀ earlier b later, bs = earlier ++ b :: later →
    Manned (required ++ earlier.map Branch.element) b) known (by simp) ?_ ?_ run apart
  · intro bs p init pattern s bound allowed manned held run
    exact splits_concat manned ⟨by simp [Branch.leaves], by simp, by simp⟩
  · intro bs p init member pattern s bound allowed manned held run apart
    obtain ⟨left, -, founded, -⟩ := run.founded allowed.tidy
    have sited := allowed.toOutline.sited run (List.nodup_append.mp apart).2.1
    exact splits_concat manned (sited.manned founded.tidy p.required)

end Plan

end GraphSql
