import GraphSql.Proofs.Planning.Pattern

namespace GraphSql
open Sql

-- What planning the elements of a query does to its tables.

namespace Element

def triples : Element → List TriplePattern
  | .pattern p => p.triples
  | .subquery _ _ => []

def filters : Element → List Filter
  | .pattern p => p.filters
  | .subquery _ _ => []

def names (e : Element) : List String := e.triples.flatMap TriplePattern.names

end Element

def ownTriples (before : List Element) (pattern : GraphPattern) : List TriplePattern :=
  distinct ((pattern.triples.map (·.folded)).filter
    (· ∉ before.flatMap fun e => e.triples.map (·.folded)))

def Owned (elements : List Element) (f : Filter) : Prop :=
  ∃ before pattern after, elements = before ++ .pattern pattern :: after ∧
    ownTriples before pattern ≠ [] ∧ f ∈ pattern.filters

theorem Owned.concat {elements : List Element} {f : Filter} (owned : Owned elements f)
    (last : Element) : Owned (elements ++ [last]) f := by
  obtain ⟨before, pattern, after, rfl, own, used⟩ := owned
  exact ⟨before, pattern, after ++ [last], by simp, own, used⟩

theorem split_concat {α : Type} {done before after : List α} {item last : α}
    (same : done ++ [last] = before ++ item :: after) :
    (before = done ∧ item = last ∧ after = []) ∨
      ∃ rest, done = before ++ item :: rest ∧ after = rest ++ [last] := by
  rcases List.eq_nil_or_concat after with rfl | ⟨rest, other, rfl⟩
  · obtain ⟨rfl, single⟩ := List.append_inj' same rfl
    cases single
    exact .inl ⟨rfl, rfl, rfl⟩
  · rw [List.concat_eq_append, ← List.cons_append, ← List.append_assoc] at same
    obtain ⟨rfl, single⟩ := List.append_inj' same rfl
    cases single
    exact .inr ⟨rest, rfl, List.concat_eq_append⟩

theorem splits_concat {α : Type} {holds : List α → α → Prop} {items : List α} {last : α}
    (earlier : ∀ before item after, items = before ++ item :: after → holds before item)
    (new : holds items last) :
    ∀ before item after, items ++ [last] = before ++ item :: after → holds before item := by
  intro before item after split
  rcases split_concat split with ⟨rfl, rfl, -⟩ | ⟨rest, split, -⟩
  · exact new
  · exact earlier before item rest split

theorem Sql.JoinTree.mem_links {t member : JoinTree} {bindings : Bindings} {c : Condition} :
    c ∈ t.links member bindings ↔
      ∃ name one two, (name, one) ∈ t.held ∧ bindings.lookup name = some one ∧
        (name, two) ∈ member.held ∧ c = linked one two := by
  simp only [links, mem_distinct, List.mem_flatMap, List.mem_filter, List.mem_map,
    mem_heldVariables, beq_iff_eq]
  constructor
  · intro present
    obtain ⟨⟨name, one⟩, ⟨held, looked⟩, ⟨⟨other, two⟩, ⟨own, same⟩, rfl⟩⟩ := present
    simp only at same looked
    subst same
    exact ⟨other, one, two, held, looked, own, rfl⟩
  · intro present
    obtain ⟨name, one, two, held, looked, own, rfl⟩ := present
    exact ⟨(name, one), ⟨held, looked⟩, (name, two), ⟨own, rfl⟩, rfl⟩

namespace Plan

namespace Progress

def leaves (p : Progress) : List (Relation × TriplePattern) := (p.tree.map (·.leaves)).getD []

def aliases (p : Progress) : List String := p.leaves.map (·.1.aliasName)

def held (p : Progress) : Bindings := p.leaves.flatMap JoinTree.leafVariables

def conditions (p : Progress) : List Condition := (p.tree.map (·.conditions)).getD []

def Has (p : Progress) (c : Condition) : Prop :=
  c ∈ p.conditions ∨ ∃ aliasName, p.state.Waits aliasName c

theorem aliases_of_tree {p : Progress} {t : JoinTree} (held : p.tree = some t) :
    p.aliases = t.aliases := by
  simp [aliases, leaves, held, JoinTree.aliases]

variable (p : Progress) (member : JoinTree) (s : PlanState) (bindings : Bindings)

@[simp] theorem require_none : p.require none s bindings =
    { p with state := s, required := bindings } := by
  cases tree : p.tree <;> simp [require, tree]

@[simp] theorem leaves_require :
    (p.require (some member) s bindings).leaves = p.leaves ++ member.leaves := by
  cases tree : p.tree <;> simp [require, leaves, tree]

@[simp] theorem held_require :
    (p.require (some member) s bindings).held = p.held ++ member.held := by
  simp [held, JoinTree.held]

@[simp] theorem aliases_require :
    (p.require (some member) s bindings).aliases = p.aliases ++ member.aliases := by
  simp [aliases, JoinTree.aliases]

theorem mem_conditions_require (c : Condition) :
    c ∈ (p.require (some member) s bindings).conditions ↔
      c ∈ p.conditions ∨ c ∈ member.conditions ∨
        ∃ name one two, (name, one) ∈ p.held ∧ bindings.lookup name = some one ∧
          (name, two) ∈ member.held ∧ c = linked one two := by
  cases tree : p.tree with
  | none => simp [require, conditions, held, leaves, tree]
  | some t =>
    have same : p.held = t.held := by simp [held, leaves, tree, JoinTree.held]
    simp [require, conditions, tree, JoinTree.mem_conditions_add, JoinTree.mem_links, same]

end Progress

structure Outline (tables : TableMap) (done : List Element) (p : Progress) : Prop where
  same : p.state.aliases.tables = tables
  planned : p.state.planned = p.leaves.map (·.2.folded)
  apart : p.state.planned.Nodup
  named : ∀ leaf ∈ p.leaves, Growth.Named tables leaf
  among : ∀ leaf ∈ p.leaves, ∃ e ∈ done, leaf.2 ∈ e.triples
  covers : ∀ e ∈ done, ∀ t ∈ e.triples, t.folded ∈ p.state.planned
  tidy : p.state.Tidy

section outline

variable {tables : TableMap} {done : List Element} {p next : Progress} {pattern : GraphPattern}
  {bindings bound : Bindings} {s : PlanState} {tree : JoinTree} {found : Option JoinTree}

theorem outline_start (tables : TableMap) : Outline tables [] (.start tables) where
  same := rfl
  planned := rfl
  apart := .nil
  named := by simp [Progress.leaves, Progress.start]
  among := by simp [Progress.leaves, Progress.start]
  covers := by simp
  tidy := .nil

theorem Outline.mem_planned (outline : Outline tables done p) (t : TriplePattern) :
    t ∈ p.state.planned ↔ ∃ e ∈ done, ∃ u ∈ e.triples, u.folded = t := by
  constructor
  · intro member
    rw [outline.planned] at member
    obtain ⟨leaf, present, rfl⟩ := List.mem_map.mp member
    obtain ⟨e, planned, among⟩ := outline.among leaf present
    exact ⟨e, planned, leaf.2, among, rfl⟩
  · intro member
    obtain ⟨e, planned, u, among, rfl⟩ := member
    exact outline.covers e planned u among

theorem Outline.own_leaves (outline : Outline tables done p)
    (run : PatternRun p.state bindings pattern (some tree) s bound) :
    (tree.leaves.map (·.2.folded)).Perm (ownTriples done pattern) := by
  obtain ⟨left, grown, -⟩ := run.founded outline.tidy
  refine (List.perm_ext_iff_of_nodup grown.apart (nodup_distinct _)).mpr ?_
  intro t
  simp only [mem_distinct, List.mem_filter, decide_eq_true_eq]
  have known : t ∈ done.flatMap (fun e => e.triples.map (·.folded)) ↔ t ∈ p.state.planned := by
    simp [outline.mem_planned]
  rw [known]
  constructor
  · intro member
    obtain ⟨leaf, present, rfl⟩ := List.mem_map.mp member
    exact ⟨List.mem_map.mpr ⟨leaf.2, grown.among leaf present, rfl⟩, grown.fresh leaf present⟩
  · intro member
    obtain ⟨member, fresh⟩ := member
    obtain ⟨u, among, rfl⟩ := List.mem_map.mp member
    have covered := run.covers u among
    rw [show s.planned = _ from grown.planned] at covered
    rcases List.mem_append.mp covered with old | new
    · exact absurd old fresh
    · exact new

theorem Outline.ownTriples_ne_nil (outline : Outline tables done p)
    (run : PatternRun p.state bindings pattern (some tree) s bound) :
    ownTriples done pattern ≠ [] := by
  intro none
  have length := (outline.own_leaves run).length_eq
  rw [none, List.length_map, List.length_nil, List.length_eq_zero_iff] at length
  exact tree.leaves_ne_nil length

theorem Outline.ownTriples_nil (outline : Outline tables done p)
    (run : PatternRun p.state bindings pattern none s bound) : ownTriples done pattern = [] := by
  cases run with
  | redundant known =>
    rw [List.eq_nil_iff_forall_not_mem]
    intro t member
    simp only [ownTriples, mem_distinct, List.mem_filter, decide_eq_true_eq] at member
    obtain ⟨u, among, rfl⟩ := List.mem_map.mp member.1
    obtain ⟨e, planned, w, used, same⟩ := (outline.mem_planned _).mp (known u among)
    exact member.2 (List.mem_flatMap.mpr ⟨e, planned, List.mem_map.mpr ⟨w, used, same⟩⟩)

theorem Outline.extend (outline : Outline tables done p)
    (run : PatternRun p.state bindings pattern found s bound)
    (leaves : next.leaves = p.leaves ++ (found.map (·.leaves)).getD [])
    (aliases : next.state.aliases = s.aliases) (planned : next.state.planned = s.planned)
    (tidy : next.state.Tidy) : Outline tables (done ++ [.pattern pattern]) next := by
  have covers : ∀ e ∈ done ++ [.pattern pattern], ∀ t ∈ e.triples,
      t.folded ∈ next.state.planned := by
    rw [planned]
    intro e member t used
    rcases List.mem_append.mp member with old | new
    · have known := outline.covers e old t used
      cases found with
      | none => cases run with | redundant => exact known
      | some tree =>
        obtain ⟨left, grown, -⟩ := run.founded outline.tidy
        rw [show s.planned = _ from grown.planned]
        exact List.mem_append_left _ known
    · cases List.mem_singleton.mp new
      exact run.covers t used
  cases found with
  | none =>
    cases run with
    | redundant known =>
      have leaves : next.leaves = p.leaves := by simpa using leaves
      refine ⟨aliases ▸ outline.same, ?_, planned ▸ outline.apart, ?_, ?_, covers, tidy⟩
      · rw [planned, leaves, outline.planned]
      · rw [leaves]
        exact outline.named
      · intro leaf member
        obtain ⟨e, old, used⟩ := outline.among leaf (leaves ▸ member)
        exact ⟨e, List.mem_append_left _ old, used⟩
  | some tree =>
    obtain ⟨left, grown, -⟩ := run.founded outline.tidy
    have parts : s.planned = p.state.planned ++ tree.leaves.map (·.2.folded) := grown.planned
    have leaves : next.leaves = p.leaves ++ tree.leaves := leaves
    refine ⟨?_, ?_, ?_, ?_, ?_, covers, tidy⟩
    · rw [aliases]
      exact grown.tables.trans outline.same
    · rw [planned, parts, leaves, outline.planned, List.map_append]
    · rw [planned, parts]
      refine List.nodup_append.mpr ⟨outline.apart, grown.apart, ?_⟩
      intro one old two new same
      subst same
      obtain ⟨leaf, present, rfl⟩ := List.mem_map.mp new
      exact grown.fresh leaf present old
    · intro leaf member
      rcases List.mem_append.mp (leaves ▸ member) with old | new
      · exact outline.named leaf old
      · exact outline.same ▸ grown.named leaf new
    · intro leaf member
      rcases List.mem_append.mp (leaves ▸ member) with old | new
      · obtain ⟨e, planned, used⟩ := outline.among leaf old
        exact ⟨e, List.mem_append_left _ planned, used⟩
      · exact ⟨_, List.mem_append_right _ (List.mem_singleton_self _), grown.among leaf new⟩

theorem Outline.turn (outline : Outline tables done p) : Outline tables done p.turn :=
  ⟨outline.same, outline.planned, outline.apart, outline.named, outline.among, outline.covers,
    outline.tidy⟩

theorem Outline.require (outline : Outline tables done p)
    (run : PatternRun p.state p.required pattern found s bound) :
    Outline tables (done ++ [.pattern pattern]) (p.require found s bound) := by
  cases found with
  | none =>
    have tidy : s.Tidy := by cases run with | redundant => exact outline.tidy
    exact outline.extend run (by simp [Progress.leaves]) (by simp) (by simp) (by simpa using tidy)
  | some tree =>
    obtain ⟨left, -, founded, -⟩ := run.founded outline.tidy
    exact outline.extend run (by simp) rfl rfl founded.tidy

theorem Outline.allow {init : JoinTree} (outline : Outline tables done p)
    (held : p.tree = some init) (run : PatternRun p.state p.required pattern found s bound) :
    Outline tables (done ++ [.pattern pattern]) (p.allow init found s bound) := by
  cases found with
  | none =>
    have tidy : s.Tidy := by cases run with | redundant => exact outline.tidy
    exact outline.extend run (by simp [Progress.allow, Progress.leaves]) rfl rfl tidy
  | some member =>
    obtain ⟨left, -, founded, -⟩ := run.founded outline.tidy
    refine outline.extend run ?_ ?_ ?_ (PlanState.Tidy.takeAll founded.tidy _)
    · simp [Progress.allow, Progress.leaves, held]
    · simp [Progress.allow]
    · simp [Progress.allow]

end outline

-- Where the conditions come from. A filter has its condition if its element has triples of its own,
-- and at least two of them if it is between two variables.
structure Sourced (done : List Element) (p : Progress) : Prop where
  drawn : ∀ entry ∈ p.required, entry ∈ p.held
  sound : ∀ c, p.Has c → Justified p.held p.leaves (Owned done) c
  filtered : ∀ before pattern after, done = before ++ .pattern pattern :: after →
    ownTriples before pattern ≠ [] → ∀ f ∈ pattern.filters,
    (f.vars.length = 2 → 2 ≤ (ownTriples before pattern).length) →
    ∃ c, p.Has c ∧ Expresses p.held f c

section sourced

variable {tables : TableMap} {done : List Element} {p next : Progress} {pattern : GraphPattern}
  {bound : Bindings} {s : PlanState} {tree : JoinTree}

theorem sourced_start (tables : TableMap) : Sourced [] (.start tables) where
  drawn := by simp [Progress.start]
  sound := by
    intro c has
    rcases has with present | ⟨_, entry, member, _⟩
    · cases present
    · cases member
  filtered := by simp

theorem Sourced.redundant (sourced : Sourced done p) (none : ownTriples done pattern = []) :
    Sourced (done ++ [.pattern pattern]) p := by
  refine ⟨sourced.drawn, ?_, ?_⟩
  · intro c has
    exact (sourced.sound c has).mono (fun _ => id) (fun _ => id) fun f owned => owned.concat _
  · intro before other after split own f member pair
    rcases split_concat split with ⟨rfl, same, -⟩ | ⟨rest, split, -⟩
    · cases same
      exact absurd none own
    · exact sourced.filtered before other rest split own f member pair

theorem Sourced.extend (sourced : Sourced done p) (outline : Outline tables done p)
    (run : PatternRun p.state p.required pattern (some tree) s bound)
    (leaves : next.leaves = p.leaves ++ tree.leaves)
    (drawn : ∀ entry ∈ next.required, entry ∈ next.held)
    (has : ∀ left c, Growth.Founded p.state p.required pattern.filters ⟨s, bound, tree, left⟩ →
      (p.Has c ∨ Growth.Own ⟨s, bound, tree, left⟩ c → next.Has c) ∧
      (next.Has c → p.Has c ∨ Growth.Own ⟨s, bound, tree, left⟩ c ∨
        ∃ name one two, (name, one) ∈ p.held ∧ (name, two) ∈ tree.held ∧ c = linked one two)) :
    Sourced (done ++ [.pattern pattern]) next := by
  obtain ⟨left, grown, founded, pairs, long⟩ := run.founded outline.tidy
  have some := outline.ownTriples_ne_nil run
  have held : next.held = p.held ++ tree.held := by
    rw [Progress.held, leaves, List.flatMap_append]
    rfl
  have inside : ∀ entry ∈ p.required ++ tree.held, entry ∈ next.held := by
    rw [held]
    intro entry member
    rcases List.mem_append.mp member with old | new
    · exact List.mem_append_left _ (sourced.drawn entry old)
    · exact List.mem_append_right _ new
  have earlier : ∀ c, p.Has c →
      Justified next.held next.leaves (Owned (done ++ [.pattern pattern])) c := by
    rw [held, leaves]
    intro c has
    exact (sourced.sound c has).mono (fun _ => List.mem_append_left _)
      (fun _ => List.mem_append_left _) fun f owned => owned.concat _
  refine ⟨drawn, ?_, ?_⟩
  · intro c now
    rcases (has left c founded).2 now with old | own | ⟨name, one, two, first, second, rfl⟩
    · exact earlier c old
    · rcases founded.sound c own with ⟨aliasName, _, waits⟩ | justified
      · exact earlier c (.inr ⟨aliasName, waits⟩)
      · refine justified.mono inside (leaves ▸ fun _ => List.mem_append_right _) ?_
        intro f used
        exact ⟨done, pattern, [], rfl, some, used⟩
    · rw [held]
      exact .same (List.mem_append_left _ first) (List.mem_append_right _ second)
  · intro before other after split own f member pair
    rcases split_concat split with ⟨rfl, same, -⟩ | ⟨rest, split, -⟩
    · cases same
      -- A filter that is left over is between two variables, and then there was one triple only.
      rcases founded.filtered f member with spare | ⟨c, placed, expressed⟩
      · have length := (outline.own_leaves run).length_eq
        rw [List.length_map] at length
        rw [long (length ▸ pair (pairs f spare))] at spare
        cases spare
      · exact ⟨c, (has left c founded).1 (.inr placed), expressed.mono inside⟩
    · obtain ⟨c, old, expressed⟩ := sourced.filtered before other rest split own f member pair
      refine ⟨c, (has left c founded).1 (.inl old), expressed.mono ?_⟩
      rw [held]
      exact fun _ => List.mem_append_left _

theorem has_allow {init : JoinTree} {left : List Filter}
    (founded : Growth.Founded p.state p.required pattern.filters ⟨s, bound, tree, left⟩)
    (held : p.tree = some init) (c : Condition) :
    (p.allow init (some tree) s bound).Has c ↔
      p.Has c ∨ Growth.Own ⟨s, bound, tree, left⟩ c ∨ c ∈ init.links tree p.required := by
  have conditions : c ∈ (p.allow init (some tree) s bound).conditions ↔
      c ∈ p.conditions ∨ c ∈ tree.conditions ∨ c ∈ init.links tree p.required ∨
        ∃ name ∈ tree.aliases, s.Waits name c := by
    simp [Progress.allow, Progress.conditions, held, JoinTree.mem_conditions_add,
      PlanState.mem_takeAll founded.tidy]
  have waits : ∀ name, (p.allow init (some tree) s bound).state.Waits name c ↔
      name ∉ tree.aliases ∧ p.state.Waits name c := by
    intro name
    rw [Progress.allow, PlanState.waits_takeAll]
    exact and_congr_right fun other => founded.frame name other c
  simp only [Progress.Has, conditions, waits, Growth.Own]
  constructor
  · intro has
    rcases has with (old | placed | link | waiting) | ⟨name, _, waits⟩
    · exact .inl (.inl old)
    · exact .inr (.inl (.inl placed))
    · exact .inr (.inr link)
    · exact .inr (.inl (.inr waiting))
    · exact .inl (.inr ⟨name, waits⟩)
  · intro has
    rcases has with (old | ⟨name, waits⟩) | (placed | waiting) | link
    · exact .inl (.inl old)
    · by_cases taken : name ∈ tree.aliases
      · rcases founded.taken name taken c waits with placed | waiting
        · exact .inl (.inr (.inl placed))
        · exact .inl (.inr (.inr (.inr waiting)))
      · exact .inr ⟨name, taken, waits⟩
    · exact .inl (.inr (.inl placed))
    · exact .inl (.inr (.inr (.inr waiting)))
    · exact .inl (.inr (.inr (.inl link)))

theorem Sourced.turn (sourced : Sourced done p) : Sourced done p.turn :=
  ⟨sourced.drawn, sourced.sound, sourced.filtered⟩

theorem Sourced.allow {init : JoinTree} {found : Option JoinTree} (sourced : Sourced done p)
    (outline : Outline tables done p) (held : p.tree = some init)
    (run : PatternRun p.state p.required pattern found s bound) :
    Sourced (done ++ [.pattern pattern]) (p.allow init found s bound) := by
  cases found with
  | none =>
    have none := outline.ownTriples_nil run
    cases run with
    | redundant known => exact sourced.redundant none
  | some tree =>
    have leaves : (p.allow init (some tree) s bound).leaves = p.leaves ++ tree.leaves := by
      simp [Progress.allow, Progress.leaves, held]
    have before : p.held = init.held := by
      simp [Progress.held, Progress.leaves, held, JoinTree.held]
    refine sourced.extend outline run leaves ?_ ?_
    · intro entry member
      rw [Progress.held, leaves, List.flatMap_append]
      exact List.mem_append_left _ (sourced.drawn entry member)
    · intro left c founded
      rw [has_allow founded held]
      refine ⟨fun either => either.imp_right .inl, ?_⟩
      intro has
      rcases has with old | own | link
      · exact .inl old
      · exact .inr (.inl own)
      · obtain ⟨name, one, two, first, _, second, same⟩ := JoinTree.mem_links.mp link
        exact .inr (.inr ⟨name, one, two, before ▸ first, second, same⟩)

end sourced

end Plan

end GraphSql
