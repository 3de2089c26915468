import GraphSql.Proofs.Planning.Placement
import GraphSql.Proofs.Planning.Reach

namespace GraphSql
open Sql

-- A pattern is joined greedily, each time with the first triple that can be joined. No other order
-- joins more, and the order in which the triples stand does not decide how planning ends.

def verdict {α : Type} (answer : Except PlanError α) : Except PlanError.Kind Unit :=
  relabel PlanError.kind (fun _ => ()) answer

-- The variables that get a column when `others` follow the triple `seed`: those that have one with
-- the seed, and with them all variables of a triple that is not planned yet and has a constant or
-- one of them.
inductive Connected (s : PlanState) (bindings : Bindings) (seed : TriplePattern)
    (others : List TriplePattern) : String → Prop where
  | bound (held : (bindings.lookup name).isSome) : Connected s bindings seed others name
  | seed (named : name ∈ seed.names) : Connected s bindings seed others name
  | constant (later : t ∈ others) (fresh : t.folded ∉ s.planned) (fixed : t.HasConstant)
      (named : name ∈ t.names) : Connected s bindings seed others name
  | shared (later : t ∈ others) (fresh : t.folded ∉ s.planned) (common : other ∈ t.names)
      (connected : Connected s bindings seed others other) (named : name ∈ t.names) :
      Connected s bindings seed others name

def Stranded (s : PlanState) (bindings : Bindings) (seed : TriplePattern)
    (others : List TriplePattern) (t : TriplePattern) : Prop :=
  ∃ v w, t.subject = .variable v ∧ t.object = .variable w ∧
    ¬ Connected s bindings seed others v.name ∧ ¬ Connected s bindings seed others w.name

def Loose (s : PlanState) (bindings : Bindings) (seed : TriplePattern)
    (others : List TriplePattern) (f : Filter) : Prop :=
  (∃ v ∈ f.vars, ¬ Connected s bindings seed others v.name) ∨
    ∀ v ∈ f.vars, ∀ t ∈ seed :: others, t.folded ∉ s.planned → v.name ∉ t.names

def Several (s : PlanState) (seed : TriplePattern) (others : List TriplePattern) : Prop :=
  ∃ t ∈ others, t.folded ∉ s.planned ∧ t.folded ≠ seed.folded

section order

variable {s : PlanState} {bindings : Bindings} {seed t : TriplePattern}
  {others others' : List TriplePattern} {f : Filter} {name : String}

theorem Connected.mono (subset : ∀ t ∈ others, t ∈ others')
    (connected : Connected s bindings seed others name) :
    Connected s bindings seed others' name := by
  induction connected with
  | bound held => exact .bound held
  | seed named => exact .seed named
  | constant later fresh fixed named => exact .constant (subset _ later) fresh fixed named
  | shared later fresh common _ named ih => exact .shared (subset _ later) fresh common ih named

theorem connected_perm (perm : others.Perm others') :
    Connected s bindings seed others = Connected s bindings seed others' := by
  funext name
  exact propext ⟨.mono fun _ => perm.mem_iff.mp, .mono fun _ => perm.mem_iff.mpr⟩

theorem exists_stranded_perm (perm : others.Perm others') :
    (∃ t ∈ others, Stranded s bindings seed others t) ↔
      ∃ t ∈ others', Stranded s bindings seed others' t := by
  simp only [Stranded, connected_perm perm, perm.mem_iff]

theorem several_perm (perm : others.Perm others') :
    Several s seed others ↔ Several s seed others' := by
  simp only [Several, perm.mem_iff]

theorem loose_perm (perm : others.Perm others') :
    Loose s bindings seed others f ↔ Loose s bindings seed others' f := by
  simp only [Loose, connected_perm perm, List.mem_cons, perm.mem_iff]

end order

theorem takeFirst?_none {α : Type} {wanted : α → Bool} {items : List α}
    (none : takeFirst? wanted items = none) : ∀ item ∈ items, wanted item = false := by
  induction items with
  | nil => simp
  | cons head rest ih =>
    unfold takeFirst? at none
    split at none
    next => cases none
    next unwanted =>
      have later := ih (Option.map_eq_none_iff.mp none)
      intro item member
      rcases List.mem_cons.mp member with rfl | member
      · exact Bool.not_eq_true _ ▸ unwanted
      · exact later item member

theorem takeFirst?_filter {α : Type} {wanted kept : α → Bool} {items others : List α} {found : α}
    (taken : takeFirst? wanted items = some (found, others)) (keeps : kept found = true) :
    takeFirst? wanted (items.filter kept) = some (found, others.filter kept) := by
  induction items generalizing others with
  | nil => cases taken
  | cons head rest ih =>
    unfold takeFirst? at taken
    split at taken
    next first =>
      cases taken
      simp [keeps, takeFirst?, first]
    next later =>
      obtain ⟨⟨inner, left⟩, hinner, same⟩ := Option.map_eq_some_iff.mp taken
      cases same
      by_cases held : kept head = true
      · simp [held, takeFirst?, later, ih hinner]
      · simp [held, ih hinner]

namespace Growth

variable {s : PlanState} {bindings : Bindings} {seed t : TriplePattern} {predicate : Iri}
  {triples before others remaining : List TriplePattern} {filters : List Filter} {f : Filter}
  {pattern : GraphPattern} {g next : Growth} {name : String}

theorem Grows.isJoinable_mono (run : Grows g remaining next)
    (joinable : isJoinable g.bindings t = true) : isJoinable next.bindings t = true := by
  induction run with
  | done => exact joinable
  | skip taken known rest ih => exact ih joinable
  | join taken fresh mapped rest ih => exact ih (isJoinable_addBindings _ joinable)

theorem extend_greedy (g : Growth) (remaining : List TriplePattern)
    (mapped : ∀ t ∈ remaining, ∃ predicate, t.predicate = .iri predicate) :
    ∃ next, Grows g (remaining.filter (isJoinable next.bindings)) next ∧
      (g.extend remaining).outcome =
        if remaining.all (isJoinable next.bindings) then .ok next
        else .error (.cannotBindAllSteps (remaining.filter (!isJoinable next.bindings ·))
          (next.bindings.map (·.1))) := by
  cases taken : takeFirst? (isJoinable g.bindings) remaining with
  | none =>
    have waits := takeFirst?_none taken
    have joins : remaining.filter (isJoinable g.bindings) = [] :=
      List.filter_eq_nil_iff.mpr fun t member => by simp [waits t member]
    have left : remaining.filter (!isJoinable g.bindings ·) = remaining :=
      List.filter_eq_self.mpr fun t member => by simp [waits t member]
    refine ⟨g, joins ▸ .done, ?_⟩
    rw [left]
    cases remaining with
    | nil => exact extend_nil g
    | cons t rest =>
      rw [extend_stuck (List.cons_ne_nil t rest) taken]
      simp [waits t List.mem_cons_self]
  | some found =>
    obtain ⟨t, others⟩ := found
    obtain ⟨front, back, whole, rest, -, joinable⟩ := takeFirst?_split taken
    have shorter : others.length < remaining.length := by
      rw [whole, rest, List.length_append, List.length_append, List.length_cons]
      omega
    have mapped' : ∀ u ∈ others, ∃ predicate, u.predicate = .iri predicate := fun u member =>
      mapped u ((mem_takeFirst? taken u).mpr (.inr member))
    obtain ⟨predicate, iri⟩ := mapped t ((mem_takeFirst? taken t).mpr (.inl rfl))
    rw [extend_taken taken]
    split
    next known =>
      obtain ⟨next, run, ended⟩ := extend_greedy g others mapped'
      -- What can be joined now still can in the end, so the last bindings let `t` through too.
      have ends := run.isJoinable_mono joinable
      refine ⟨next, .skip (takeFirst?_filter taken ends) known run, ended.trans ?_⟩
      simp [whole, rest, ends]
    next fresh =>
      rw [iri]
      obtain ⟨next, run, ended⟩ := extend_greedy (g.step predicate t) others mapped'
      have ends := run.isJoinable_mono (isJoinable_addBindings _ joinable)
      refine ⟨next, .join (takeFirst?_filter taken ends) fresh iri run, ended.trans ?_⟩
      simp [whole, rest, ends]
termination_by remaining.length

structure Inside (s : PlanState) (bindings : Bindings) (seed : TriplePattern)
    (others : List TriplePattern) (g : Growth) : Prop where
  kept : ∀ t ∈ s.planned, t ∈ g.state.planned
  bound : ∀ name, (g.bindings.lookup name).isSome → Connected s bindings seed others name

theorem inside_seed :
    Inside s bindings seed others (seedGrowth s bindings filters predicate seed) where
  kept := by
    intro t member
    simp [seedGrowth, PlanState.settle, member]
  bound := by
    intro name bound
    rw [seedGrowth, lookup_addBindings, Option.isSome_or, Bool.or_eq_true] at bound
    rcases bound with old | new
    · exact .bound old
    · exact .seed (JoinTree.mem_names_iff.mpr ((lookup_isSome_iff _ _).mp new))

theorem Inside.step (inside : Inside s bindings seed others g) (later : t ∈ others)
    (fresh : t.folded ∉ g.state.planned) (joinable : isJoinable g.bindings t = true) :
    Inside s bindings seed others (g.step predicate t) where
  kept := by
    intro u member
    rw [step_planned]
    exact List.mem_append_left _ (inside.kept u member)
  bound := by
    intro name bound
    rw [step_bindings, lookup_addBindings, Option.isSome_or, Bool.or_eq_true] at bound
    rcases bound with old | new
    · exact inside.bound name old
    · have unplanned := fun known => fresh (inside.kept _ known)
      have named := JoinTree.mem_names_iff.mpr ((lookup_isSome_iff _ _).mp new)
      rcases isJoinable_iff.mp joinable with fixed | ⟨other, common, held⟩
      · exact .constant later unplanned fixed named
      · exact .shared later unplanned common (inside.bound other held) named

theorem Grows.inside (run : Grows g remaining next) (among : ∀ t ∈ remaining, t ∈ others)
    (inside : Inside s bindings seed others g) : Inside s bindings seed others next :=
  run.keeps_joinable (fun _ _ _ inside later fresh _ => inside.step later fresh) among inside

theorem Grows.exists_leaf (run : Grows g remaining next) (grown : GrownFrom s bindings triples next)
    (member : t ∈ remaining) (fresh : t.folded ∉ s.planned) :
    ∃ leaf ∈ next.tree.leaves, leaf.2.folded = t.folded := by
  have planned := run.covers t member
  rw [grown.planned, List.mem_append] at planned
  exact List.mem_map.mp (planned.resolve_left fresh)

theorem holds_of_folded {tree : JoinTree} {leaf : Relation × TriplePattern}
    (present : leaf ∈ tree.leaves) (same : leaf.2.folded = t.folded) (named : name ∈ t.names) :
    tree.Holds name := by
  rw [← TriplePattern.names_same same] at named
  exact (JoinTree.holds_iff _ _).mpr ⟨leaf, present, named⟩

theorem bound_iff_connected (grown : GrownFrom s bindings triples next)
    (run : Grows (seedGrowth s bindings filters predicate seed)
      (others.filter (isJoinable next.bindings)) next) (name : String) :
    (next.bindings.lookup name).isSome ↔ Connected s bindings seed others name := by
  constructor
  · have among : ∀ t ∈ others.filter (isJoinable next.bindings), t ∈ others :=
      fun t member => (List.mem_filter.mp member).1
    exact (run.inside among inside_seed).bound name
  · intro connected
    -- Every triple that can be joined in the end was joined or has a table that is the same.
    have lands : ∀ t ∈ others, t.folded ∉ s.planned → isJoinable next.bindings t = true →
        ∀ name ∈ t.names, (next.bindings.lookup name).isSome := by
      intro t later fresh joinable name named
      obtain ⟨leaf, present, same⟩ :=
        run.exists_leaf grown (List.mem_filter.mpr ⟨later, joinable⟩) fresh
      exact grown.lookup_isSome (holds_of_folded present same named)
    induction connected with
    | bound held =>
      rw [grown.bound, lookup_addBindings, Option.isSome_or, held, Bool.true_or]
    | seed named => exact grown.lookup_isSome (holds_of_folded run.seed_mem rfl named)
    | constant later fresh fixed named =>
      exact lands _ later fresh (isJoinable_iff.mpr (.inl fixed)) _ named
    | shared later fresh common _ named ih =>
      exact lands _ later fresh (isJoinable_iff.mpr (.inr ⟨_, common, ih⟩)) _ named

theorem GrownFrom.several_iff (grown : GrownFrom s bindings triples next)
    (first : ∃ leaf ∈ next.tree.leaves, leaf.2 = seed)
    (among : ∀ leaf ∈ next.tree.leaves, leaf.2 ∈ seed :: others)
    (covered : ∀ t ∈ others, t.folded ∉ s.planned →
      ∃ leaf ∈ next.tree.leaves, leaf.2.folded = t.folded) :
    2 ≤ next.tree.leaves.length ↔ Several s seed others := by
  constructor
  · intro two
    apply Classical.byContradiction
    intro lone
    have all : next.tree.leaves.map (·.2.folded) =
        List.replicate next.tree.leaves.length seed.folded := by
      refine List.eq_replicate_iff.mpr ⟨List.length_map _, ?_⟩
      intro folded member
      obtain ⟨leaf, present, rfl⟩ := List.mem_map.mp member
      apply Classical.byContradiction
      intro differs
      rcases List.mem_cons.mp (among leaf present) with same | later
      · exact differs (congrArg _ same)
      · exact lone ⟨leaf.2, later, grown.fresh leaf present, differs⟩
    have apart := grown.apart
    rw [all, List.nodup_replicate] at apart
    omega
  · rintro ⟨t, later, fresh, differs⟩
    obtain ⟨one, early, rfl⟩ := first
    obtain ⟨two, present, same⟩ := covered t later fresh
    apply Classical.byContradiction
    intro short
    have lone : next.tree.leaves.length = 1 := by
      have some := List.length_pos_iff.mpr next.tree.leaves_ne_nil
      omega
    obtain ⟨only, all⟩ := List.length_eq_one_iff.mp lone
    rw [all, List.mem_singleton] at early present
    apply differs
    rw [← same, present, early]

structure Complete (s : PlanState) (seed : TriplePattern) (others : List TriplePattern)
    (filters : List Filter) (g : Growth) : Prop where
  holds : ∀ name, g.tree.Holds name ↔
    ∃ t ∈ seed :: others, t.folded ∉ s.planned ∧ name ∈ t.names
  long : g.tree.isLong = true ↔ 2 ≤ g.tree.leaves.length
  several : 2 ≤ g.tree.leaves.length ↔ Several s seed others
  left : g.filters =
    if g.tree.isLong then filters.filter (!isReady g.bindings g.tree.held ·) else filters

theorem Grows.complete (grown : GrownFrom s bindings pattern.triples next)
    (run : Grows (seedGrowth s bindings pattern.filters predicate seed) others next)
    (order : pattern.triples = before ++ seed :: others)
    (known : ∀ t ∈ before, t.folded ∈ s.planned) :
    Complete s seed others pattern.filters next := by
  have among : ∀ leaf ∈ next.tree.leaves, leaf.2 ∈ seed :: others := by
    intro leaf present
    have member := grown.among leaf present
    rw [order, List.mem_append] at member
    exact member.resolve_left fun earlier => grown.fresh leaf present (known _ earlier)
  have covered : ∀ t ∈ others, t.folded ∉ s.planned →
      ∃ leaf ∈ next.tree.leaves, leaf.2.folded = t.folded :=
    fun t later fresh => run.exists_leaf grown later fresh
  refine ⟨?_, grown.long, grown.several_iff ⟨_, run.seed_mem, rfl⟩ among covered,
    run.filters_left⟩
  intro name
  constructor
  · intro holds
    obtain ⟨leaf, present, named⟩ := (JoinTree.holds_iff _ _).mp holds
    exact ⟨leaf.2, among leaf present, grown.fresh leaf present, named⟩
  · rintro ⟨t, member, fresh, named⟩
    rcases List.mem_cons.mp member with rfl | later
    · exact holds_of_folded run.seed_mem rfl named
    · obtain ⟨leaf, present, same⟩ := covered t later fresh
      exact holds_of_folded present same named

end Growth

section patterns

variable {s : PlanState} {bindings : Bindings} {pattern : GraphPattern} {seed : TriplePattern}
  {before others : List TriplePattern} {predicate : Iri} {g : Growth}

theorem planPattern_seeded (order : pattern.triples = before ++ seed :: others)
    (known : ∀ t ∈ before, t.folded ∈ s.planned) (fresh : seed.folded ∉ s.planned)
    (mapped : seed.predicate = .iri predicate) :
    (planPattern s bindings pattern).outcome =
      ((Growth.extend (seedGrowth s bindings pattern.filters predicate seed) others).outcome >>=
        concludeGrowth seed (s.aliases.relation predicate)) := by
  rw [planPattern_outcome,
    findSeed_some.mpr ⟨before, predicate, order, known, fresh, mapped, rfl, rfl, rfl⟩]
  rfl

theorem stranded_iff
    (bound : ∀ name, (g.bindings.lookup name).isSome ↔ Connected s bindings seed others name)
    (t : TriplePattern) :
    Growth.isJoinable g.bindings t = false ↔ Stranded s bindings seed others t := by
  rw [← Bool.not_eq_true, isJoinable_iff, TriplePattern.HasConstant, TriplePattern.names,
    Stranded]
  simp only [← bound]
  cases t.subject <;> cases t.object <;> simp [NodePattern.names]

theorem loose_iff
    (bound : ∀ name, (g.bindings.lookup name).isSome ↔ Connected s bindings seed others name)
    (complete : g.Complete s seed others pattern.filters) (f : Filter) :
    Growth.isReady g.bindings g.tree.held f = false ↔ Loose s bindings seed others f := by
  have held : ∀ v : Variable, (∃ column, (v.name, column) ∈ g.tree.held) ↔
      ∃ t ∈ seed :: others, t.folded ∉ s.planned ∧ v.name ∈ t.names :=
    fun v => complete.holds v.name
  rw [← Bool.not_eq_true, Growth.isReady_iff, Loose, not_and_or]
  simp only [held, bound, not_forall, not_exists, not_and, exists_prop]

open Classical in
structure Answered (s : PlanState) (bindings : Bindings) (pattern : GraphPattern)
    (seed : TriplePattern) (others : List TriplePattern) (relation : Relation) (g : Growth) :
    Prop where
  bound : ∀ name, (g.bindings.lookup name).isSome ↔ Connected s bindings seed others name
  stuck : (∃ t ∈ others, Stranded s bindings seed others t) →
    (planPattern s bindings pattern).outcome = .error (.cannotBindAllSteps
      (others.filter (Stranded s bindings seed others ·)) (g.bindings.map (·.1)))
  complete : (¬ ∃ t ∈ others, Stranded s bindings seed others t) →
    g.Complete s seed others pattern.filters ∧
      (planPattern s bindings pattern).outcome = concludeGrowth seed relation g

open Classical in
theorem exists_answered
    (mapped : ∀ t ∈ pattern.triples, ∃ predicate, t.predicate = .iri predicate)
    (order : pattern.triples = before ++ seed :: others)
    (known : ∀ t ∈ before, t.folded ∈ s.planned) (fresh : seed.folded ∉ s.planned)
    (iri : seed.predicate = .iri predicate) :
    ∃ g, Answered s bindings pattern seed others (s.aliases.relation predicate) g := by
  have later : ∀ t ∈ others, t ∈ pattern.triples := by
    intro t member
    simp [order, member]
  obtain ⟨g, run, ended⟩ := Growth.extend_greedy
    (seedGrowth s bindings pattern.filters predicate seed) others fun t member =>
      mapped t (later t member)
  have among : ∀ t ∈ others.filter (Growth.isJoinable g.bindings), t ∈ pattern.triples :=
    fun t member => later t (List.mem_filter.mp member).1
  have grown := run.grownFrom among (Growth.grownFrom_seed (by simp [order]) fresh iri)
  have bound := Growth.bound_iff_connected grown run
  have stranded := stranded_iff bound
  have outcome : (planPattern s bindings pattern).outcome = _ :=
    planPattern_seeded order known fresh iri
  rw [ended] at outcome
  refine ⟨g, bound, ?_, ?_⟩
  · rintro ⟨t, member, apart⟩
    have some : ¬ others.all (Growth.isJoinable g.bindings) = true := by
      intro all
      have joinable := List.all_eq_true.mp all t member
      rw [(stranded t).mpr apart] at joinable
      cases joinable
    rw [outcome, if_neg some, error_bind]
    congr 2
    apply List.filter_congr
    intro t _
    rw [Bool.eq_iff_iff, Bool.not_eq_true', decide_eq_true_eq]
    exact stranded t
  · intro none
    have joinable : ∀ t ∈ others, Growth.isJoinable g.bindings t = true := by
      intro t member
      rw [← Bool.not_eq_false, stranded]
      exact fun apart => none ⟨t, member, apart⟩
    rw [List.filter_eq_self.mpr joinable] at run
    refine ⟨run.complete grown order known, ?_⟩
    rw [outcome, if_pos (List.all_eq_true.mpr joinable), ok_bind]

open Classical in
theorem verdict_conclude {relation : Relation}
    (bound : ∀ name, (g.bindings.lookup name).isSome ↔ Connected s bindings seed others name)
    (complete : g.Complete s seed others pattern.filters) :
    verdict (concludeGrowth seed relation g) =
      if Several s seed others then
        if ∃ f ∈ pattern.filters, Loose s bindings seed others f then .error .filterUnbound
        else .ok ()
      else if Attachable (relation, seed) pattern.filters then .ok ()
      else .error .filterVariableNotFound := by
  have left := complete.left
  by_cases several : Several s seed others
  · have long := complete.long.mpr (complete.several.mpr several)
    rw [if_pos long] at left
    have some : g.filters = [] ↔ ¬ ∃ f ∈ pattern.filters, Loose s bindings seed others f := by
      simp only [left, List.filter_eq_nil_iff, Bool.not_eq_true', loose_iff bound complete,
        not_exists, not_and]
    by_cases loose : ∃ f ∈ pattern.filters, Loose s bindings seed others f
    · have nonempty : ¬ g.filters.isEmpty = true := by
        rw [List.isEmpty_iff, some, not_not]
        exact loose
      rw [concludeGrowth, if_neg nonempty, if_pos long, if_pos several, if_pos loose]
      rfl
    · rw [concludeGrowth, if_pos (List.isEmpty_iff.mpr (some.mpr loose)), if_pos several,
        if_neg loose]
      rfl
  · have short : ¬ g.tree.isLong = true := fun long =>
      several (complete.several.mp (complete.long.mp long))
    rw [if_neg short] at left
    rw [if_neg several, concludeGrowth, left, if_neg short]
    cases attached : (attachFilters seed relation g.state pattern.filters).outcome with
    | ok next =>
      rw [if_pos (attachFilters_exact.mp attached).1]
      split <;> rfl
    | error e =>
      have refused : ¬ Attachable (relation, seed) pattern.filters := by
        intro attachable
        rw [attachFilters_exact.mpr ⟨attachable, rfl⟩] at attached
        cases attached
      rw [if_neg refused]
      split
      next empty =>
        rw [List.isEmpty_iff.mp empty] at attached
        cases attached
      next =>
        rw [error_bind]
        exact congrArg Except.error (attachFilters_kind attached)

open Classical in
theorem verdict_planPattern
    (mapped : ∀ t ∈ pattern.triples, ∃ predicate, t.predicate = .iri predicate)
    (order : pattern.triples = before ++ seed :: others)
    (known : ∀ t ∈ before, t.folded ∈ s.planned) (fresh : seed.folded ∉ s.planned)
    (iri : seed.predicate = .iri predicate) :
    verdict (planPattern s bindings pattern).outcome =
      if ∃ t ∈ others, Stranded s bindings seed others t then .error .cannotBindAllSteps
      else if Several s seed others then
        if ∃ f ∈ pattern.filters, Loose s bindings seed others f then .error .filterUnbound
        else .ok ()
      else if Attachable (s.aliases.relation predicate, seed) pattern.filters then .ok ()
      else .error .filterVariableNotFound := by
  obtain ⟨g, bound, stuck, complete⟩ := exists_answered mapped order known fresh iri
  split
  next apart =>
    rw [stuck apart]
    rfl
  next none =>
    obtain ⟨complete, outcome⟩ := complete none
    rw [outcome, verdict_conclude bound complete]

theorem concludeGrowth_ok {relation : Relation} {found : Option JoinTree} {next : PlanState}
    {bound : Bindings} (ended : concludeGrowth seed relation g = .ok (found, next, bound)) :
    found = some g.tree ∧ bound = g.bindings := by
  unfold concludeGrowth at ended
  split at ended
  next =>
    cases ended
    exact ⟨rfl, rfl⟩
  next =>
    split at ended
    next => cases ended
    next =>
      obtain ⟨after, -, ended⟩ := bind_ok_iff.mp ended
      cases ended
      exact ⟨rfl, rfl⟩

-- The greedy order joins all that any order can join. It fails if and only if a triple is out of
-- reach, and then names all that are, in their order; the filters that are left do not depend on it
-- either.
open Classical in
theorem planPattern_greedy
    (mapped : ∀ t ∈ pattern.triples, ∃ predicate, t.predicate = .iri predicate)
    (order : pattern.triples = before ++ seed :: others)
    (known : ∀ t ∈ before, t.folded ∈ s.planned) (fresh : seed.folded ∉ s.planned) :
    (verdict (planPattern s bindings pattern).outcome = .error .cannotBindAllSteps ↔
      ∃ t ∈ others, Stranded s bindings seed others t) ∧
    (∀ remaining bound,
      (planPattern s bindings pattern).outcome = .error (.cannotBindAllSteps remaining bound) →
        remaining = others.filter (Stranded s bindings seed others ·) ∧
          (∀ name, name ∈ bound ↔ Connected s bindings seed others name) ∧
          (PlanError.cannotBindAllSteps remaining bound).message =
            "Cannot bind all query steps; remaining: " ++ " ".intercalate
              ((others.filter (Stranded s bindings seed others ·)).map (·.display)) ++
              "; variables already bound: " ++ ", ".intercalate (bound.map ("?" ++ ·))) ∧
    ((¬ ∃ t ∈ others, Stranded s bindings seed others t) → Several s seed others →
      (verdict (planPattern s bindings pattern).outcome = .error .filterUnbound ↔
        ∃ f ∈ pattern.filters, Loose s bindings seed others f) ∧
      (verdict (planPattern s bindings pattern).outcome = .ok () ↔
        ¬ ∃ f ∈ pattern.filters, Loose s bindings seed others f)) ∧
    (∀ found next bound,
      (planPattern s bindings pattern).outcome = .ok (found, next, bound) →
        ∃ tree, found = some tree ∧ (2 ≤ tree.leaves.length ↔ Several s seed others) ∧
          (∀ name, tree.Holds name ↔ ∃ t ∈ seed :: others, t.folded ∉ s.planned ∧ name ∈ t.names) ∧
          ∀ name, (bound.lookup name).isSome ↔ Connected s bindings seed others name) ∧
    ∀ (other : GraphPattern) (others' : List TriplePattern), others.Perm others' →
      other.triples = before ++ seed :: others' → other.filters = pattern.filters →
        verdict (planPattern s bindings other).outcome =
          verdict (planPattern s bindings pattern).outcome := by
  obtain ⟨predicate, iri⟩ := mapped seed (by simp [order])
  have answer : verdict (planPattern s bindings pattern).outcome = _ :=
    verdict_planPattern mapped order known fresh iri
  have fails : verdict (planPattern s bindings pattern).outcome = .error .cannotBindAllSteps ↔
      ∃ t ∈ others, Stranded s bindings seed others t := by
    rw [answer]
    split
    next apart => exact iff_of_true rfl apart
    next none =>
      refine iff_of_false ?_ none
      split_ifs <;> simp
  obtain ⟨g, answered⟩ : ∃ g, Answered s bindings pattern seed others _ g :=
    exists_answered mapped order known fresh iri
  refine ⟨fails, ?_, ?_, ?_, ?_⟩
  · intro remaining bound failed
    have apart := fails.mp (by rw [failed]; rfl)
    rw [answered.stuck apart] at failed
    cases failed
    refine ⟨rfl, ?_, rfl⟩
    intro name
    rw [← answered.bound, lookup_isSome_iff]
    simp
  · intro none several
    rw [answer, if_neg none, if_pos several]
    split
    next loose => simp [loose]
    next tight => simp [tight]
  · intro found next bound planned
    have none : ¬ ∃ t ∈ others, Stranded s bindings seed others t := by
      intro apart
      rw [answered.stuck apart] at planned
      cases planned
    obtain ⟨complete, outcome⟩ := answered.complete none
    obtain ⟨rfl, rfl⟩ := concludeGrowth_ok (outcome.symm.trans planned)
    exact ⟨g.tree, rfl, complete.several, complete.holds, answered.bound⟩
  · intro other others' perm order' filters
    -- The verdict sees `others` through three predicates only, and none of them sees its order.
    have mapped' : ∀ t ∈ other.triples, ∃ predicate, t.predicate = .iri predicate := by
      intro t member
      apply mapped
      rw [order', List.mem_append, List.mem_cons] at member
      rw [order, List.mem_append, List.mem_cons, perm.mem_iff]
      exact member
    rw [verdict_planPattern mapped' order' known fresh iri, answer, filters]
    simp only [exists_stranded_perm perm, several_perm perm, loose_perm perm]

end patterns

namespace Ferry

def calls : Iri := ⟨"urn:ferry:calls", by decide +kernel⟩

def faces : Iri := ⟨"urn:ferry:faces", by decide +kernel⟩

def pier : Variable := ⟨"pier", by decide +kernel⟩

def isle : Variable := ⟨"isle", by decide +kernel⟩

def cove : Variable := ⟨"cove", by decide +kernel⟩

def reef : Variable := ⟨"reef", by decide +kernel⟩

def shoal : Variable := ⟨"shoal", by decide +kernel⟩

def landing : TriplePattern := ⟨.variable pier, .iri calls, .variable isle⟩

def crossing : TriplePattern := ⟨.variable isle, .iri faces, .variable cove⟩

def passing : TriplePattern := ⟨.variable cove, .iri calls, .variable reef⟩

def drifting : TriplePattern := ⟨.variable shoal, .iri faces, .variable shoal⟩

def mooring : TriplePattern := ⟨.variable shoal, .iri calls, .variable reef⟩

def state : PlanState :=
  { PlanState.fresh [(calls, "calls"), (faces, "faces")] with planned := [mooring, drifting] }

-- The second triple after the seed can be joined only after the third. The first is planned, so it
-- does not get its variable a column, and the last is out of reach.
def others : List TriplePattern := [mooring, passing, crossing, drifting]

def pattern : GraphPattern :=
  (drifting :: landing :: others).foldl GraphPattern.addTriple .empty

def shuffled : GraphPattern :=
  [drifting, landing, drifting, crossing, mooring, passing].foldl GraphPattern.addTriple .empty

theorem stuck : (planPattern state [] pattern).outcome =
    .error (.cannotBindAllSteps [drifting] ["pier", "isle", "cove", "reef"]) := by
  decide +kernel

theorem mapped : ∀ t ∈ pattern.triples, ∃ predicate, t.predicate = .iri predicate := by
  simp [pattern, GraphPattern.addTriple, GraphPattern.empty, others, landing, crossing, passing,
    drifting, mooring]

end Ferry

open Classical in
theorem planPattern_greedy_ferry :
    (∀ t ∈ Ferry.pattern.triples, ∃ predicate, t.predicate = .iri predicate) ∧
      Ferry.pattern.triples = [Ferry.drifting] ++ Ferry.landing :: Ferry.others ∧
      (∀ t ∈ [Ferry.drifting], t.folded ∈ Ferry.state.planned) ∧
      Ferry.landing.folded ∉ Ferry.state.planned ∧
      (∀ name, name ∈ ["pier", "isle", "cove", "reef"] ↔
        Connected Ferry.state [] Ferry.landing Ferry.others name) ∧
      [Ferry.drifting] =
        Ferry.others.filter (Stranded Ferry.state [] Ferry.landing Ferry.others ·) ∧
      verdict (planPattern Ferry.state [] Ferry.shuffled).outcome = .error .cannotBindAllSteps := by
  have order : Ferry.pattern.triples = [Ferry.drifting] ++ Ferry.landing :: Ferry.others := rfl
  have known : ∀ t ∈ [Ferry.drifting], t.folded ∈ Ferry.state.planned := by decide +kernel
  have fresh : Ferry.landing.folded ∉ Ferry.state.planned := by decide +kernel
  have perm : Ferry.others.Perm [Ferry.drifting, Ferry.crossing, Ferry.mooring, Ferry.passing] := by
    decide +kernel
  obtain ⟨-, lists, -, -, orderFree⟩ := planPattern_greedy Ferry.mapped order known fresh
  obtain ⟨remaining, bound, -⟩ := lists _ _ Ferry.stuck
  refine ⟨Ferry.mapped, order, known, fresh, bound, remaining, ?_⟩
  rw [orderFree Ferry.shuffled _ perm rfl rfl, Ferry.stuck]
  rfl

end GraphSql
