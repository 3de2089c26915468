import GraphSql.Proofs.Planning.Conditions

namespace GraphSql
open Sql

-- What planning a whole graph pattern ends with.

namespace Growth

variable {s : PlanState} {bindings : Bindings} {triples remaining : List TriplePattern}
  {filters : List Filter} {g next : Growth} {predicate : Iri} {pattern : TriplePattern}

def Explained (s : PlanState) (bindings : Bindings) (filters : List Filter) (g : Growth)
    (c : Condition) : Prop :=
  (∃ aliasName ∈ g.tree.aliases, s.Waits aliasName c) ∨
    Justified (bindings ++ g.tree.held) g.tree.leaves (· ∈ filters) c

-- The conditions of a growth that has come from `s` and `bindings` are the right ones. A variable
-- that was bound before need not be linked yet.
structure Founded (s : PlanState) (bindings : Bindings) (filters : List Filter) (g : Growth) :
    Prop where
  tidy : g.state.Tidy
  frame : ∀ aliasName ∉ g.tree.aliases, ∀ c, g.state.Waits aliasName c ↔ s.Waits aliasName c
  taken : ∀ aliasName ∈ g.tree.aliases, ∀ c, s.Waits aliasName c → g.Own c
  left : ∀ f ∈ g.filters, f ∈ filters
  sound : ∀ c, g.Own c → Explained s bindings filters g c
  constants : ∀ leaf ∈ g.tree.leaves, ∀ side n, JoinTree.nodeAt leaf side = .node n →
    g.Own (fixed (leaf.1.column side) n)
  equated : ∀ leaf ∈ g.tree.leaves, ∀ side v, JoinTree.nodeAt leaf side = .variable v →
    ∃ primary, g.bindings.lookup v.name = some primary ∧
      (bindings.lookup v.name = some primary ∨ primary = leaf.1.column side ∨
        g.Own (linked primary (leaf.1.column side)))
  filtered : ∀ f ∈ filters, f ∈ g.filters ∨
    ∃ c, g.Own c ∧ Expresses (bindings ++ g.tree.held) f c

theorem GrownFrom.mem_held (grown : GrownFrom s bindings triples g) {name : String}
    {column : Column} (bound : g.bindings.lookup name = some column) :
    (name, column) ∈ bindings ++ g.tree.held := by
  rw [grown.bound, lookup_addBindings] at bound
  rcases Option.or_eq_some_iff.mp bound with old | ⟨_, new⟩
  · exact List.mem_append_left _ (mem_of_lookup old)
  · exact List.mem_append_right _ (mem_of_lookup new)

-- A variable of a leaf that is new is bound to a column of the leaf, so that its second occurrence
-- there is a demand of the leaf alone.
theorem linked_own (bindings : Bindings) {leaf : Relation × TriplePattern} {side : Side}
    {v : Variable}
    (node : JoinTree.nodeAt leaf side = .variable v) :
    ∃ primary, (Plan.addBindings bindings (JoinTree.leafVariables leaf)).lookup v.name =
        some primary ∧
      (bindings.lookup v.name = some primary ∨ primary = leaf.1.column side ∨
        linked primary (leaf.1.column side) ∈ PlanState.ownConditions bindings leaf) := by
  cases old : bindings.lookup v.name with
  | some primary => exact ⟨primary, by simp [lookup_addBindings, old], .inl rfl⟩
  | none =>
    have held : ∃ column, (v.name, column) ∈ JoinTree.leafVariables leaf :=
      ⟨_, JoinTree.mem_leafVariables.mpr ⟨side, v, node, rfl, rfl⟩⟩
    obtain ⟨primary, found⟩ :=
      Option.isSome_iff_exists.mp ((lookup_isSome_iff _ _).mpr held)
    have bound : (Plan.addBindings bindings (JoinTree.leafVariables leaf)).lookup v.name =
        some primary := by
      simp [lookup_addBindings, old, found]
    refine ⟨primary, bound, ?_⟩
    by_cases same : primary = leaf.1.column side
    · exact .inr (.inl same)
    · have table : primary.table = leaf.1.aliasName := by
        obtain ⟨_, _, _, _, rfl⟩ := JoinTree.mem_leafVariables.mp (mem_of_lookup found)
        rfl
      exact .inr (.inr (PlanState.mem_ownConditions.mpr
        (.inr ⟨side, v, primary, node, bound, table, same, rfl⟩)))

theorem own_seed {pattern : GraphPattern} {seed : TriplePattern} (c : Condition) :
    (seedGrowth s bindings pattern.filters predicate seed).Own c ↔
      s.Waits (s.aliases.relation predicate).aliasName c ∨
        c ∈ PlanState.ownConditions bindings (s.aliases.relation predicate, seed) := by
  simp [Own, seedGrowth, JoinTree.conditions, JoinTree.aliases, JoinTree.leaves,
    PlanState.waits_settle]

theorem founded_seed {pattern : GraphPattern} {seed : TriplePattern} (tidy : s.Tidy) :
    Founded s bindings pattern.filters
      (seedGrowth s bindings pattern.filters predicate seed) where
  tidy := tidy.settle _ _ _
  frame := by
    intro aliasName other c
    have differs : aliasName ≠ (s.aliases.relation predicate).aliasName := by
      intro same
      exact other (by simp [seedGrowth, JoinTree.aliases, JoinTree.leaves, same])
    simp [seedGrowth, PlanState.waits_settle, differs]
  taken := by
    intro aliasName member c waits
    cases List.mem_singleton.mp member
    exact (own_seed c).mpr (.inl waits)
  left := fun _ member => member
  sound := by
    intro c own
    rcases (own_seed c).mp own with waits | own
    · exact .inl ⟨_, by simp [seedGrowth, JoinTree.aliases, JoinTree.leaves], waits⟩
    · refine .inr (justified_own (by simp [seedGrowth, JoinTree.leaves]) ?_ ?_ own)
      · intro entry member
        exact List.mem_append_right _ (by simpa [seedGrowth, JoinTree.held, JoinTree.leaves])
      · intro name column bound
        rw [lookup_addBindings] at bound
        rcases Option.or_eq_some_iff.mp bound with old | ⟨_, new⟩
        · exact List.mem_append_left _ (mem_of_lookup old)
        · exact List.mem_append_right _
            (by simpa [seedGrowth, JoinTree.held, JoinTree.leaves] using mem_of_lookup new)
  constants := by
    intro leaf single side n node
    cases List.mem_singleton.mp single
    exact (own_seed _).mpr (.inr (PlanState.mem_ownConditions.mpr (.inl ⟨side, n, node, rfl⟩)))
  equated := by
    intro leaf single side v node
    cases List.mem_singleton.mp single
    obtain ⟨primary, bound, why⟩ := linked_own bindings node
    refine ⟨primary, bound, ?_⟩
    rcases why with old | same | own
    · exact .inl old
    · exact .inr (.inl same)
    · exact .inr (.inr ((own_seed _).mpr (.inr own)))
  filtered := fun _ member => .inl member

section step

theorem held_step {entry : String × Column} (member : entry ∈ bindings ++ g.tree.held) :
    entry ∈ bindings ++ (g.step predicate pattern).tree.held := by
  rw [step_held, ← List.append_assoc]
  exact List.mem_append_left _ member

theorem leaf_held_step {entry : String × Column}
    (member : entry ∈ JoinTree.leafVariables (g.nextLeaf predicate pattern)) :
    entry ∈ bindings ++ (g.step predicate pattern).tree.held := by
  rw [step_held, ← List.append_assoc]
  exact List.mem_append_right _ member

theorem GrownFrom.bound_step (grown : GrownFrom s bindings triples g) {name : String}
    {column : Column} (looked : (g.settled predicate pattern).bindings.lookup name = some column) :
    (name, column) ∈ bindings ++ (g.step predicate pattern).tree.held := by
  rw [settled, lookup_addBindings] at looked
  rcases Option.or_eq_some_iff.mp looked with before | ⟨_, new⟩
  · exact held_step (grown.mem_held before)
  · exact leaf_held_step (mem_of_lookup new)

@[simp] theorem aliases_step : (g.step predicate pattern).tree.aliases =
    g.tree.aliases ++ [g.nextAlias predicate] := by
  simp [JoinTree.aliases, nextAlias]

theorem Founded.sound_step (grown : GrownFrom s bindings triples g)
    (founded : Founded s bindings filters g) (c : Condition)
    (own : (g.step predicate pattern).Own c) :
    Explained s bindings filters (g.step predicate pattern) c := by
  have before : g.Own c → Explained s bindings filters (g.step predicate pattern) c := by
    intro own
    rcases founded.sound c own with ⟨name, member, waits⟩ | justified
    · exact Or.inl ⟨name, aliases_step ▸ List.mem_append_left _ member, waits⟩
    · exact .inr (justified.mono (fun _ => held_step) (fun _ => List.mem_append_left _) fun _ => id)
  rcases (own_step founded.tidy c).mp own with earlier | demanded | equal | ready | waits
  · exact before earlier
  · exact .inr (justified_own (by simp [nextLeaf])
      (fun _ => leaf_held_step) (fun _ _ => grown.bound_step) demanded)
  · exact .inr (justified_equal (fun _ => leaf_held_step) (fun _ _ => grown.bound_step) equal)
  · obtain ⟨f, member, found⟩ := mem_placed.mp ready
    exact .inr (.filter (founded.left f (List.mem_filter.mp member).1)
      (expresses_condition (fun _ _ => grown.bound_step) found))
  · by_cases known : g.nextAlias predicate ∈ g.tree.aliases
    · exact before (.inr ⟨_, known, waits⟩)
    · exact .inl ⟨g.nextAlias predicate, by simp, (founded.frame _ known c).mp waits⟩

theorem Founded.equated_step (founded : Founded s bindings filters g)
    (leaf : Relation × TriplePattern) (present : leaf ∈ (g.step predicate pattern).tree.leaves)
    (side : Side) (v : Variable) (node : JoinTree.nodeAt leaf side = .variable v) :
    ∃ primary, (g.step predicate pattern).bindings.lookup v.name = some primary ∧
      (bindings.lookup v.name = some primary ∨ primary = leaf.1.column side ∨
        (g.step predicate pattern).Own (linked primary (leaf.1.column side))) := by
  rcases List.mem_append.mp present with earlier | new
  · obtain ⟨primary, looked, why⟩ := founded.equated leaf earlier side v node
    refine ⟨primary, by rw [step_bindings, lookup_addBindings, looked]; rfl, ?_⟩
    rcases why with before | same | own
    · exact .inl before
    · exact .inr (.inl same)
    · exact .inr (.inr ((own_step founded.tidy _).mpr (.inl own)))
  · cases List.mem_singleton.mp new
    obtain ⟨primary, looked, -⟩ := linked_own g.bindings node
    refine ⟨primary, looked, ?_⟩
    by_cases same : primary = (g.nextLeaf predicate pattern).1.column side
    · exact .inr (.inl same)
    · have equal := mem_equalities.mpr ⟨side, v, primary, node, looked, same, rfl⟩
      exact .inr (.inr ((own_step founded.tidy _).mpr (.inr (.inr (.inl equal)))))

theorem Founded.filtered_step (grown : GrownFrom s bindings triples g)
    (founded : Founded s bindings filters g) (f : Filter) (member : f ∈ filters) :
    f ∈ (g.step predicate pattern).filters ∨ ∃ c, (g.step predicate pattern).Own c ∧
      Expresses (bindings ++ (g.step predicate pattern).tree.held) f c := by
  rcases founded.filtered f member with waiting | ⟨c, own, expressed⟩
  · cases ready : isReady (g.settled predicate pattern).bindings
        ((g.settled predicate pattern).joinedVariables (g.nextLeaf predicate pattern)) f with
    | true =>
      have all := ready
      simp only [isReady, Bool.and_eq_true, List.all_eq_true] at all
      obtain ⟨c, found⟩ := condition_bound all.1
      have here := mem_placed.mpr ⟨f, List.mem_filter.mpr ⟨waiting, ready⟩, found⟩
      exact .inr ⟨c, (own_step founded.tidy c).mpr (.inr (.inr (.inr (.inl here)))),
        expresses_condition (fun _ _ => grown.bound_step) found⟩
    | false => exact .inl (List.mem_filter.mpr ⟨waiting, by rw [Bool.not_eq_true']; exact ready⟩)
  · exact .inr ⟨c, (own_step founded.tidy c).mpr (.inl own), expressed.mono fun _ => held_step⟩

theorem Founded.step (grown : GrownFrom s bindings triples g)
    (founded : Founded s bindings filters g) :
    Founded s bindings filters (g.step predicate pattern) where
  tidy := tidy_step founded.tidy
  frame := by
    intro aliasName other c
    rw [aliases_step, List.mem_append, not_or, List.mem_singleton] at other
    rw [waits_step, ← founded.frame aliasName other.1 c]
    exact and_iff_right other.2
  taken := by
    intro aliasName member c waits
    by_cases known : aliasName ∈ g.tree.aliases
    · exact (own_step founded.tidy c).mpr (.inl (founded.taken aliasName known c waits))
    · rw [aliases_step, List.mem_append, List.mem_singleton] at member
      rcases member with old | rfl
      · exact absurd old known
      · have still := (founded.frame _ known c).mpr waits
        exact (own_step founded.tidy c).mpr (.inr (.inr (.inr (.inr still))))
  left := fun f member => founded.left f (List.mem_filter.mp member).1
  sound := founded.sound_step grown
  constants := by
    intro leaf present side n node
    rcases List.mem_append.mp present with earlier | new
    · exact (own_step founded.tidy _).mpr (.inl (founded.constants leaf earlier side n node))
    · cases List.mem_singleton.mp new
      exact (own_step founded.tidy _).mpr
        (.inr (.inl (PlanState.mem_ownConditions.mpr (.inl ⟨side, n, node, rfl⟩))))
  equated := founded.equated_step
  filtered := founded.filtered_step grown

end step

theorem Grows.founded (run : Grows g remaining next) (among : ∀ t ∈ remaining, t ∈ triples)
    (grown : GrownFrom s bindings triples g) (founded : Founded s bindings filters g) :
    GrownFrom s bindings triples next ∧ Founded s bindings filters next := by
  have kept : ∀ g predicate pattern, GrownFrom s bindings triples g ∧ Founded s bindings filters g →
      pattern ∈ triples → pattern.folded ∉ g.state.planned → pattern.predicate = .iri predicate →
      GrownFrom s bindings triples (g.step predicate pattern) ∧
        Founded s bindings filters (g.step predicate pattern) :=
    fun _ _ _ both member fresh mapped => ⟨both.1.step member fresh mapped, both.2.step both.1⟩
  exact run.keeps kept among ⟨grown, founded⟩

end Growth

section attach

variable {leaf : Relation × TriplePattern} {f : Filter} {filters : List Filter} {c : Condition}

theorem mem_seedColumn {v : Variable} {column : Column}
    (found : seedColumn leaf.2 leaf.1 v = .ok column) :
    (v.name, column) ∈ JoinTree.leafVariables leaf := by
  have named : ∀ {node : NodePattern}, node.asVariable = some v → node = .variable v := by
    intro node same
    cases node with
    | node n => cases same
    | «variable» w =>
      cases same
      rfl
  unfold seedColumn at found
  split at found
  next subject =>
    cases found
    exact JoinTree.mem_leafVariables.mpr ⟨.subject, v, named subject, rfl, rfl⟩
  next =>
    split at found
    next object =>
      cases found
      exact JoinTree.mem_leafVariables.mpr ⟨.object, v, named object, rfl, rfl⟩
    next => cases found

theorem expresses_seedCondition (found : seedCondition leaf f = .ok (some c)) :
    Expresses (JoinTree.leafVariables leaf) f c := by
  unfold seedCondition at found
  cases sides : f.sides with
  | variablePair v w => simp [sides] at found
  | variableNode v n =>
    simp only [sides] at found
    obtain ⟨column, held, same⟩ := map_ok_iff.mp found
    cases same
    refine ⟨f.trimmed, ?_, ?_⟩
    · rw [Filter.left, sides]
      exact .column (mem_seedColumn held)
    · rw [Filter.right, sides]
      exact .value
  | nodeVariable n v =>
    simp only [sides] at found
    obtain ⟨column, held, same⟩ := map_ok_iff.mp found
    cases same
    refine ⟨f.trimmed, ?_, ?_⟩
    · rw [Filter.left, sides]
      exact .value
    · rw [Filter.right, sides]
      exact .column (mem_seedColumn held)

theorem mem_attached :
    c ∈ attached leaf filters ↔ ∃ f ∈ filters, seedCondition leaf f = .ok (some c) := by
  have some : ∀ f, (seedCondition leaf f).toOption.join = some c ↔
      seedCondition leaf f = .ok (some c) := by
    intro f
    cases seedCondition leaf f with
    | error e => simp [Except.toOption]
    | ok found => simp [Except.toOption]
  simp only [attached, List.mem_filterMap, some]

theorem seedCondition_some (attachable : Attachable leaf filters) (member : f ∈ filters)
    (single : f.vars.length ≠ 2) : ∃ c, seedCondition leaf f = .ok (some c) := by
  obtain ⟨found, ok⟩ := attachable f member
  unfold seedCondition at ok ⊢
  cases sides : f.sides with
  | variablePair v w => simp [Filter.vars, sides, FilterSides.names] at single
  | variableNode v n | nodeVariable n v =>
    simp only [sides] at ok ⊢
    obtain ⟨column, held, -⟩ := map_ok_iff.mp ok
    exact ⟨_, map_ok_iff.mpr ⟨column, held, rfl⟩⟩

end attach

namespace Growth

variable {s next : PlanState} {bindings bound : Bindings} {triples : List TriplePattern}
  {filters : List Filter} {g : Growth} {leaf : Relation × TriplePattern}

def attach (g : Growth) (leaf : Relation × TriplePattern) : Growth :=
  { g with
    state := g.state.await leaf.1.aliasName (attached leaf g.filters)
    filters := g.filters.filter (·.vars.length = 2) }

theorem own_attach (present : leaf ∈ g.tree.leaves) (c : Condition) :
    (g.attach leaf).Own c ↔ g.Own c ∨ c ∈ attached leaf g.filters := by
  have here : leaf.1.aliasName ∈ g.tree.aliases := List.mem_map.mpr ⟨leaf, present, rfl⟩
  simp only [Own, attach, PlanState.waits_await]
  constructor
  · intro own
    rcases own with old | ⟨name, member, old | new⟩
    · exact .inl (.inl old)
    · exact .inl (.inr ⟨name, member, old⟩)
    · exact .inr new.2
  · intro own
    rcases own with (old | ⟨name, member, old⟩) | new
    · exact .inl old
    · exact .inr ⟨name, member, .inl old⟩
    · exact .inr ⟨_, here, .inr ⟨rfl, new⟩⟩

theorem Founded.attach (founded : Founded s bindings filters g) (present : leaf ∈ g.tree.leaves)
    (attachable : Attachable leaf g.filters) : Founded s bindings filters (g.attach leaf) := by
  have held : ∀ entry ∈ JoinTree.leafVariables leaf, entry ∈ bindings ++ g.tree.held := by
    intro entry member
    exact List.mem_append_right _ (List.mem_flatMap.mpr ⟨leaf, present, member⟩)
  refine ⟨founded.tidy.await _ _, ?_, ?_, ?_, ?_, ?_, ?_, ?_⟩
  · intro aliasName other c
    have differs : aliasName ≠ leaf.1.aliasName := by
      intro same
      exact other (List.mem_map.mpr ⟨leaf, present, same.symm⟩)
    rw [Growth.attach, PlanState.waits_await, founded.frame aliasName other c]
    simp [differs]
  · intro aliasName member c waits
    exact (own_attach present c).mpr (.inl (founded.taken aliasName member c waits))
  · intro f member
    exact founded.left f (List.mem_filter.mp member).1
  · intro c own
    rcases (own_attach present c).mp own with old | new
    · exact founded.sound c old
    · obtain ⟨f, member, found⟩ := mem_attached.mp new
      exact .inr (.filter (founded.left f member) ((expresses_seedCondition found).mono held))
  · intro leaf' present' side n node
    exact (own_attach present _).mpr (.inl (founded.constants leaf' present' side n node))
  · intro leaf' present' side v node
    obtain ⟨primary, looked, why⟩ := founded.equated leaf' present' side v node
    refine ⟨primary, looked, ?_⟩
    rcases why with before | same | own
    · exact .inl before
    · exact .inr (.inl same)
    · exact .inr (.inr ((own_attach present _).mpr (.inl own)))
  · intro f member
    rcases founded.filtered f member with waiting | ⟨c, own, expressed⟩
    · by_cases pair : f.vars.length = 2
      · exact .inl (List.mem_filter.mpr ⟨waiting, by simpa using pair⟩)
      · obtain ⟨c, found⟩ := seedCondition_some attachable waiting pair
        have here := mem_attached.mpr ⟨f, waiting, found⟩
        refine .inr ⟨c, (own_attach present c).mpr (.inr here), ?_⟩
        exact (expresses_seedCondition found).mono held
    · exact .inr ⟨c, (own_attach present c).mpr (.inl own), expressed⟩

theorem GrownFrom.attach (grown : GrownFrom s bindings triples g)
    (leaf : Relation × TriplePattern) :
    GrownFrom s bindings triples (g.attach leaf) where
  bound := grown.bound
  planned := by simpa [Growth.attach] using grown.planned
  fresh := grown.fresh
  apart := grown.apart
  among := grown.among
  tables := by simpa [Growth.attach] using grown.tables
  named := grown.named
  part := by simpa [Growth.attach] using grown.part
  inner := grown.inner
  long := grown.long

end Growth

namespace PatternRun

variable {s next : PlanState} {bindings bound : Bindings} {pattern : GraphPattern} {tree : JoinTree}

theorem covers {found : Option JoinTree} (run : PatternRun s bindings pattern found next bound) :
    ∀ t ∈ pattern.triples, t.folded ∈ next.planned := by
  cases run with
  | redundant known => exact known
  | grown order known fresh mapped run left =>
    rename_i before seed others predicate g
    have start : (seedGrowth s bindings pattern.filters predicate seed).state.planned =
        s.planned ++ [seed.folded] := by
      simp [seedGrowth, PlanState.settle]
    intro t member
    rw [PlanState.await_planned]
    rw [order] at member
    rcases List.mem_append.mp member with early | late
    · exact run.planned_subset _ (by simp [start, known t early])
    · rcases List.mem_cons.mp late with rfl | later
      · exact run.planned_subset _ (by simp [start])
      · exact run.covers t later

-- Planning a pattern that has new triples ends with a growth whose conditions are the right ones.
-- Only filters between two variables can be left over, and only if there is one new triple.
theorem founded (run : PatternRun s bindings pattern (some tree) next bound) (tidy : s.Tidy) :
    ∃ left, Growth.GrownFrom s bindings pattern.triples ⟨next, bound, tree, left⟩ ∧
      Growth.Founded s bindings pattern.filters ⟨next, bound, tree, left⟩ ∧
      (∀ f ∈ left, f.vars.length = 2) ∧ (2 ≤ tree.leaves.length → left = []) := by
  cases run with
  | grown order known fresh mapped run left =>
    rename_i before seed others predicate g
    have among : ∀ t ∈ others, t ∈ pattern.triples := by
      intro t member
      simp [order, member]
    have both := run.founded among (Growth.grownFrom_seed (by simp [order]) fresh mapped)
      (Growth.founded_seed tidy)
    have present : (s.aliases.relation predicate, seed) ∈ g.tree.leaves :=
      run.leaves_subset _ (by simp [seedGrowth, JoinTree.leaves])
    have attachable : Attachable (s.aliases.relation predicate, seed) g.filters := by
      rcases left with none | ⟨_, attachable⟩
      · simp [none, Attachable]
      · exact attachable
    have attach := both.1.attach (s.aliases.relation predicate, seed)
    refine ⟨(g.attach (s.aliases.relation predicate, seed)).filters, attach,
      both.2.attach present attachable, ?_, ?_⟩
    · intro f member
      simpa using (List.mem_filter.mp member).2
    · intro long
      rcases left with none | ⟨short, _⟩
      · simp [Growth.attach, none]
      · rw [both.1.long.mpr long] at short
        cases short

end PatternRun

end GraphSql
