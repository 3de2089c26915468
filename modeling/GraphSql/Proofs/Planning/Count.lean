import Mathlib.Data.List.Nodup
import GraphSql.Proofs.Planning.Frame
import GraphSql.Proofs.Planning.Optional

namespace GraphSql
open Sql

-- No condition on a constant is lost or doubled. At any time the ON clauses and what waits have it
-- as often as the tables demand it.

namespace Sql.JoinTree

variable {leaf : Relation × TriplePattern} {leaves : List (Relation × TriplePattern)}
  {c : Condition}

def constant? (column : Column) : NodePattern → Option Condition
  | .variable _ => none
  | .node n => some (fixed column n)

def leafConstants (leaf : Relation × TriplePattern) : List Condition :=
  (constant? (leaf.1.column .subject) leaf.2.subject).toList ++
    (constant? (leaf.1.column .object) leaf.2.object).toList

theorem mem_leafConstants : c ∈ leafConstants leaf ↔
    ∃ side n, nodeAt leaf side = .node n ∧ c = fixed (leaf.1.column side) n := by
  have each : ∀ (column : Column) (node : NodePattern),
      c ∈ (constant? column node).toList ↔ ∃ n, node = .node n ∧ c = fixed column n := by
    intro column node
    cases node <;> simp [constant?, eq_comm]
  rw [leafConstants, List.mem_append, each, each]
  constructor
  · intro either
    rcases either with ⟨n, node, same⟩ | ⟨n, node, same⟩
    · exact ⟨.subject, n, node, same⟩
    · exact ⟨.object, n, node, same⟩
  · rintro ⟨side, n, node, same⟩
    cases side with
    | subject => exact .inl ⟨n, node, same⟩
    | object => exact .inr ⟨n, node, same⟩

theorem nodup_leafConstants (leaf : Relation × TriplePattern) : (leafConstants leaf).Nodup := by
  unfold leafConstants
  cases leaf.2.subject <;> cases leaf.2.object <;>
    simp [constant?, fixed, Condition.equal, Relation.column]

theorem nodup_constants (apart : (leaves.map (·.1.aliasName)).Nodup) :
    (leaves.flatMap leafConstants).Nodup := by
  rw [List.nodup_flatMap]
  refine ⟨fun leaf _ => nodup_leafConstants leaf, ?_⟩
  refine (List.pairwise_map.mp apart).imp ?_
  intro one two differs c first second
  obtain ⟨side, n, -, rfl⟩ := mem_leafConstants.mp first
  obtain ⟨side', n', -, same⟩ := mem_leafConstants.mp second
  simp only [fixed, Condition.equal, Relation.column, Condition.mk.injEq, Operand.column.injEq,
    Column.mk.injEq] at same
  exact differs same.1.1

theorem leaf_of_column {other : Relation × TriplePattern} {side side' : Side}
    (apart : (leaves.map (·.1.aliasName)).Nodup) (present : leaf ∈ leaves) (among : other ∈ leaves)
    (same : leaf.1.column side = other.1.column side') : leaf = other ∧ side = side' := by
  simp only [Relation.column, Column.mk.injEq] at same
  exact ⟨List.inj_on_of_nodup_map apart present among same.1, same.2⟩

theorem unread_of_constant {side : Side} {n : Node} (apart : (leaves.map (·.1.aliasName)).Nodup)
    (present : leaf ∈ leaves) (node : nodeAt leaf side = .node n) (name : String) :
    (name, leaf.1.column side) ∉ leaves.flatMap leafVariables := by
  intro member
  obtain ⟨other, among, held⟩ := List.mem_flatMap.mp member
  obtain ⟨side', v, other_node, -, column⟩ := mem_leafVariables.mp held
  obtain ⟨rfl, rfl⟩ := leaf_of_column apart present among column
  rw [node] at other_node
  cases other_node

end Sql.JoinTree

section conditions

variable {column : Column} {n : Node}

theorem fixed_ne_linked (column : Column) (n : Node) (one two : Column) :
    fixed column n ≠ linked one two := by
  simp [fixed, linked, Condition.equal]

theorem fixed_mem_ownConditions {bindings : Bindings} {leaf : Relation × TriplePattern} :
    fixed column n ∈ PlanState.ownConditions bindings leaf ↔
      fixed column n ∈ JoinTree.leafConstants leaf := by
  rw [PlanState.mem_ownConditions, JoinTree.mem_leafConstants]
  refine or_iff_left ?_
  rintro ⟨side, v, bound, -, -, -, -, same⟩
  exact fixed_ne_linked _ _ _ _ same

theorem nodup_ownConditions (bindings : Bindings) (leaf : Relation × TriplePattern) :
    (PlanState.ownConditions bindings leaf).Nodup := by
  have single : ∀ found : Option Condition, found.toList.Nodup := by
    intro found
    cases found <;> simp
  refine List.nodup_append.mpr ⟨single _, single _, ?_⟩
  rintro one first _ second rfl
  have columns : leaf.1.column .subject ≠ leaf.1.column .object := by simp [Relation.column]
  rcases PlanState.ownCondition?_some.mp (Option.mem_toList.mp first) with
    ⟨n, -, rfl⟩ | ⟨v, bound, -, -, -, -, rfl⟩
  · rcases PlanState.ownCondition?_some.mp (Option.mem_toList.mp second) with
      ⟨m, -, same⟩ | ⟨w, other, -, -, -, -, same⟩
    · simp [fixed, Condition.equal, columns] at same
    · exact fixed_ne_linked _ _ _ _ same
  · rcases PlanState.ownCondition?_some.mp (Option.mem_toList.mp second) with
      ⟨m, -, same⟩ | ⟨w, other, -, -, -, -, same⟩
    · exact fixed_ne_linked _ _ _ _ same.symm
    · simp [linked, Condition.equal, columns] at same

theorem fixed_not_mem_links (t member : JoinTree) (bindings : Bindings) :
    fixed column n ∉ t.links member bindings := by
  intro present
  obtain ⟨_, _, _, _, _, _, same⟩ := JoinTree.mem_links.mp present
  exact fixed_ne_linked _ _ _ _ same

theorem Expresses.reads {held : Bindings} {f : Filter}
    (expressed : Expresses held f (fixed column n)) : ∃ name, (name, column) ∈ held := by
  obtain ⟨operator, left, right⟩ := expressed
  generalize f.left = node at left
  cases left with
  | column at_ => exact ⟨_, at_⟩

end conditions

namespace PlanState

variable {s : PlanState} {aliasName : String} {names : List String} {conditions : List Condition}

theorem waiting_takePending (tidy : s.Tidy) (aliasName : String) :
    s.waiting.Perm (s.pendingFor aliasName ++ (s.takePending aliasName).2.waiting) := by
  unfold waiting takePending pendingFor
  unfold Tidy at tidy
  simp only
  generalize s.pending = pending at tidy ⊢
  induction pending with
  | nil => simp
  | cons entry rest ih =>
    obtain ⟨apart, tidy⟩ := List.nodup_cons.mp tidy
    by_cases same : entry.aliasName = aliasName
    · have kept : rest.filter (·.aliasName ≠ aliasName) = rest := by
        refine List.filter_eq_self.mpr fun other member => ?_
        have differs : other.aliasName ≠ aliasName := fun equal =>
          apart (List.mem_map.mpr ⟨other, member, equal.trans same.symm⟩)
        simpa using differs
      rw [List.filter_cons_of_neg (by simpa using same), kept]
      simp [same]
    · rw [List.filter_cons_of_pos (by simpa using same),
        List.find?_cons_of_neg (by simpa using same), List.flatMap_cons, List.flatMap_cons]
      exact ((ih tidy).append_left _).trans (List.perm_append_comm_assoc _ _ _)

theorem waiting_takeAll (tidy : s.Tidy) (names : List String) :
    s.waiting.Perm ((Plan.takeAll s names).1 ++ (Plan.takeAll s names).2.waiting) := by
  induction names generalizing s with
  | nil => exact .refl _
  | cons name rest ih =>
    have later := ih (tidy.takePending name)
    exact (waiting_takePending tidy name).trans
      ((later.append_left _).trans (.of_eq (List.append_assoc ..).symm))

theorem count_addPending_of_ne {c added : Condition} (differs : c ≠ added) :
    (s.addPending aliasName added).waiting.count c = s.waiting.count c := by
  unfold waiting addPending
  simp only
  generalize s.pending = pending
  induction pending with
  | nil => simp [insertPending, Ne.symm differs]
  | cons entry rest ih =>
    unfold insertPending
    split
    next =>
      have kept : (appendNew entry.conditions added).count c = entry.conditions.count c := by
        unfold appendNew
        split
        next => rfl
        next => simp [List.count_append, Ne.symm differs]
      simp only [List.flatMap_cons, List.count_append, kept]
    next => simp only [List.flatMap_cons, List.count_append, ih]

theorem count_addPending_of_absent {c : Condition} (absent : ¬ s.Waits aliasName c) :
    (s.addPending aliasName c).waiting.count c = s.waiting.count c + 1 := by
  unfold Waits at absent
  unfold waiting addPending
  simp only
  generalize s.pending = pending at absent ⊢
  induction pending with
  | nil => simp [insertPending]
  | cons entry rest ih =>
    unfold insertPending
    split
    next same =>
      have fresh : c ∉ entry.conditions := fun held =>
        absent ⟨entry, List.mem_cons_self, same, held⟩
      simp only [List.flatMap_cons, List.count_append, appendNew, if_neg fresh,
        List.count_singleton_self]
      omega
    next =>
      have later : ¬ ∃ other ∈ rest, other.aliasName = aliasName ∧ c ∈ other.conditions := by
        rintro ⟨other, member, held⟩
        exact absent ⟨other, List.mem_cons_of_mem _ member, held⟩
      simp only [List.flatMap_cons, List.count_append, ih later]
      omega

theorem count_await_of_not_mem {c : Condition} (fresh : c ∉ conditions) :
    (s.await aliasName conditions).waiting.count c = s.waiting.count c := by
  induction conditions generalizing s with
  | nil => rfl
  | cons added rest ih =>
    rw [List.mem_cons, not_or] at fresh
    exact (ih fresh.2).trans (count_addPending_of_ne fresh.1)

theorem count_await {c : Condition} (absent : ¬ s.Waits aliasName c) (apart : conditions.Nodup) :
    (s.await aliasName conditions).waiting.count c = s.waiting.count c + conditions.count c := by
  by_cases present : c ∈ conditions
  · obtain ⟨front, back, rfl⟩ := List.append_of_mem present
    have sides : c ∉ front ∧ c ∉ back := by
      rw [List.nodup_append, List.nodup_cons] at apart
      exact ⟨fun member => apart.2.2 c member c List.mem_cons_self rfl, apart.2.1.1⟩
    have before : ¬ (s.await aliasName front).Waits aliasName c := by
      rw [waits_await]
      rintro (old | ⟨-, member⟩)
      · exact absent old
      · exact sides.1 member
    rw [await_append, show ∀ s : PlanState, s.await aliasName (c :: back) =
      (s.addPending aliasName c).await aliasName back from fun _ => rfl,
      count_await_of_not_mem sides.2, count_addPending_of_absent before,
      count_await_of_not_mem sides.1, List.count_append, List.count_eq_zero.mpr sides.1,
      List.count_cons_self, List.count_eq_zero.mpr sides.2]
  · rw [count_await_of_not_mem present, List.count_eq_zero.mpr present, Nat.add_zero]

end PlanState

namespace Growth

variable {s : PlanState} {bindings : Bindings} {triples remaining : List TriplePattern}
  {filters : List Filter} {g next : Growth} {predicate : Iri} {pattern : TriplePattern}
  {names : List String} {column : Column} {n : Node}

theorem waiting_step (absent : ∀ c, ¬ g.state.Waits (g.nextAlias predicate) c) :
    (g.step predicate pattern).state.waiting = g.state.waiting := by
  have after : ∀ aliasName c, (g.step predicate pattern).state.Waits aliasName c →
      aliasName ∉ [g.nextAlias predicate] := by
    intro aliasName c waits
    simpa using ((waits_step aliasName c).mp waits).1
  have before : ∀ aliasName c, g.state.Waits aliasName c →
      aliasName ∉ [g.nextAlias predicate] := by
    intro aliasName c waits taken
    exact absent c (List.mem_singleton.mp taken ▸ waits)
  rw [← PlanState.conditions_others after, ← PlanState.conditions_others before,
    others_step (List.mem_singleton_self _)]

def total (g : Growth) : List Condition := g.tree.conditions ++ g.state.waiting

theorem fixed_mem_onClause (grown : GrownFrom s bindings triples g) (tidy : g.state.Tidy)
    (absent : ∀ c, ¬ g.state.Waits (g.nextAlias predicate) c)
    (free : ∀ name, (name, column) ∉ bindings ++ (g.step predicate pattern).tree.held) :
    fixed column n ∈ g.onClause predicate pattern ↔
      fixed column n ∈ JoinTree.leafConstants (g.nextLeaf predicate pattern) := by
  rw [mem_onClause tidy, ← fixed_mem_ownConditions]
  refine or_iff_left ?_
  rintro (equal | ready | waits)
  · obtain ⟨_, _, _, _, _, _, same⟩ := mem_equalities.mp equal
    exact fixed_ne_linked _ _ _ _ same
  · obtain ⟨f, _, found⟩ := mem_placed.mp ready
    obtain ⟨name, held⟩ := (expresses_condition (fun _ _ => grown.bound_step) found).reads
    exact free name held
  · exact absent _ waits

theorem count_step (grown : GrownFrom s bindings triples g) (tidy : g.state.Tidy)
    (absent : ∀ c, ¬ g.state.Waits (g.nextAlias predicate) c)
    (free : ∀ name, (name, column) ∉ bindings ++ (g.step predicate pattern).tree.held) :
    (g.step predicate pattern).total.count (fixed column n) = g.total.count (fixed column n) +
      (JoinTree.leafConstants (g.nextLeaf predicate pattern)).count (fixed column n) := by
  have clause : (g.onClause predicate pattern).count (fixed column n) =
      (JoinTree.leafConstants (g.nextLeaf predicate pattern)).count (fixed column n) := by
    have apart : (g.onClause predicate pattern).Nodup := nodup_distinct _
    rw [apart.count, (JoinTree.nodup_leafConstants _).count]
    simp only [fixed_mem_onClause grown tidy absent free]
  rw [total, total, waiting_step absent, step_tree, JoinTree.conditions]
  simp only [JoinTree.conditions, List.append_nil, List.count_append, clause]
  omega

-- The growth from `s` has the conditions of its constants, each once, besides what waited in `s`.
-- `names` are the aliases that were there before.
def Counted (s : PlanState) (bindings : Bindings) (names : List String) (g : Growth) : Prop :=
  (names ++ g.tree.aliases).Nodup → ∀ column n,
    (∀ name, (name, column) ∉ bindings ++ g.tree.held) →
    g.total.count (fixed column n) = s.waiting.count (fixed column n) +
      (g.tree.leaves.flatMap JoinTree.leafConstants).count (fixed column n)

section counted

variable (waiting : ∀ aliasName c, s.Waits aliasName c → aliasName ∈ names)

include waiting in
theorem counted_seed {filters : List Filter} {seed : TriplePattern} :
    Counted s bindings names (seedGrowth s bindings filters predicate seed) := by
  intro apart column n free
  have absent : ¬ s.Waits (s.aliases.relation predicate).aliasName (fixed column n) := by
    intro waits
    have known := waiting _ _ waits
    exact (List.nodup_append.mp apart).2.2 _ known _ (List.mem_singleton_self _) rfl
  have own : (PlanState.ownConditions bindings (s.aliases.relation predicate, seed)).count
      (fixed column n) =
        (JoinTree.leafConstants (s.aliases.relation predicate, seed)).count (fixed column n) := by
    rw [(nodup_ownConditions _ _).count, (JoinTree.nodup_leafConstants _).count]
    simp only [fixed_mem_ownConditions]
  have settled : (s.settle bindings predicate seed).waiting.count (fixed column n) =
      s.waiting.count (fixed column n) +
        (PlanState.ownConditions bindings (s.aliases.relation predicate, seed)).count
          (fixed column n) :=
    PlanState.count_await absent (nodup_ownConditions _ _)
  simp only [seedGrowth, total, JoinTree.conditions, List.nil_append, JoinTree.leaves,
    List.flatMap_cons, List.flatMap_nil, List.append_nil, settled, own]

include waiting in
theorem Counted.step (counted : Counted s bindings names g)
    (grown : GrownFrom s bindings triples g) (founded : Founded s bindings filters g)
    (predicate : Iri) (pattern : TriplePattern) :
    Counted s bindings names (g.step predicate pattern) := by
  intro apart column n free
  rw [aliases_step, ← List.append_assoc] at apart
  obtain ⟨before, -, fresh⟩ := List.nodup_append.mp apart
  have absent : ∀ c, ¬ g.state.Waits (g.nextAlias predicate) c := by
    intro c waits
    have new : g.nextAlias predicate ∉ names ++ g.tree.aliases :=
      fun known => fresh _ known _ (List.mem_singleton_self _) rfl
    rw [List.mem_append, not_or] at new
    exact new.1 (waiting _ c ((founded.frame _ new.2 c).mp waits))
  have earlier := counted before column n fun name held => free name (held_step held)
  rw [count_step grown founded.tidy absent free, earlier, step_leaves, List.flatMap_append,
    List.count_append, List.flatMap_cons, List.flatMap_nil, List.append_nil, nextLeaf]
  omega

include waiting in
theorem Grows.counted (run : Grows g remaining next) (among : ∀ t ∈ remaining, t ∈ triples)
    (grown : GrownFrom s bindings triples g) (founded : Founded s bindings filters g)
    (counted : Counted s bindings names g) : Counted s bindings names next := by
  have kept : ∀ g predicate pattern,
      (GrownFrom s bindings triples g ∧ Founded s bindings filters g) ∧
        Counted s bindings names g →
      pattern ∈ triples → pattern.folded ∉ g.state.planned → pattern.predicate = .iri predicate →
      (GrownFrom s bindings triples (g.step predicate pattern) ∧
        Founded s bindings filters (g.step predicate pattern)) ∧
        Counted s bindings names (g.step predicate pattern) := by
    intro g predicate pattern known member fresh mapped
    obtain ⟨⟨grown, founded⟩, counted⟩ := known
    exact ⟨⟨grown.step member fresh mapped, founded.step grown⟩,
      counted.step waiting grown founded predicate pattern⟩
  exact (run.keeps kept among ⟨⟨grown, founded⟩, counted⟩).2

end counted

end Growth

theorem PatternRun.counted {s next : PlanState} {bindings bound : Bindings} {pattern : GraphPattern}
    {tree : JoinTree} {names : List String} {column : Column} {n : Node}
    (run : PatternRun s bindings pattern (some tree) next bound) (tidy : s.Tidy)
    (waiting : ∀ aliasName c, s.Waits aliasName c → aliasName ∈ names)
    (apart : (names ++ tree.aliases).Nodup)
    (free : ∀ name, (name, column) ∉ bindings ++ tree.held) :
    (tree.conditions ++ next.waiting).count (fixed column n) =
      s.waiting.count (fixed column n) +
        (tree.leaves.flatMap JoinTree.leafConstants).count (fixed column n) := by
  cases run with
  | grown order known fresh mapped run left =>
    rename_i before seed others predicate g
    have among : ∀ t ∈ others, t ∈ pattern.triples := by
      intro t member
      simp [order, member]
    have counted := run.counted waiting among (Growth.grownFrom_seed (by simp [order]) fresh mapped)
      (Growth.founded_seed tidy) (Growth.counted_seed waiting) apart column n free
    have present : (s.aliases.relation predicate, seed) ∈ g.tree.leaves :=
      run.leaves_subset _ (by simp [seedGrowth, JoinTree.leaves])
    have unfiltered :
        fixed column n ∉ attached (s.aliases.relation predicate, seed) g.filters := by
      intro member
      obtain ⟨f, -, found⟩ := mem_attached.mp member
      obtain ⟨name, held⟩ := (expresses_seedCondition found).reads
      exact free name (List.mem_append_right _ (List.mem_flatMap.mpr ⟨_, present, held⟩))
    rw [List.count_append, PlanState.count_await_of_not_mem unfiltered, ← counted, Growth.total,
      List.count_append]

namespace Plan

variable {tables : TableMap} {required done elements : List Element} {base p next : Progress}
  {bs : List Branch} {pattern : GraphPattern} {s : PlanState} {bound : Bindings}
  {init tree member : JoinTree}

def Progress.total (p : Progress) : List Condition := p.conditions ++ p.state.waiting

-- The condition of a constant is there as often as the tables demand it. A column that holds a
-- variable is left out, because filters can say the same of it.
def Counted (p : Progress) : Prop :=
  p.aliases.Nodup → ∀ column n, (∀ name, (name, column) ∉ p.held) →
    p.total.count (fixed column n) =
      (p.leaves.flatMap JoinTree.leafConstants).count (fixed column n)

theorem counted_start (tables : TableMap) : Counted (.start tables) :=
  fun _ _ _ _ => rfl

theorem count_require (p : Progress) (tree : JoinTree) (s : PlanState) (bound : Bindings)
    (column : Column) (n : Node) :
    (p.require (some tree) s bound).conditions.count (fixed column n) =
      p.conditions.count (fixed column n) + tree.conditions.count (fixed column n) := by
  cases held : p.tree with
  | none => simp [Progress.require, Progress.conditions, held]
  | some t =>
    have unlinked : (distinct (t.links tree bound)).count (fixed column n) = 0 :=
      List.count_eq_zero.mpr fun member => fixed_not_mem_links t tree bound (by simpa using member)
    simp [Progress.require, Progress.conditions, held, JoinTree.add, JoinTree.conditions,
      List.count_append, unlinked]

theorem Counted.require (counted : Counted p) (required : Required tables done p)
    (run : PatternRun p.state p.required pattern (some tree) s bound) :
    Counted (p.require (some tree) s bound) := by
  intro apart column n free
  rw [Progress.aliases_require] at apart
  simp only [Progress.held_require, List.mem_append, not_or] at free
  have unread : ∀ name, (name, column) ∉ p.required ++ tree.held := by
    intro name member
    rcases List.mem_append.mp member with old | new
    · exact (free name).1 (required.drawn _ old)
    · exact (free name).2 new
  have law := run.counted (n := n) required.tidy required.waiting apart unread
  have earlier := counted (List.nodup_append.mp apart).1 column n fun name => (free name).1
  have state : (p.require (some tree) s bound).state = s := rfl
  rw [Progress.total, List.count_append] at earlier
  rw [List.count_append] at law
  rw [Progress.total, List.count_append, count_require, state, Progress.leaves_require,
    List.flatMap_append, List.count_append]
  omega

theorem counted_required (run : (addEach addRequired (.start tables) elements).outcome = .ok p) :
    Counted p := by
  intro apart
  refine required_induction (fun _ => Counted) (counted_start tables) ?_ ?_ run apart apart
  · intro done p pattern known counted _
    exact counted
  · intro done p pattern tree s bound known counted run apart
    exact counted.require known run

theorem count_taken {column : Column} {n : Node}
    (run : PatternRun p.state p.required pattern (some member) s bound) (tidy : p.state.Tidy)
    (waiting : ∀ aliasName c, p.state.Waits aliasName c → aliasName ∈ p.aliases)
    (apart : (p.aliases ++ member.aliases).Nodup)
    (unread : ∀ name, (name, column) ∉ p.required ++ member.held) :
    member.conditions.count (fixed column n) +
        (takeAll s member.aliases).1.count (fixed column n) =
      (member.leaves.flatMap JoinTree.leafConstants).count (fixed column n) := by
  have law := run.counted (n := n) tidy waiting apart unread
  obtain ⟨left, -, founded, -⟩ := run.founded tidy
  have parts := (PlanState.waiting_takeAll founded.tidy member.aliases).count_eq (fixed column n)
  have rest : (takeAll s member.aliases).2.waiting = p.state.waiting := by
    refine run.waiting_takeAll fun aliasName c waits taken => ?_
    exact (List.nodup_append.mp apart).2.2 _ (waiting aliasName c waits) _ taken rfl
  simp only [List.count_append] at parts law
  rw [rest] at parts
  omega

theorem Counted.allow (counted : Counted p) (allowed : Allowed tables required base bs p)
    (known : Required tables required base) (held : p.tree = some init)
    (run : PatternRun p.state p.required pattern (some member) s bound)
    (apart : (p.aliases ++ member.aliases).Nodup) :
    Counted (p.allow init (some member) s bound) := by
  intro _ column n free
  have leaves : (p.allow init (some member) s bound).leaves = p.leaves ++ member.leaves := by
    simp [Progress.allow, Progress.leaves, held]
  simp only [Progress.held, leaves, List.flatMap_append, List.mem_append, not_or] at free
  have unread : ∀ name, (name, column) ∉ p.required ++ member.held := by
    intro name inside
    rcases List.mem_append.mp inside with old | new
    · exact (free name).1 (allowed.drawn known _ old)
    · exact (free name).2 new
  have waiting : ∀ aliasName c, p.state.Waits aliasName c → aliasName ∈ p.aliases :=
    fun _ _ => allowed.waiting known
  obtain ⟨old, own, between⟩ := List.nodup_append.mp apart
  have taken := count_taken (n := n) run allowed.tidy waiting apart unread
  have earlier := counted old column n fun name => (free name).1
  have single := List.nodup_iff_count_le_one.mp (JoinTree.nodup_constants own) (fixed column n)
  -- The clause leaves out repetitions, but what is taken has the condition once at most.
  have clause : (distinct (init.links member p.required ++ (takeAll s member.aliases).1)).count
      (fixed column n) = (takeAll s member.aliases).1.count (fixed column n) := by
    have inside : fixed column n ∈
        distinct (init.links member p.required ++ (takeAll s member.aliases).1) ↔
          fixed column n ∈ (takeAll s member.aliases).1 := by
      rw [mem_distinct, List.mem_append, or_iff_right (fixed_not_mem_links init member p.required)]
    rw [(nodup_distinct _).count]
    simp only [inside]
    split
    next present =>
      have positive := List.count_pos_iff.mpr present
      omega
    next absent => exact (List.count_eq_zero.mpr absent).symm
  have state : (p.allow init (some member) s bound).state.waiting = p.state.waiting := by
    refine run.waiting_takeAll fun aliasName c waits taken => ?_
    exact between _ (waiting aliasName c waits) _ taken rfl
  have conditions : (p.allow init (some member) s bound).conditions = init.conditions ++
      member.conditions ++ distinct (init.links member p.required ++
        (takeAll s member.aliases).1) := rfl
  have before : p.conditions = init.conditions := by simp [Progress.conditions, held]
  rw [Progress.total, List.count_append, before] at earlier
  rw [Progress.total, state, conditions, leaves, List.flatMap_append]
  simp only [List.count_append, clause]
  omega

theorem counted_run (known : Required tables required base) (counted : Counted base)
    (run : (addEach addOptional base.turn elements).outcome = .ok p) (apart : p.aliases.Nodup) :
    Counted p := by
  refine allowed_preserves Counted known counted ?_ run apart
  intro bs p init member pattern s bound allowed counted held run apart
  exact counted.allow allowed known held run apart

end Plan

end GraphSql
