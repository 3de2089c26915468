import GraphSql.Proofs.Planning.Folding
import GraphSql.Proofs.Planning.Frame
import GraphSql.Proofs.Planning.Outcome

namespace GraphSql
open Sql

-- Two runs of planning, on patterns that differ in the case of language tags and in the order of
-- their filters. They take the same steps, and their clauses have the same conditions.

inductive Arrangement where
  | ordered
  | unordered

namespace Arrangement

section agree

variable {α β : Type} {a : Arrangement} {xs ys us vs : List α}

def Agree : Arrangement → List α → List α → Prop
  | .ordered, xs, ys => xs = ys
  | .unordered, xs, ys => xs.Perm ys

instance [DecidableEq α] (a : Arrangement) (xs ys : List α) : Decidable (a.Agree xs ys) :=
  match a with
  | .ordered => inferInstanceAs (Decidable (xs = ys))
  | .unordered => inferInstanceAs (Decidable (xs.Perm ys))

theorem agree_of_eq (same : xs = ys) : a.Agree xs ys := by
  cases a with
  | ordered => exact same
  | unordered => exact .of_eq same

theorem Agree.perm (agree : a.Agree xs ys) : xs.Perm ys := by
  cases a with
  | ordered => exact .of_eq agree
  | unordered => exact agree

theorem Agree.append (front : a.Agree xs ys) (back : a.Agree us vs) :
    a.Agree (xs ++ us) (ys ++ vs) := by
  cases a with
  | ordered => exact congrArg₂ _ front back
  | unordered => exact List.Perm.append front back

theorem Agree.filter (agree : a.Agree xs ys) (keep : α → Bool) :
    a.Agree (xs.filter keep) (ys.filter keep) := by
  cases a with
  | ordered => exact congrArg _ agree
  | unordered => exact List.Perm.filter keep agree

theorem Agree.filterMap (agree : a.Agree xs ys) (f : α → Option β) :
    a.Agree (xs.filterMap f) (ys.filterMap f) := by
  cases a with
  | ordered => exact congrArg _ agree
  | unordered => exact List.Perm.filterMap f agree

theorem Agree.distinct [DecidableEq α] (agree : a.Agree xs ys) :
    a.Agree (distinct xs) (distinct ys) := by
  cases a with
  | ordered => exact congrArg _ agree
  | unordered =>
    refine (List.perm_ext_iff_of_nodup (nodup_distinct xs) (nodup_distinct ys)).mpr fun item => ?_
    simpa using List.Perm.mem_iff agree

theorem Agree.isEmpty (agree : a.Agree xs ys) : xs.isEmpty = ys.isEmpty := by
  rw [Bool.eq_iff_iff, List.isEmpty_iff, List.isEmpty_iff]
  have perm := agree.perm
  exact ⟨fun none => (none ▸ perm).nil_eq.symm, fun none => (none ▸ perm).eq_nil⟩

end agree

variable {a : Arrangement} {cs ds es fs : List Condition}

-- Conditions that come, repeated ones left out, from lists that agree once they are folded.
def Sources (a : Arrangement) (cs ds : List Condition) : Prop :=
  ∃ xs ys, distinct cs = distinct xs ∧ distinct ds = distinct ys ∧
    a.Agree (xs.map Condition.folded) (ys.map Condition.folded)

theorem Agree.sources (agree : a.Agree (cs.map Condition.folded) (ds.map Condition.folded)) :
    a.Sources cs ds :=
  ⟨cs, ds, rfl, rfl, agree⟩

theorem Sources.append (front : a.Sources cs ds) (back : a.Sources es fs) :
    a.Sources (cs ++ es) (ds ++ fs) := by
  obtain ⟨xs, ys, left, right, agree⟩ := front
  obtain ⟨us, vs, left', right', agree'⟩ := back
  have both : ∀ cs es xs us : List Condition, distinct cs = distinct xs →
      distinct es = distinct us → distinct (cs ++ es) = distinct (xs ++ us) := by
    intro cs es xs us first second
    rw [distinct_append, distinct_append, first, ← appendAllNew_distinct, second,
      appendAllNew_distinct]
  refine ⟨xs ++ us, ys ++ vs, both _ _ _ _ left left', both _ _ _ _ right right', ?_⟩
  rw [List.map_append, List.map_append]
  exact agree.append agree'

theorem Sources.distinct (sources : a.Sources cs ds) : a.Sources (distinct cs) (distinct ds) := by
  obtain ⟨xs, ys, left, right, agree⟩ := sources
  have twice : ∀ cs : List Condition, GraphSql.distinct (GraphSql.distinct cs) =
      GraphSql.distinct cs := fun cs => distinct_of_nodup (nodup_distinct cs)
  exact ⟨xs, ys, (twice cs).trans left, (twice ds).trans right, agree⟩

theorem Sources.appendAllNew (front : a.Sources cs ds) (back : a.Sources es fs) :
    a.Sources (appendAllNew cs es) (appendAllNew ds fs) := by
  obtain ⟨xs, ys, left, right, agree⟩ := front.append back
  have same : ∀ cs es : List Condition,
      GraphSql.distinct (GraphSql.appendAllNew cs es) = GraphSql.distinct (cs ++ es) := by
    intro cs es
    rw [distinct_append]
    exact appendAllNew_appendAllNew [] cs es
  exact ⟨xs, ys, (same cs es).trans left, (same ds fs).trans right, agree⟩

theorem Sources.mem_iff (sources : a.Sources cs ds) (c : Condition) :
    c ∈ cs.map Condition.folded ↔ c ∈ ds.map Condition.folded := by
  obtain ⟨xs, ys, left, right, agree⟩ := sources
  have among : ∀ cs xs : List Condition, GraphSql.distinct cs = GraphSql.distinct xs →
      (c ∈ cs.map Condition.folded ↔ c ∈ xs.map Condition.folded) := by
    intro cs xs same
    have each : ∀ d, d ∈ cs ↔ d ∈ xs := by
      intro d
      rw [← mem_distinct cs, same, mem_distinct]
    simp only [List.mem_map, each]
  rw [among cs xs left, among ds ys right]
  exact agree.perm.mem_iff

structure Clauses (a : Arrangement) (cs ds : List Condition) : Prop where
  left : cs.Nodup
  right : ds.Nodup
  sources : a.Sources cs ds

theorem Sources.clauses (sources : a.Sources cs ds) :
    a.Clauses (GraphSql.distinct cs) (GraphSql.distinct ds) :=
  ⟨nodup_distinct cs, nodup_distinct ds, sources.distinct⟩

end Arrangement

inductive Sql.JoinTree.Variant (clauses : List Condition → List Condition → Prop) :
    JoinTree → JoinTree → Prop where
  | table (same : t.Same u) : Variant clauses (.table relation t) (.table relation u)
  | group (first : Variant clauses t u) : Variant clauses (.group t) (.group u)
  | join (init : Variant clauses t u) (last : Variant clauses member other) (on : clauses cs ds) :
      Variant clauses (.join t kind member cs) (.join u kind other ds)

namespace Sql.JoinTree.Variant

variable {clauses : List Condition → List Condition → Prop} {t u member other : JoinTree}

theorem leaves (variant : Variant clauses t u) :
    t.leaves.map (fun leaf => (leaf.1, leaf.2.folded)) =
      u.leaves.map fun leaf => (leaf.1, leaf.2.folded) := by
  induction variant with
  | table same => simpa [JoinTree.leaves, TriplePattern.Same] using same
  | group first ih => exact ih
  | join init last on first second => simp [JoinTree.leaves, first, second]

theorem aliases (variant : Variant clauses t u) : t.aliases = u.aliases := by
  have names := congrArg (List.map (·.1.aliasName)) variant.leaves
  simpa [JoinTree.aliases, Function.comp_def] using names

theorem heldVariables (variant : Variant clauses t u) : t.heldVariables = u.heldVariables := by
  have each : ∀ leaves : List (Relation × TriplePattern), leaves.flatMap leafVariables =
      (leaves.map fun leaf => (leaf.1, leaf.2.folded)).flatMap leafVariables := by
    intro leaves
    simp only [List.flatMap_map, leafVariables_folded]
  rw [JoinTree.heldVariables, JoinTree.heldVariables, each, variant.leaves, ← each]

theorem isLong (variant : Variant clauses t u) : t.isLong = u.isLong := by
  cases variant <;> rfl

theorem links (variant : Variant clauses t u) (added : Variant clauses member other)
    (bindings : Bindings) : t.links member bindings = u.links other bindings := by
  simp only [JoinTree.links, variant.heldVariables, added.heldVariables]

theorem add {a : Arrangement} (kind : JoinKind) {cs ds : List Condition}
    (variant : Variant a.Clauses t u) (added : Variant a.Clauses member other)
    (on : a.Sources cs ds) : Variant a.Clauses (t.add kind member cs) (u.add kind other ds) :=
  .join variant added on.clauses

end Sql.JoinTree.Variant

structure Pending.Variant (a : Arrangement) (entry other : Pending) : Prop where
  aliasName : entry.aliasName = other.aliasName
  part : entry.part = other.part
  conditions : a.Clauses entry.conditions other.conditions

structure PlanState.Variant (a : Arrangement) (s t : PlanState) : Prop where
  aliases : s.aliases = t.aliases
  planned : s.planned = t.planned
  part : s.part = t.part
  pending : List.Forall₂ (Pending.Variant a) s.pending t.pending

namespace PlanState

variable {a : Arrangement} {s t : PlanState} {cs ds : List Condition}

def insertAll (part : Part) (aliasName : String) (conditions : List Condition)
    (pending : List Pending) : List Pending :=
  conditions.foldl (fun pending c => insertPending part aliasName c pending) pending

theorem pending_await (s : PlanState) (aliasName : String) (conditions : List Condition) :
    (s.await aliasName conditions).pending =
      insertAll s.part aliasName conditions s.pending := by
  induction conditions generalizing s with
  | nil => rfl
  | cons c rest ih => exact ih _

theorem insertAll_of_eq {part : Part} {aliasName : String} {entry : Pending}
    (same : entry.aliasName = aliasName) (conditions : List Condition) (rest : List Pending) :
    insertAll part aliasName conditions (entry :: rest) =
      { entry with conditions := appendAllNew entry.conditions conditions } :: rest := by
  unfold insertAll appendAllNew
  induction conditions generalizing entry with
  | nil => rfl
  | cons c later ih =>
    rw [List.foldl_cons, insertPending, if_pos same]
    exact ih same

theorem insertAll_of_ne {part : Part} {aliasName : String} {entry : Pending}
    (differs : entry.aliasName ≠ aliasName) (conditions : List Condition) (rest : List Pending) :
    insertAll part aliasName conditions (entry :: rest) =
      entry :: insertAll part aliasName conditions rest := by
  unfold insertAll
  induction conditions generalizing rest with
  | nil => rfl
  | cons c later ih =>
    rw [List.foldl_cons, insertPending, if_neg differs]
    exact ih _

theorem insertAll_nil (part : Part) (aliasName : String) (conditions : List Condition) :
    insertAll part aliasName conditions [] =
      if conditions.isEmpty then [] else [⟨aliasName, part, distinct conditions⟩] := by
  cases conditions with
  | nil => rfl
  | cons c rest =>
    have single : (⟨aliasName, part, [c]⟩ : Pending).aliasName = aliasName := rfl
    exact insertAll_of_eq single rest []

theorem insertAll_variant {pending others : List Pending}
    (entries : List.Forall₂ (Pending.Variant a) pending others) (part : Part) (aliasName : String)
    (agree : a.Agree (cs.map Condition.folded) (ds.map Condition.folded)) :
    List.Forall₂ (Pending.Variant a) (insertAll part aliasName cs pending)
      (insertAll part aliasName ds others) := by
  induction entries with
  | nil =>
    have empty := agree.isEmpty
    rw [List.isEmpty_map, List.isEmpty_map] at empty
    rw [insertAll_nil, insertAll_nil, empty]
    split
    next => exact .nil
    next => exact .cons ⟨rfl, rfl, agree.sources.clauses⟩ .nil
  | cons first rest ih =>
    rename_i entry other pending others
    by_cases same : entry.aliasName = aliasName
    · rw [insertAll_of_eq same, insertAll_of_eq (first.aliasName ▸ same)]
      have conditions := first.conditions
      refine .cons ⟨first.aliasName, first.part, ?_, ?_, ?_⟩ rest
      · exact nodup_appendAllNew _ _ conditions.left
      · exact nodup_appendAllNew _ _ conditions.right
      · exact conditions.sources.appendAllNew agree.sources
    · rw [insertAll_of_ne same, insertAll_of_ne (first.aliasName ▸ same)]
      exact .cons first ih

theorem Variant.await (variant : Variant a s t) (aliasName : String)
    (agree : a.Agree (cs.map Condition.folded) (ds.map Condition.folded)) :
    Variant a (s.await aliasName cs) (t.await aliasName ds) where
  aliases := by simpa using variant.aliases
  planned := by simpa using variant.planned
  part := by simpa using variant.part
  pending := by
    rw [pending_await, pending_await, variant.part]
    exact insertAll_variant variant.pending _ _ agree

theorem Variant.pendingFor (variant : Variant a s t) (aliasName : String) :
    a.Clauses (s.pendingFor aliasName) (t.pendingFor aliasName) := by
  have entries := variant.pending
  unfold PlanState.pendingFor
  generalize s.pending = pending at entries
  generalize t.pending = others at entries
  induction entries with
  | nil => exact ⟨List.nodup_nil, List.nodup_nil, (Arrangement.agree_of_eq rfl).sources⟩
  | cons first rest ih =>
    rw [List.find?_cons, List.find?_cons, first.aliasName]
    split
    next => exact first.conditions
    next => exact ih

theorem Variant.others (variant : Variant a s t) (names : List String) :
    List.Forall₂ (Pending.Variant a) (s.others names) (t.others names) := by
  have entries := variant.pending
  unfold PlanState.others
  generalize s.pending = pending at entries
  generalize t.pending = others at entries
  induction entries with
  | nil => exact .nil
  | cons first rest ih =>
    rw [List.filter_cons, List.filter_cons, first.aliasName]
    split
    next => exact .cons first ih
    next => exact ih

theorem Variant.takeAll (variant : Variant a s t) (names : List String) :
    Variant a (Plan.takeAll s names).2 (Plan.takeAll t names).2 where
  aliases := by simpa using variant.aliases
  planned := by simpa using variant.planned
  part := by
    obtain ⟨_, same⟩ := takeAll_eq s names
    obtain ⟨_, same'⟩ := takeAll_eq t names
    rw [same, same']
    exact variant.part
  pending := by
    rw [pending_takeAll, pending_takeAll]
    exact variant.others names

theorem Variant.taken (variant : Variant a s t) (names : List String) :
    a.Sources (Plan.takeAll s names).1 (Plan.takeAll t names).1 := by
  induction names generalizing s t with
  | nil => exact (Arrangement.agree_of_eq rfl).sources
  | cons name rest ih =>
    exact (variant.pendingFor name).sources.append (ih (variant.takeAll [name]))

theorem Variant.settle (variant : Variant a s t) (bindings : Bindings) (predicate : Iri)
    {pattern other : TriplePattern} (same : pattern.Same other) :
    Variant a (s.settle bindings predicate pattern) (t.settle bindings predicate other) := by
  have own : a.Agree
      ((ownConditions bindings (s.aliases.relation predicate, pattern)).map Condition.folded)
      ((ownConditions bindings (s.aliases.relation predicate, other)).map Condition.folded) := by
    rw [← ownConditions_folded, same.folded, ownConditions_folded]
    exact Arrangement.agree_of_eq rfl
  unfold PlanState.settle
  rw [← variant.aliases, ← variant.planned, same.folded]
  refine Variant.await ?_ _ own
  exact ⟨rfl, rfl, variant.part, variant.pending⟩

end PlanState

namespace Growth

variable {a : Arrangement} {g h : Growth} {pattern other : TriplePattern}

structure Variant (a : Arrangement) (g h : Growth) : Prop where
  state : g.state.Variant a h.state
  bindings : g.bindings = h.bindings
  tree : JoinTree.Variant a.Clauses g.tree h.tree
  filters : a.Agree (g.filters.map Filter.folded) (h.filters.map Filter.folded)

theorem pendingFor_release (s : PlanState) (aliasName : String) (conditions : List Condition) :
    (s.release aliasName conditions).pendingFor aliasName =
      conditions.foldl List.erase (s.pendingFor aliasName) := by
  have one : ∀ (s : PlanState) (c : Condition),
      (s.removePending aliasName c).pendingFor aliasName = (s.pendingFor aliasName).erase c := by
    intro s c
    unfold PlanState.pendingFor PlanState.removePending
    simp only
    generalize s.pending = pending
    induction pending with
    | nil => rfl
    | cons entry rest ih =>
      by_cases same : entry.aliasName = aliasName
      · simp [same]
      · simpa [same] using ih
  induction conditions generalizing s with
  | nil => rfl
  | cons c rest ih => rw [List.foldl_cons, ← one, ← ih]; rfl

-- What is taken off the waiting ones stands in the clause already.
theorem onClause_eq (g : Growth) (predicate : Iri) (pattern : TriplePattern) :
    g.onClause predicate pattern =
      distinct (appendAllNew
        (appendAllNew
          (distinct (equalities (g.settled predicate pattern).bindings
            (g.nextLeaf predicate pattern)))
          (placed (g.settled predicate pattern).bindings
            ((g.settled predicate pattern).ready (g.nextLeaf predicate pattern))))
        ((g.settled predicate pattern).state.pendingFor (g.nextAlias predicate))) := by
  have erased : ∀ items removed more : List Condition, (∀ c ∈ removed, c ∈ items) →
      appendAllNew items (removed.foldl List.erase more) = appendAllNew items more := by
    intro items removed more known
    induction removed generalizing more with
    | nil => rfl
    | cons c rest ih =>
      rw [List.foldl_cons, ih _ fun d member => known d (List.mem_cons_of_mem _ member)]
      exact appendAllNew_erase (known c List.mem_cons_self) more
  have released := pendingFor_release (g.settled predicate pattern).state (g.nextAlias predicate)
    (equalities (g.settled predicate pattern).bindings (g.nextLeaf predicate pattern))
  refine congrArg distinct ((congrArg _ released).trans (erased _ _ _ ?_))
  intro c member
  simp [member]

theorem pending_step (g : Growth) (predicate : Iri) (pattern : TriplePattern) :
    (g.step predicate pattern).state.pending = g.state.others [g.nextAlias predicate] := by
  have kept : (g.step predicate pattern).state.others [g.nextAlias predicate] =
      g.state.others [g.nextAlias predicate] := others_step (List.mem_singleton_self _)
  rw [← kept]
  refine (List.filter_eq_self.mpr fun entry member => ?_).symm
  have differs := (List.mem_filter.mp member).2
  simpa [nextAlias] using differs

theorem Variant.settled (variant : Variant a g h) (predicate : Iri)
    (same : pattern.Same other) :
    Variant a (g.settled predicate pattern) (h.settled predicate other) where
  state := by
    have state := variant.state.settle h.bindings predicate same
    simpa only [Growth.settled, variant.bindings] using state
  bindings := by
    simp only [Growth.settled]
    rw [variant.bindings, variant.state.aliases, leafVariables_same _ same]
  tree := variant.tree
  filters := variant.filters

theorem Variant.nextLeaf (variant : Variant a g h) (predicate : Iri) :
    g.state.aliases.relation predicate = h.state.aliases.relation predicate := by
  rw [variant.state.aliases]

theorem Variant.joinedVariables (variant : Variant a g h) (relation : Relation)
    (same : pattern.Same other) :
    g.joinedVariables (relation, pattern) = h.joinedVariables (relation, other) := by
  have single : JoinTree.Variant a.Clauses (.table relation pattern) (.table relation other) :=
    .table same
  rw [Growth.joinedVariables, Growth.joinedVariables, variant.tree.heldVariables,
    single.heldVariables]

theorem Variant.filtered (variant : Variant a g h) (keep : Filter → Bool)
    (folded : ∀ f, keep f.folded = keep f) :
    a.Agree ((g.filters.filter keep).map Filter.folded)
      ((h.filters.filter keep).map Filter.folded) := by
  have each : ∀ filters : List Filter, (filters.filter keep).map Filter.folded =
      (filters.map Filter.folded).filter keep := by
    intro filters
    rw [List.filter_map]
    simp only [Function.comp_def, folded]
  rw [each, each]
  exact variant.filters.filter keep

theorem Variant.onClause (variant : Variant a g h) (predicate : Iri)
    (same : pattern.Same other) :
    a.Clauses (g.onClause predicate pattern) (h.onClause predicate other) := by
  have settled := variant.settled predicate same
  have leaf : g.nextLeaf predicate pattern = (h.state.aliases.relation predicate, pattern) := by
    rw [Growth.nextLeaf, variant.state.aliases]
  have ready : a.Agree
      (((g.settled predicate pattern).ready (g.nextLeaf predicate pattern)).map Filter.folded)
      (((h.settled predicate other).ready (h.nextLeaf predicate other)).map Filter.folded) := by
    rw [leaf, Growth.ready, Growth.ready, settled.joinedVariables _ same, settled.bindings]
    exact settled.filtered _ fun f => isReady_folded _ f _
  have equal : equalities (g.settled predicate pattern).bindings (g.nextLeaf predicate pattern) =
      equalities (h.settled predicate other).bindings (h.nextLeaf predicate other) := by
    rw [leaf, Growth.nextLeaf, settled.bindings, ← equalities_folded, same.folded,
      equalities_folded]
  have placed : a.Agree
      ((placed (g.settled predicate pattern).bindings
        ((g.settled predicate pattern).ready (g.nextLeaf predicate pattern))).map Condition.folded)
      ((Growth.placed (h.settled predicate other).bindings
        ((h.settled predicate other).ready (h.nextLeaf predicate other))).map
          Condition.folded) := by
    rw [map_placed, map_placed, settled.bindings]
    exact ready.filterMap _
  have waiting := settled.state.pendingFor (g.nextAlias predicate)
  rw [onClause_eq, onClause_eq, equal]
  refine ((Arrangement.Sources.distinct ?_).appendAllNew placed.sources).appendAllNew ?_ |>.clauses
  · exact (Arrangement.agree_of_eq rfl).sources
  · rw [show h.nextAlias predicate = g.nextAlias predicate from
      congrArg Relation.aliasName (variant.nextLeaf predicate).symm]
    exact waiting.sources

theorem Variant.step (variant : Variant a g h) (predicate : Iri) (same : pattern.Same other) :
    Variant a (g.step predicate pattern) (h.step predicate other) where
  state := by
    refine ⟨by simp [variant.state.aliases], ?_, by simp [variant.state.part], ?_⟩
    · rw [step_planned, step_planned, variant.state.planned, same.folded]
    · rw [pending_step, pending_step, nextAlias, nextAlias, variant.state.aliases]
      exact variant.state.others _
  bindings := (variant.settled predicate same).bindings
  tree := by
    rw [step_tree, step_tree, Growth.nextLeaf, Growth.nextLeaf, variant.state.aliases]
    exact .join variant.tree (.table same) (variant.onClause predicate same)
  filters := by
    have settled := variant.settled predicate same
    simp only [Growth.step, Growth.joined]
    rw [variant.state.aliases, settled.joinedVariables _ same, settled.bindings]
    refine settled.filtered _ fun f => ?_
    rw [isReady_folded]

end Growth

end GraphSql
