import GraphSql.Proofs.Planning.Count
import GraphSql.Proofs.Planning.Folding

namespace GraphSql
open Sql

-- No clause says the same twice: two of its conditions differ by more than the case of language
-- tags, if no two tables have one alias.

def ToldApart (has : Condition → Prop) : Prop :=
  ∀ one two, has one → has two → one.folded = two.folded → one = two

theorem ToldApart.mono {has some : Condition → Prop} (told : ToldApart has)
    (subset : ∀ c, some c → has c) : ToldApart some :=
  fun one two first second => told one two (subset one first) (subset two second)

namespace Sql.JoinTree

def ToldApart : JoinTree → Prop
  | .table .. => True
  | .group first => first.ToldApart
  | .join init _ last on => init.ToldApart ∧ last.ToldApart ∧ GraphSql.ToldApart (· ∈ on)

theorem toldApart_of_conditions {t : JoinTree} (told : GraphSql.ToldApart (· ∈ t.conditions)) :
    t.ToldApart := by
  induction t with
  | table relation pattern => trivial
  | group first ih => exact ih told
  | join init kind last on first second =>
    refine ⟨first (told.mono fun c member => ?_), second (told.mono fun c member => ?_),
      told.mono fun c member => ?_⟩
    all_goals simp [conditions, member]

theorem toldApart_branches {t : JoinTree} {bs : List Branch} (told : t.ToldApart)
    (each : ∀ b ∈ bs, GraphSql.ToldApart (· ∈ b.conditions)) : (t.branches bs).ToldApart := by
  unfold branches
  induction bs generalizing t with
  | nil => exact told
  | cons b rest ih =>
    refine ih ?_ fun b member => each b (List.mem_cons_of_mem _ member)
    have first := each b List.mem_cons_self
    unfold branch
    cases joined : b.joined with
    | none => exact told
    | some joint =>
      refine ⟨told, toldApart_of_conditions (first.mono fun c member => ?_),
        first.mono fun c member => ?_⟩
      all_goals simp [Branch.conditions, joined, member]

end Sql.JoinTree

section conditions

variable {held : Bindings} {leaves : List (Relation × TriplePattern)} {c d : Condition}

theorem Operand.eq_of_folded_column {o : Operand} {column : Column}
    (same : o.folded = .column column) : o = .column column := by
  cases o with
  | column other => exact same
  | value text => cases same

theorem eq_linked {one two : Column} (same : d.folded = (linked one two).folded) :
    d = linked one two := by
  obtain ⟨left, operator, right⟩ := d
  simp only [Condition.folded, linked, Condition.equal, Operand.folded,
    Condition.mk.injEq] at same
  obtain ⟨first, rfl, second⟩ := same
  rw [Operand.eq_of_folded_column first, Operand.eq_of_folded_column second]
  rfl

theorem toldApart_links (links : ∀ c, has c → ∃ one two, c = linked one two) : ToldApart has := by
  intro c d first _ same
  obtain ⟨one, two, rfl⟩ := links c first
  exact (eq_linked same.symm).symm

theorem name_of_column {name other : String} {column : Column}
    (apart : (leaves.map (·.1.aliasName)).Nodup)
    (first : (name, column) ∈ leaves.flatMap JoinTree.leafVariables)
    (second : (other, column) ∈ leaves.flatMap JoinTree.leafVariables) : name = other := by
  obtain ⟨leaf, present, held⟩ := List.mem_flatMap.mp first
  obtain ⟨leaf', present', held'⟩ := List.mem_flatMap.mp second
  obtain ⟨side, v, node, rfl, rfl⟩ := JoinTree.mem_leafVariables.mp held
  obtain ⟨side', w, node', rfl, column⟩ := JoinTree.mem_leafVariables.mp held'
  obtain ⟨rfl, rfl⟩ := JoinTree.leaf_of_column apart present present' column
  rw [node] at node'
  cases node'
  rfl

variable (apart : (leaves.map (·.1.aliasName)).Nodup)
  (drawn : ∀ entry ∈ held, entry ∈ leaves.flatMap JoinTree.leafVariables)

theorem reads_column {n : NodePattern} {column : Column} :
    Reads held n (.column column) ↔ ∃ v, n = .variable v ∧ (v.name, column) ∈ held := by
  constructor
  · intro reads
    cases reads with
    | column at_ => exact ⟨_, rfl, at_⟩
  · rintro ⟨v, rfl, at_⟩
    exact .column at_

theorem reads_value {n : NodePattern} {text : String} :
    Reads held n (.value text) ↔ ∃ m, n = .node m ∧ text = m.display := by
  constructor
  · intro reads
    cases reads with
    | value => exact ⟨_, rfl, rfl⟩
  · rintro ⟨m, rfl, rfl⟩
    exact .value

include apart drawn in
theorem Reads.folded {n m : NodePattern} {o p : Operand} (one : Reads held n o)
    (two : Reads held m p) (same : o.folded = p.folded) : n.folded = m.folded := by
  cases o with
  | column column =>
    cases Operand.eq_of_folded_column same.symm
    obtain ⟨⟨name, valid⟩, rfl, first⟩ := reads_column.mp one
    obtain ⟨⟨name', valid'⟩, rfl, second⟩ := reads_column.mp two
    cases name_of_column apart (drawn _ first) (drawn _ second)
    rfl
  | value text =>
    cases p with
    | column column => cases same
    | value text' =>
      obtain ⟨n, rfl, rfl⟩ := reads_value.mp one
      obtain ⟨m, rfl, rfl⟩ := reads_value.mp two
      simp only [Operand.folded, foldText_display, Operand.value.injEq] at same
      simp only [NodePattern.folded, Node.eq_of_display same]

theorem Reads.unique {n : NodePattern} {o p : Operand} (one : Reads held n o)
    (two : Reads held n p) (same : o.folded = p.folded) : o = p := by
  cases one with
  | column at_ => exact (Operand.eq_of_folded_column same.symm).symm
  | value =>
    cases two with
    | value => rfl

theorem Expresses.unique {f : Filter} (one : Expresses held f c) (two : Expresses held f d)
    (same : c.folded = d.folded) : c = d := by
  obtain ⟨left, operator, right⟩ := Condition.mk.inj same
  have lefts := one.left.unique two.left left
  have rights := one.right.unique two.right right
  cases c
  cases d
  simp_all

-- A filter says nothing of the column of a constant.
include apart drawn in
theorem Expresses.folded_ne {f : Filter} {leaf : Relation × TriplePattern} {side : Side} {n : Node}
    (expressed : Expresses held f c) (present : leaf ∈ leaves)
    (node : JoinTree.nodeAt leaf side = .node n) :
    c.folded ≠ (fixed (leaf.1.column side) n).folded := by
  intro same
  have left : c.left = .column (leaf.1.column side) :=
    Operand.eq_of_folded_column (Condition.mk.inj same).1
  have reads := expressed.left
  rw [left] at reads
  obtain ⟨v, -, read⟩ := reads_column.mp reads
  exact JoinTree.unread_of_constant apart present node _ (drawn _ read)

include apart drawn in
theorem Expresses.same {f g : Filter} (one : Expresses held f c) (two : Expresses held g d)
    (same : c.folded = d.folded) : f.Same g := by
  obtain ⟨left, operator, right⟩ := Condition.mk.inj same
  have lefts := one.left.folded apart drawn two.left left
  have rights := one.right.folded apart drawn two.right right
  have operators := one.operator.symm.trans (operator.trans two.operator)
  obtain ⟨sides, name, trimmed⟩ := f
  obtain ⟨sides', name', trimmed'⟩ := g
  simp only at operators
  subst operators
  simp only [Filter.Same, Filter.folded, Filter.mk.injEq, and_true]
  simp only [Filter.left, Filter.right] at lefts rights
  cases sides <;> cases sides' <;>
    simp_all [FilterSides.left, FilterSides.right, FilterSides.folded, NodePattern.folded]

include apart drawn in
theorem toldApart_of_justified {filters : Filter → Prop}
    (single : ∀ f g, filters f → filters g → f.Same g → f = g)
    (sound : ∀ c, has c → Justified held leaves filters c) : ToldApart has := by
  intro one two first second same
  have why := sound two second
  cases sound one first with
  | same => exact (eq_linked same.symm).symm
  | constant present node =>
    rename_i leaf side n
    generalize two = other at same why
    cases why with
    | same => exact eq_linked same
    | constant present' node' =>
      have column : leaf.1.column side = _ := Operand.column.inj (Condition.mk.inj same).1
      obtain ⟨rfl, rfl⟩ := JoinTree.leaf_of_column apart present present' column
      rw [node] at node'
      cases node'
      rfl
    | filter member expressed =>
      exact absurd same.symm (expressed.folded_ne apart drawn present node)
  | filter member expressed =>
    cases why with
    | same => exact eq_linked same
    | constant present node => exact absurd same (expressed.folded_ne apart drawn present node)
    | filter member' expressed' =>
      cases single _ _ member member' (expressed.same apart drawn expressed' same)
      exact expressed.unique expressed' same

end conditions

theorem GraphPattern.eq_of_same (p : GraphPattern) {f g : Filter} (first : f ∈ p.filters)
    (second : g ∈ p.filters) (same : f.Same g) : f = g := by
  have folded : (p.filters.map Filter.folded).Nodup := List.pairwise_map.mpr p.apart
  exact List.inj_on_of_nodup_map folded first second same

theorem GraphPattern.toldApart (p : GraphPattern) {bindings : Bindings}
    {before own : List (Relation × TriplePattern)}
    (drawn : ∀ entry ∈ bindings, entry ∈ before.flatMap JoinTree.leafVariables)
    (apart : ((before ++ own).map (·.1.aliasName)).Nodup)
    (sound : ∀ c, has c →
      Justified (bindings ++ own.flatMap JoinTree.leafVariables) own (· ∈ p.filters) c) :
    ToldApart has := by
  have held : ∀ entry ∈ bindings ++ own.flatMap JoinTree.leafVariables,
      entry ∈ (before ++ own).flatMap JoinTree.leafVariables := by
    intro entry member
    rw [List.flatMap_append]
    rcases List.mem_append.mp member with old | new
    · exact List.mem_append_left _ (drawn entry old)
    · exact List.mem_append_right _ new
  refine toldApart_of_justified apart held (fun f g => p.eq_of_same) fun c own => ?_
  exact (sound c own).mono (fun _ => id) (fun _ => List.mem_append_right _) fun _ => id

theorem PatternRun.toldApart {s next : PlanState} {bindings bound : Bindings}
    {pattern : GraphPattern} {tree : JoinTree} {before : List (Relation × TriplePattern)}
    (run : PatternRun s bindings pattern (some tree) next bound) (tidy : s.Tidy)
    (waiting : ∀ aliasName c, s.Waits aliasName c → aliasName ∈ before.map (·.1.aliasName))
    (drawn : ∀ entry ∈ bindings, entry ∈ before.flatMap JoinTree.leafVariables)
    (apart : (before.map (·.1.aliasName) ++ tree.aliases).Nodup) :
    ToldApart fun c =>
      c ∈ tree.conditions ∨ ∃ aliasName ∈ tree.aliases, next.Waits aliasName c := by
  obtain ⟨left, -, founded, -⟩ := run.founded tidy
  have fresh : ((before ++ tree.leaves).map (·.1.aliasName)).Nodup := by
    rw [List.map_append]
    exact apart
  refine pattern.toldApart drawn fresh fun c own => ?_
  rcases founded.sound c own with ⟨aliasName, taken, waits⟩ | justified
  · have old := waiting aliasName c waits
    exact absurd rfl ((List.nodup_append.mp apart).2.2 _ old _ taken)
  · exact justified

namespace Plan

variable {tables : TableMap} {done required elements : List Element} {base p full : Progress}
  {pattern : GraphPattern} {s : PlanState} {bound : Bindings} {tree : JoinTree}

structure Telling (p : Progress) : Prop where
  tree : ∀ t, p.tree = some t → t.ToldApart
  waiting : ∀ aliasName, ToldApart (p.state.Waits aliasName)

theorem telling_start (tables : TableMap) : Telling (.start tables) where
  tree := by simp [Progress.start]
  waiting := by
    rintro aliasName one two ⟨entry, member, -⟩
    cases member

theorem Telling.require (telling : Telling p) (known : Required tables done p)
    (run : PatternRun p.state p.required pattern (some tree) s bound)
    (apart : (p.aliases ++ tree.aliases).Nodup) : Telling (p.require (some tree) s bound) := by
  obtain ⟨left, -, founded, -⟩ := run.founded known.tidy
  have told := run.toldApart known.tidy known.waiting known.drawn apart
  have own : tree.ToldApart := JoinTree.toldApart_of_conditions (told.mono fun _ => .inl)
  constructor
  · intro whole same
    cases old : p.tree with
    | none =>
      simp only [Progress.require, old, Option.some.injEq] at same
      exact same ▸ own
    | some t =>
      simp only [Progress.require, old, Option.some.injEq] at same
      refine same ▸ ⟨telling.tree t old, own, toldApart_links fun c member => ?_⟩
      rw [mem_distinct] at member
      obtain ⟨_, one, two, _, _, _, link⟩ := JoinTree.mem_links.mp member
      exact ⟨one, two, link⟩
  · intro aliasName
    by_cases taken : aliasName ∈ tree.aliases
    · exact told.mono fun c waits => .inr ⟨aliasName, taken, waits⟩
    · exact (telling.waiting aliasName).mono fun c => (founded.frame aliasName taken c).mp

theorem telling_required (run : (addEach addRequired (.start tables) elements).outcome = .ok p)
    (apart : p.aliases.Nodup) : Telling p := by
  refine required_induction (fun _ => Telling) (telling_start tables) ?_ ?_ run apart
  · intro done p pattern known telling _
    exact telling
  · intro done p pattern tree s bound known telling run apart
    exact telling.require known run apart

theorem Branched.toldApart {before : List Element} {b : Branch}
    (branched : Branched tables base before b) (known : Required tables required base)
    (apart : ((base.leaves ++ b.leaves).map (·.1.aliasName)).Nodup) :
    ToldApart (· ∈ b.conditions) :=
  b.pattern.toldApart known.drawn apart branched.sound

theorem telling_planned (first : (addEach addRequired (.start tables) required).outcome = .ok base)
    (later : (addEach addOptional base.turn elements).outcome = .ok full)
    (apart : full.aliases.Nodup) : Telling full := by
  have known := required_run first
  obtain ⟨bs, -, allowed⟩ := allowed_run known later apart
  unfold Progress.aliases at apart
  rw [allowed.leaves] at apart
  have telling := telling_required first
    (apart.sublist (List.Sublist.map _ (List.sublist_append_left _ _)))
  constructor
  · intro whole same
    rw [allowed.tree] at same
    obtain ⟨t, held, rfl⟩ := Option.map_eq_some_iff.mp same
    refine JoinTree.toldApart_branches (telling.tree t held) fun b member => ?_
    obtain ⟨earlier, after, split⟩ := List.append_of_mem member
    refine (allowed.branched earlier b after split).toldApart known (apart.sublist ?_)
    rw [held, split]
    refine List.Sublist.map _ (List.Sublist.append_left ?_ _)
    rw [Option.isSome_some, if_pos rfl, List.flatMap_append, List.flatMap_cons]
    exact (List.sublist_append_left _ _).trans (List.sublist_append_right _ _)
  · intro aliasName
    exact (telling.waiting aliasName).mono fun c => (allowed.waits aliasName c).mp

end Plan

end GraphSql
