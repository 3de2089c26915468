import GraphSql.Proofs.Planning.Required

namespace GraphSql
open Sql

-- What planning the optional elements of a query ends with.

structure Branch where
  pattern : GraphPattern
  joined : Option (JoinTree × List Condition)

namespace Branch

def leaves (b : Branch) : List (Relation × TriplePattern) :=
  (b.joined.map (·.1.leaves)).getD []

def held (b : Branch) : Bindings := b.leaves.flatMap JoinTree.leafVariables

def conditions (b : Branch) : List Condition :=
  (b.joined.map fun member => member.1.conditions ++ member.2).getD []

def element (b : Branch) : Element := .pattern b.pattern

end Branch

namespace Sql.JoinTree

def branch (t : JoinTree) (b : Branch) : JoinTree :=
  match b.joined with
  | none => t
  | some (member, on) => .join t .left member on

def branches (t : JoinTree) (bs : List Branch) : JoinTree := bs.foldl branch t

theorem branches_concat (t : JoinTree) (bs : List Branch) (b : Branch) :
    t.branches (bs ++ [b]) = (t.branches bs).branch b := by
  simp [branches]

@[simp] theorem leaves_branch (t : JoinTree) (b : Branch) :
    (t.branch b).leaves = t.leaves ++ b.leaves := by
  unfold branch Branch.leaves
  cases b.joined with
  | none => simp
  | some joined => rfl

@[simp] theorem leaves_branches (t : JoinTree) (bs : List Branch) :
    (t.branches bs).leaves = t.leaves ++ bs.flatMap Branch.leaves := by
  unfold branches
  induction bs generalizing t with
  | nil => simp
  | cons b rest ih => simp [ih]

end Sql.JoinTree

namespace Plan

theorem Progress.aliases_allow {p : Progress} {init member : JoinTree} {s : PlanState}
    {bound : Bindings} (held : p.tree = some init) :
    (p.allow init (some member) s bound).aliases = p.aliases ++ member.aliases := by
  simp [Progress.allow, Progress.aliases, Progress.leaves, held, JoinTree.aliases]

-- What is known of a branch: `base` is where the required elements end, and `before` are the
-- elements planned before it.
structure Branched (tables : TableMap) (base : Progress) (before : List Element) (b : Branch) :
    Prop extends Pinned (addBindings base.required b.held) b.leaves (· ∈ b.conditions) where
  inner : ∀ member on, b.joined = some (member, on) → member.IsInner
  own : (b.leaves.map (·.2.folded)).Perm (ownTriples before b.pattern)
  among : ∀ leaf ∈ b.leaves, leaf.2 ∈ b.pattern.triples
  named : ∀ leaf ∈ b.leaves, Growth.Named tables leaf
  sound : ∀ c ∈ b.conditions, Justified (base.required ++ b.held) b.leaves (· ∈ b.pattern.filters) c
  filtered : b.leaves ≠ [] → ∀ f ∈ b.pattern.filters,
    (f.vars.length = 2 → 2 ≤ b.leaves.length) →
    ∃ c ∈ b.conditions, Expresses (base.required ++ b.held) f c

structure Allowed (tables : TableMap) (required : List Element) (base : Progress)
    (bs : List Branch) (p : Progress) : Prop
    extends Outline tables (required ++ bs.map Branch.element) p where
  required_eq : p.required = base.required
  tree : p.tree = base.tree.map (·.branches bs)
  all : ∀ name, p.all.lookup name =
    (base.required.lookup name).or ((bs.flatMap Branch.held).lookup name)
  waits : ∀ aliasName c, p.state.Waits aliasName c ↔ base.state.Waits aliasName c
  branched : ∀ earlier b later, bs = earlier ++ b :: later →
    Branched tables base (required ++ earlier.map Branch.element) b

variable {tables : TableMap} {required : List Element} {base p next : Progress} {bs : List Branch}
  {pattern : GraphPattern} {bound : Bindings} {s : PlanState} {init member : JoinTree}

theorem allowed_start (known : Required tables required base) :
    Allowed tables required base [] base.turn where
  toOutline := by
    rw [List.map_nil, List.append_nil]
    exact known.toOutline.turn
  required_eq := rfl
  tree := by
    cases tree : base.tree <;> simp [Progress.turn, tree, JoinTree.branches]
  all := by simp [Progress.turn]
  waits := fun _ _ => Iff.rfl
  branched := by simp

theorem Allowed.redundant (allowed : Allowed tables required base bs p) (held : p.tree = some init)
    (run : PatternRun p.state p.required pattern none s bound) :
    Allowed tables required base (bs ++ [⟨pattern, none⟩]) (p.allow init none s bound) := by
  have empty := allowed.toOutline.ownTriples_nil run
  have outline := allowed.toOutline.allow held run
  cases run with
  | redundant known =>
    refine ⟨?_, allowed.required_eq, ?_, ?_, allowed.waits, ?_⟩
    · rw [List.map_append, ← List.append_assoc]
      exact outline
    · rw [show (p.allow init none p.state p.required).tree = p.tree from rfl, allowed.tree]
      simp [JoinTree.branches_concat, JoinTree.branch]
    · intro name
      simp [Branch.held, Branch.leaves, Progress.allow, allowed.all]
    · refine splits_concat allowed.branched ⟨⟨?_, ?_⟩, ?_, ?_, ?_, ?_, ?_, ?_⟩
      · simp [Branch.leaves]
      · simp [Branch.leaves]
      · simp
      · simp [Branch.leaves, empty]
      all_goals simp [Branch.leaves, Branch.conditions]

theorem Allowed.leaves (allowed : Allowed tables required base bs p) :
    p.leaves = base.leaves ++ if base.tree.isSome then bs.flatMap Branch.leaves else [] := by
  unfold Progress.leaves
  rw [allowed.tree]
  cases base.tree <;> simp

theorem Allowed.waiting (allowed : Allowed tables required base bs p)
    (known : Required tables required base) {aliasName : String} {c : Condition}
    (waits : p.state.Waits aliasName c) : aliasName ∈ p.aliases := by
  have member := known.waiting aliasName c ((allowed.waits aliasName c).mp waits)
  obtain ⟨leaf, present, same⟩ := List.mem_map.mp member
  refine List.mem_map.mpr ⟨leaf, ?_, same⟩
  rw [allowed.leaves]
  exact List.mem_append_left _ present

theorem Allowed.drawn (allowed : Allowed tables required base bs p)
    (known : Required tables required base) : ∀ entry ∈ p.required, entry ∈ p.held := by
  intro entry member
  have old := known.drawn entry (allowed.required_eq ▸ member)
  rw [Progress.held, allowed.leaves, List.flatMap_append]
  exact List.mem_append_left _ old

section joined

def branchOf (pattern : GraphPattern) (init member : JoinTree) (bindings : Bindings)
    (s : PlanState) : Branch :=
  ⟨pattern, some (member, distinct (init.links member bindings ++ (takeAll s member.aliases).1))⟩

theorem tree_allow (tree : p.tree = base.tree.map (·.branches bs)) (held : p.tree = some init) :
    (p.allow init (some member) s bound).tree =
      base.tree.map (·.branches (bs ++ [branchOf pattern init member p.required s])) := by
  cases start : base.tree with
  | none => simp [held, start] at tree
  | some t =>
    rw [held, start, Option.map_some, Option.some.injEq] at tree
    simp [Progress.allow, JoinTree.branches_concat, ← tree, JoinTree.branch, branchOf,
      JoinTree.add]

variable {left : List Filter}
  (founded : Growth.Founded p.state p.required pattern.filters ⟨s, bound, member, left⟩)

include founded in
theorem mem_conditions_branchOf (c : Condition) :
    c ∈ (branchOf pattern init member p.required s).conditions ↔
      Growth.Own ⟨s, bound, member, left⟩ c ∨ c ∈ init.links member p.required := by
  simp only [branchOf, Branch.conditions, Option.map_some, Option.getD_some, List.mem_append,
    mem_distinct, PlanState.mem_takeAll founded.tidy, Growth.Own]
  constructor
  · intro present
    rcases present with inside | link | waiting
    · exact .inl (.inl inside)
    · exact .inr link
    · exact .inl (.inr waiting)
  · intro present
    rcases present with (inside | waiting) | link
    · exact .inl inside
    · exact .inr (.inr waiting)
    · exact .inr (.inl link)

variable (known : Required tables required base) (allowed : Allowed tables required base bs p)
  (grown : Growth.GrownFrom p.state p.required pattern.triples ⟨s, bound, member, left⟩)
  (held : p.tree = some init) (apart : (p.aliases ++ member.aliases).Nodup)

include founded known allowed apart in
theorem Allowed.sound_branchOf (c : Condition)
    (present : c ∈ (branchOf pattern init member p.required s).conditions) :
    Justified (base.required ++ member.held) member.leaves (· ∈ pattern.filters) c := by
  rw [← allowed.required_eq]
  rcases (mem_conditions_branchOf founded c).mp present with own | link
  · rcases founded.sound c own with ⟨aliasName, taken, waits⟩ | justified
    · have old := allowed.waiting known waits
      exact absurd rfl ((List.nodup_append.mp apart).2.2 _ old _ taken)
    · exact justified
  · obtain ⟨name, one, two, _, looked, new, rfl⟩ := JoinTree.mem_links.mp link
    exact .same (List.mem_append_left _ (mem_of_lookup looked)) (List.mem_append_right _ new)

include founded known allowed grown held in
theorem Allowed.equated_branchOf (leaf : Relation × TriplePattern) (present : leaf ∈ member.leaves)
    (side : Side) (v : Variable) (node : JoinTree.nodeAt leaf side = .variable v) :
    ∃ primary, (addBindings base.required member.held).lookup v.name = some primary ∧
      (primary = leaf.1.column side ∨ linked primary (leaf.1.column side) ∈
        (branchOf pattern init member p.required s).conditions) := by
  obtain ⟨primary, looked, why⟩ := founded.equated leaf present side v node
  rw [show bound = _ from grown.bound, allowed.required_eq] at looked
  refine ⟨primary, looked, ?_⟩
  rw [mem_conditions_branchOf founded]
  rcases why with before | same | own
  · have own : (v.name, leaf.1.column side) ∈ member.held :=
      List.mem_flatMap.mpr
        ⟨leaf, present, JoinTree.mem_leafVariables.mpr ⟨side, v, node, rfl, rfl⟩⟩
    have first : (v.name, primary) ∈ init.held := by
      have drawn := allowed.drawn known _ (mem_of_lookup before)
      simpa [Progress.held, Progress.leaves, held, JoinTree.held] using drawn
    exact .inr (.inr (JoinTree.mem_links.mpr ⟨v.name, primary, _, first, before, own, rfl⟩))
  · exact .inl same
  · exact .inr (.inl own)

end joined

theorem Allowed.branched_branchOf (allowed : Allowed tables required base bs p)
    (known : Required tables required base) (held : p.tree = some init)
    (run : PatternRun p.state p.required pattern (some member) s bound)
    (apart : (p.aliases ++ member.aliases).Nodup) :
    Branched tables base (required ++ bs.map Branch.element)
      (branchOf pattern init member p.required s) := by
  obtain ⟨left, grown, founded, pairs, long⟩ := run.founded allowed.tidy
  refine ⟨⟨?_, allowed.equated_branchOf founded known grown held⟩, ?_,
    allowed.toOutline.own_leaves run, grown.among, ?_,
    allowed.sound_branchOf founded known apart, ?_⟩
  · intro leaf present side n node
    exact (mem_conditions_branchOf founded _).mpr
      (.inl (founded.constants leaf present side n node))
  · intro other on same
    cases same
    exact grown.inner
  · intro leaf present
    exact allowed.same ▸ grown.named leaf present
  · intro _ f used pair
    rcases founded.filtered f used with spare | ⟨c, own, expressed⟩
    · rw [long (pair (pairs f spare))] at spare
      cases spare
    · refine ⟨c, (mem_conditions_branchOf founded c).mpr (.inl own), ?_⟩
      rw [← allowed.required_eq]
      exact expressed

theorem Allowed.extend (allowed : Allowed tables required base bs p)
    (known : Required tables required base) (held : p.tree = some init)
    (run : PatternRun p.state p.required pattern (some member) s bound)
    (apart : (p.aliases ++ member.aliases).Nodup) :
    Allowed tables required base (bs ++ [branchOf pattern init member p.required s])
      (p.allow init (some member) s bound) := by
  obtain ⟨left, grown, founded, -⟩ := run.founded allowed.tidy
  refine ⟨?_, allowed.required_eq, ?_, ?_, ?_,
    splits_concat allowed.branched (allowed.branched_branchOf known held run apart)⟩
  · rw [List.map_append, ← List.append_assoc]
    exact allowed.toOutline.allow held run
  · exact tree_allow allowed.tree held
  · intro name
    have looked : (addBindings p.all bound).lookup name =
        (p.all.lookup name).or ((base.required.lookup name).or (member.held.lookup name)) := by
      rw [lookup_addBindings, show bound = _ from grown.bound, lookup_addBindings,
        allowed.required_eq]
    rw [show (p.allow init (some member) s bound).all = addBindings p.all bound from rfl, looked,
      allowed.all, List.flatMap_append, List.lookup_append]
    have last : [branchOf pattern init member p.required s].flatMap Branch.held = member.held := by
      simp [branchOf, Branch.held, Branch.leaves, JoinTree.held]
    rw [last]
    cases base.required.lookup name <;> simp
  · intro aliasName c
    rw [show (p.allow init (some member) s bound).state = (takeAll s member.aliases).2 from rfl,
      PlanState.waits_takeAll, ← allowed.waits]
    constructor
    · intro both
      exact (founded.frame aliasName both.1 c).mp both.2
    · intro waits
      have other : aliasName ∉ member.aliases := by
        intro taken
        exact (List.nodup_append.mp apart).2.2 _ (allowed.waiting known waits) _ taken rfl
      exact ⟨other, (founded.frame aliasName other c).mpr waits⟩

-- What holds where the optional elements start and is kept by each of them holds in the end, if no
-- two tables have one alias.
theorem allowed_induction (holds : List Branch → Progress → Prop) {elements : List Element}
    (known : Required tables required base) (start : holds [] base.turn)
    (redundant : ∀ bs p init pattern s bound, Allowed tables required base bs p → holds bs p →
      p.tree = some init → PatternRun p.state p.required pattern none s bound →
      holds (bs ++ [⟨pattern, none⟩]) (p.allow init none s bound))
    (extend : ∀ bs p init member pattern s bound, Allowed tables required base bs p → holds bs p →
      p.tree = some init → PatternRun p.state p.required pattern (some member) s bound →
      (p.aliases ++ member.aliases).Nodup →
      holds (bs ++ [branchOf pattern init member p.required s])
        (p.allow init (some member) s bound))
    (run : (addEach addOptional base.turn elements).outcome = .ok p) (apart : p.aliases.Nodup) :
    ∃ bs, elements = bs.map Branch.element ∧ Allowed tables required base bs p ∧ holds bs p := by
  have kept : ∀ done p element next,
      (p.aliases.Nodup → ∃ bs, done = bs.map Branch.element ∧
        Allowed tables required base bs p ∧ holds bs p) →
      (addOptional p element).outcome = .ok next →
      next.aliases.Nodup → ∃ bs, done ++ [element] = bs.map Branch.element ∧
        Allowed tables required base bs next ∧ holds bs next := by
    intro done p element next before added apart
    obtain ⟨pattern, init, found, s, bound, rfl, held, run, rfl⟩ := addOptional_exact.mp added
    cases found with
    | none =>
      obtain ⟨bs, rfl, allowed, holding⟩ := before apart
      exact ⟨_, by simp [Branch.element], allowed.redundant held run,
        redundant _ _ _ _ _ _ allowed holding held run⟩
    | some member =>
      rw [Progress.aliases_allow held] at apart
      obtain ⟨bs, rfl, allowed, holding⟩ := before (List.nodup_append.mp apart).1
      exact ⟨_, by simp [Branch.element, branchOf], allowed.extend known held run apart,
        extend _ _ _ _ _ _ _ allowed holding held run apart⟩
  exact addEach_keeps kept (fun _ => ⟨[], rfl, allowed_start known, start⟩) run apart

theorem allowed_run {elements : List Element} (known : Required tables required base)
    (run : (addEach addOptional base.turn elements).outcome = .ok p) (apart : p.aliases.Nodup) :
    ∃ bs, elements = bs.map Branch.element ∧ Allowed tables required base bs p := by
  obtain ⟨bs, same, allowed, -⟩ := allowed_induction (fun _ _ => True) known trivial
    (fun _ _ _ _ _ _ _ _ _ _ => trivial) (fun _ _ _ _ _ _ _ _ _ _ _ _ => trivial) run apart
  exact ⟨bs, same, allowed⟩

theorem allowed_preserves (holds : Progress → Prop) {elements : List Element}
    (known : Required tables required base) (start : holds base.turn)
    (extend : ∀ bs p init member pattern s bound, Allowed tables required base bs p → holds p →
      p.tree = some init → PatternRun p.state p.required pattern (some member) s bound →
      (p.aliases ++ member.aliases).Nodup → holds (p.allow init (some member) s bound))
    (run : (addEach addOptional base.turn elements).outcome = .ok p) (apart : p.aliases.Nodup) :
    holds p := by
  have redundant : ∀ (bs : List Branch) p init pattern s bound,
      Allowed tables required base bs p → holds p → p.tree = some init →
      PatternRun p.state p.required pattern none s bound → holds (p.allow init none s bound) := by
    intro bs p init pattern s bound _ holding _ run
    cases run with
    | redundant => exact holding
  obtain ⟨bs, -, -, holding⟩ :=
    allowed_induction (fun _ => holds) known start redundant extend run apart
  exact holding

end Plan

end GraphSql
