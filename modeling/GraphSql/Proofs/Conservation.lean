import GraphSql.Proofs.Planning.Placement
import GraphSql.Proofs.Planning.Residual

namespace GraphSql
open Sql

-- Every triple of a query has one table, and every constant one condition: in WHERE, in the ON
-- clause of a left join, or in that of the join that adds its table.

def Query.triples (q : Query) : List TriplePattern :=
  (q.required ++ q.optional).flatMap Element.triples

structure Conserved (tables : TableMap) (query : Query) (statement : Select) (core : JoinTree)
    (bs : List Branch) : Prop where
  divided : Divided query statement.source core bs
  declared : (statement.source.leaves.map (·.2)).Perm (firsts query.triples)
  named : ∀ leaf ∈ statement.source.leaves, Growth.Named tables leaf
  once : ∀ leaf ∈ statement.source.leaves, ∀ c ∈ JoinTree.leafConstants leaf,
    (statement.source.conditions ++ statement.conditions).count c = 1
  required : ∀ leaf ∈ statement.source.leaves, Seeds query.required leaf.2 →
    ∀ c ∈ JoinTree.leafConstants leaf, c ∈ statement.conditions
  optional : ∀ earlier b later, bs = earlier ++ b :: later → ∀ leaf ∈ statement.source.leaves,
    IsSeed (query.required ++ earlier.map Branch.element) b.pattern leaf.2 →
    ∃ member on, b.joined = some (member, on) ∧ leaf ∈ member.leaves ∧
      ∀ c ∈ JoinTree.leafConstants leaf, c ∈ on
  joined : ∀ leaf ∈ statement.source.leaves, ¬ Seeds (query.required ++ query.optional) leaf.2 →
    statement.source.Introduces leaf

namespace Sql.JoinTree

variable {t member : JoinTree} {leaf : Relation × TriplePattern} {bs : List Branch} {b : Branch}
  {on : List Condition}

theorem Introduces.branches (introduced : t.Introduces leaf) (bs : List Branch) :
    (t.branches bs).Introduces leaf := by
  unfold JoinTree.branches
  induction bs generalizing t with
  | nil => exact introduced
  | cons b rest ih =>
    apply ih
    unfold branch
    cases b.joined with
    | none => exact introduced
    | some joined => exact introduced.inInit _ _

theorem introduces_branches (present : b ∈ bs) (joined : b.joined = some (member, on))
    (introduced : member.Introduces leaf) : (t.branches bs).Introduces leaf := by
  obtain ⟨earlier, later, rfl⟩ := List.append_of_mem present
  have here : ((t.branches earlier).branch b).Introduces leaf := by
    unfold branch
    rw [joined]
    exact introduced.inLast _ _
  have split : t.branches (earlier ++ b :: later) =
      ((t.branches earlier).branch b).branches later := by
    simp [JoinTree.branches]
  rw [split]
  exact here.branches later

end Sql.JoinTree

namespace Plan

variable {tables : TableMap} {required : List Element} {base p : Progress} {bs : List Branch}

theorem Allowed.operands (allowed : Allowed tables required base bs p) :
    Operands tables required base bs p where
  toOutline := allowed.toOutline
  tree := allowed.tree
  operand := by
    intro earlier b later split
    have branched := allowed.branched earlier b later split
    exact ⟨branched.own, branched.among, branched.inner⟩

theorem Outline.eq_of_same {done : List Element} (outline : Outline tables done p)
    {one two : Relation × TriplePattern} (first : one ∈ p.leaves) (second : two ∈ p.leaves)
    (same : one.2.Same two.2) : one = two := by
  have apart : (p.leaves.map (·.2.folded)).Nodup := outline.planned ▸ outline.apart
  exact List.inj_on_of_nodup_map apart first second same

theorem Outline.exists_leaf_of_occurs {done : List Element} (outline : Outline tables done p)
    {t : TriplePattern} (occurs : Occurs done t) : ∃ leaf ∈ p.leaves, leaf.2.Same t := by
  have known := (outline.occurs_iff t).mp occurs
  rw [outline.planned] at known
  obtain ⟨leaf, present, same⟩ := List.mem_map.mp known
  exact ⟨leaf, present, same⟩

theorem declared_of_leads {done : List Element} (outline : Outline tables done p)
    (leads : ∀ leaf ∈ p.leaves, Leads (done.flatMap Element.triples) leaf.2) :
    (p.leaves.map (·.2)).Perm (firsts (done.flatMap Element.triples)) := by
  have apart : (p.leaves.map (·.2)).Nodup := by
    refine List.Nodup.of_map TriplePattern.folded ?_
    rw [List.map_map]
    exact outline.planned ▸ outline.apart
  have leaders := List.Nodup.of_map TriplePattern.folded
    (nodup_firsts (done.flatMap Element.triples))
  refine (List.perm_ext_iff_of_nodup apart leaders).mpr fun t => ?_
  rw [mem_firsts]
  constructor
  · intro member
    obtain ⟨leaf, present, rfl⟩ := List.mem_map.mp member
    exact leads leaf present
  · intro leader
    obtain ⟨e, planned, used⟩ := List.mem_flatMap.mp leader.mem
    obtain ⟨leaf, present, same⟩ := outline.exists_leaf_of_occurs ⟨e, planned, t, used, rfl⟩
    exact List.mem_map.mpr ⟨leaf, present, (leads leaf present).eq_of_same leader same⟩

section stations

variable (known : Required tables required base) (allowed : Allowed tables required base bs p)
  (stationed : Stationed required base)
  (manned : ∀ earlier b later, bs = earlier ++ b :: later →
    Manned (required ++ earlier.map Branch.element) b)
  {source core : JoinTree} (whole : p.tree = some source) (first : base.tree = some core)

include stationed manned allowed in
theorem leads_planned (leaf : Relation × TriplePattern) (present : leaf ∈ p.leaves) :
    Leads ((required ++ bs.map Branch.element).flatMap Element.triples) leaf.2 := by
  rw [allowed.leaves] at present
  rcases List.mem_append.mp present with old | new
  · rw [List.flatMap_append]
    exact (stationed.leads leaf old).append_right
  · have among : leaf ∈ bs.flatMap Branch.leaves := by
      split at new
      next => exact new
      next => cases new
    obtain ⟨b, member, inside⟩ := List.mem_flatMap.mp among
    obtain ⟨earlier, later, rfl⟩ := List.append_of_mem member
    obtain ⟨leads, fresh⟩ := (manned earlier b later rfl).leads leaf inside
    have here : Leads ((required ++ earlier.map Branch.element ++ [b.element]).flatMap
        Element.triples ++ (later.map Branch.element).flatMap Element.triples) leaf.2 :=
      (leads_concat leads fresh).append_right
    simpa using here

include known allowed stationed in
theorem waits_of_seeds {leaf : Relation × TriplePattern} (present : leaf ∈ p.leaves)
    (seeds : Seeds required leaf.2) {c : Condition} (demanded : c ∈ JoinTree.leafConstants leaf) :
    p.state.Waits leaf.1.aliasName c := by
  obtain ⟨other, early, same⟩ := known.toOutline.exists_leaf_of_occurs seeds.occurs
  have late : other ∈ p.leaves := by
    rw [allowed.leaves]
    exact List.mem_append_left _ early
  cases allowed.toOutline.eq_of_same late present same
  exact (allowed.waits _ c).mpr (stationed.waits leaf early seeds c demanded)

include allowed manned first in
theorem held_of_isSeed {leaf : Relation × TriplePattern} (present : leaf ∈ p.leaves)
    {earlier later : List Branch} {b : Branch} (split : bs = earlier ++ b :: later)
    (seed : IsSeed (required ++ earlier.map Branch.element) b.pattern leaf.2) :
    ∃ member on, b.joined = some (member, on) ∧ leaf ∈ member.leaves ∧
      ∀ c ∈ JoinTree.leafConstants leaf, c ∈ on := by
  obtain ⟨front, back, triples, -, fresh⟩ := id seed
  have used : leaf.2 ∈ b.pattern.triples := by simp [triples]
  have operand := allowed.operands.operand earlier b later split
  obtain ⟨other, inside, same⟩ := (operand.backs_iff used).mpr fresh
  have late : other ∈ p.leaves := by
    rw [allowed.leaves, first, Option.isSome_some, if_pos rfl, split]
    simp [inside]
  cases allowed.toOutline.eq_of_same late present same
  cases joined : b.joined with
  | none => simp [Branch.leaves, joined] at inside
  | some pair =>
    obtain ⟨member, on⟩ := pair
    have among : leaf ∈ member.leaves := by simpa [Branch.leaves, joined] using inside
    exact ⟨member, on, rfl, among, (manned earlier b later split).held member on joined leaf among
      seed⟩

include allowed stationed manned whole first in
theorem introduces_of_not_seeds {leaf : Relation × TriplePattern} (present : leaf ∈ p.leaves)
    (joined : ¬ Seeds (required ++ bs.map Branch.element) leaf.2) : source.Introduces leaf := by
  have tree : source = core.branches bs := by
    have tree := allowed.tree
    rw [whole, first, Option.map_some, Option.some.injEq] at tree
    exact tree
  subst tree
  rw [allowed.leaves, first, Option.isSome_some, if_pos rfl] at present
  rcases List.mem_append.mp present with old | new
  · rcases stationed.joined leaf old with ⟨before, pattern, after, rfl, seed⟩ | ⟨tree, same, inside⟩
    · exact absurd ⟨before, pattern, after ++ bs.map Branch.element, by simp, seed⟩ joined
    · cases first.symm.trans same
      exact inside.branches bs
  · obtain ⟨b, member, inside⟩ := List.mem_flatMap.mp new
    obtain ⟨earlier, later, rfl⟩ := List.append_of_mem member
    cases held : b.joined with
    | none => simp [Branch.leaves, held] at inside
    | some pair =>
      obtain ⟨tree, on⟩ := pair
      have among : leaf ∈ tree.leaves := by simpa [Branch.leaves, held] using inside
      rcases (manned earlier b later rfl).joined tree on held leaf among with seed | introduced
      · exact absurd ⟨required ++ earlier.map Branch.element, b.pattern,
          later.map Branch.element, by simp [Branch.element], seed⟩ joined
      · exact JoinTree.introduces_branches member held introduced

end stations

theorem count_planned {leaf : Relation × TriplePattern} {c : Condition}
    (counted : Counted p) (apart : p.aliases.Nodup) (present : leaf ∈ p.leaves)
    (demanded : c ∈ JoinTree.leafConstants leaf) : p.total.count c = 1 := by
  obtain ⟨side, n, node, rfl⟩ := JoinTree.mem_leafConstants.mp demanded
  rw [counted apart _ n (JoinTree.unread_of_constant apart present node)]
  exact List.count_eq_one_of_mem (JoinTree.nodup_constants apart)
    (List.mem_flatMap.mpr ⟨leaf, present, demanded⟩)

end Plan

-- The tables of a statement are those of the triples of the query, each once, and the condition of
-- each constant is there once, in the clause that its triple's part in the query says.
theorem conserved_of_planned {tables : TableMap} {query : Query} {targets : List String}
    {order : Option (String × SortOrder)} {statement : Select}
    (planned : (Plan.ofQuery tables query targets order).outcome = .ok (.select statement))
    (apart : statement.source.aliases.Nodup) :
    ∃ core bs, Conserved tables query statement core bs := by
  obtain ⟨base, full, first, later, whole, -, -, conditions, -⟩ := Plan.ofQuery_select.mp planned
  have leaves : full.leaves = statement.source.leaves := by simp [Plan.Progress.leaves, whole]
  have aliases : full.aliases.Nodup := by
    rw [Plan.Progress.aliases, leaves]
    exact apart
  have known := Plan.required_run first
  obtain ⟨bs, optional, allowed, manned⟩ := Plan.manned_run known later aliases
  have earlier : base.aliases.Nodup := by
    rw [Plan.Progress.aliases, allowed.leaves, List.map_append] at aliases
    exact (List.nodup_append.mp aliases).1
  have stationed := Plan.stationed_required first earlier
  have counted := Plan.counted_run known (Plan.counted_required first) later aliases
  have total : full.total = statement.source.conditions ++ statement.conditions := by
    rw [Plan.Progress.total, ← Plan.conditions_planned first later conditions]
    simp [Plan.Progress.conditions, whole]
  cases core : base.tree with
  | none =>
    have tree := allowed.tree
    rw [whole, core] at tree
    cases tree
  | some core' =>
    refine ⟨core', bs, allowed.operands.divided known optional core whole, ?_, ?_, ?_, ?_, ?_, ?_⟩
    · rw [Query.triples, optional, ← leaves]
      exact Plan.declared_of_leads allowed.toOutline (Plan.leads_planned allowed stationed manned)
    · exact leaves ▸ allowed.named
    · intro leaf present c demanded
      rw [← total]
      exact Plan.count_planned counted aliases (leaves ▸ present) demanded
    · intro leaf present seeds c demanded
      exact (PlanState.mem_of_residual conditions c).mpr
        ⟨_, Plan.waits_of_seeds known allowed stationed (leaves ▸ present) seeds demanded⟩
    · intro before b after split leaf present seed
      exact Plan.held_of_isSeed allowed manned core (leaves ▸ present) split seed
    · intro leaf present unseeded
      rw [optional] at unseeded
      exact Plan.introduces_of_not_seeds allowed stationed manned whole core (leaves ▸ present)
        unseeded

-- The soup of a cafe with its price, and whether it is good and in the guide. Its name is given
-- twice with the language tag in different cases.
namespace Menu

def serves : Iri := ⟨"urn:serves", by decide +kernel⟩

def label : Iri := ⟨"urn:called", by decide +kernel⟩

def price : Iri := ⟨"urn:price", by decide +kernel⟩

def rated : Iri := ⟨"urn:rated", by decide +kernel⟩

def lists : Iri := ⟨"urn:lists", by decide +kernel⟩

def cafe : Node := .iri ⟨"urn:cafe", by decide +kernel⟩

def guide : Node := .iri ⟨"urn:guide", by decide +kernel⟩

def soup : Node := .tagged "Soup" ⟨"FR", by decide⟩

def tables : TableMap :=
  [(serves, "serves"), (label, "labels"), (rated, "rated"), (lists, "lists")]

def dish : Variable := ⟨"dish", by decide +kernel⟩

def cost : Variable := ⟨"cost", by decide +kernel⟩

def offer : TriplePattern := ⟨.node cafe, .iri serves, .variable dish⟩

def name : TriplePattern := ⟨.variable dish, .iri label, .node soup⟩

def again : TriplePattern :=
  ⟨.variable dish, .iri label, .node (.tagged "Soup" ⟨"fr", by decide⟩)⟩

def charge : TriplePattern := ⟨.variable dish, .iri price, .variable cost⟩

def praise : TriplePattern := ⟨.variable dish, .iri rated, .node (.plain "good")⟩

def entry : TriplePattern := ⟨.node guide, .iri lists, .variable dish⟩

def query : Query :=
  ⟨[.pattern ((GraphPattern.empty.addTriple offer).addTriple name),
      .pattern ((GraphPattern.empty.addTriple again).addTriple charge)],
    [.pattern ((GraphPattern.empty.addTriple praise).addTriple entry)]⟩

def statement : Select where
  columns := [⟨"serves", .object⟩, ⟨"np_0", .object⟩]
  source := .join
    (.join
      (.join (.table ⟨"serves", "serves"⟩ offer) .inner (.table ⟨"labels", "labels"⟩ name)
        [linked ⟨"serves", .object⟩ ⟨"labels", .subject⟩, fixed ⟨"labels", .object⟩ soup])
      .inner (.table ⟨emptyRelation, "np_0"⟩ charge)
      [linked ⟨"serves", .object⟩ ⟨"np_0", .subject⟩])
    .left
    (.join (.table ⟨"rated", "rated"⟩ praise) .inner (.table ⟨"lists", "lists"⟩ entry)
      [linked ⟨"serves", .object⟩ ⟨"lists", .object⟩, fixed ⟨"lists", .subject⟩ guide])
    [linked ⟨"serves", .object⟩ ⟨"rated", .subject⟩, linked ⟨"serves", .object⟩ ⟨"lists", .object⟩,
      fixed ⟨"rated", .object⟩ (.plain "good")]
  conditions := [fixed ⟨"serves", .subject⟩ cafe]
  order := none

theorem planned :
    (Plan.ofQuery tables query ["dish", "cost"] none).outcome = .ok (.select statement) := by
  decide +kernel

theorem apart : statement.source.aliases.Nodup := by decide +kernel

end Menu

theorem conserved_of_planned_menu :
    (Plan.ofQuery Menu.tables Menu.query ["dish", "cost"] none).outcome =
        .ok (.select Menu.statement) ∧
      Menu.statement.source.aliases.Nodup ∧
      ∃ core bs, Conserved Menu.tables Menu.query Menu.statement core bs :=
  ⟨Menu.planned, Menu.apart, conserved_of_planned Menu.planned Menu.apart⟩

end GraphSql
