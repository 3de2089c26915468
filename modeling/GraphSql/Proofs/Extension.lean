import GraphSql.Proofs.Operands
import GraphSql.Proofs.Planning.Outcome
import GraphSql.Proofs.Planning.Residual
import GraphSql.Proofs.Sql.Literals

namespace GraphSql
open Sql

-- Optional elements at the end of a query only add to its FROM clause. Each adds the operand of a
-- left join, or nothing; columns, conditions and order stay as they are.

namespace Plan

variable {tables : TableMap} {required elements : List Element} {base p next full : Progress}

-- What waits once the required elements are planned still waits in the end, in the same order.
theorem waiting_run (known : Required tables required base)
    (run : (addEach addOptional base.turn elements).outcome = .ok p) (apart : p.aliases.Nodup) :
    p.state.waiting = base.state.waiting := by
  refine allowed_preserves (fun p => p.state.waiting = base.state.waiting) known rfl ?_ run apart
  intro bs p init member pattern s bound allowed same held run apart
  rw [← same]
  refine run.waiting_takeAll fun aliasName c waits taken => ?_
  exact (List.nodup_append.mp apart).2.2 _ (allowed.waiting known waits) _ taken rfl

theorem bound_run (run : (addEach addOptional p elements).outcome = .ok next) (name : String)
    (column : Column) (held : p.all.lookup name = some column) :
    next.all.lookup name = some column := by
  have kept : ∀ p element next, p.all.lookup name = some column →
      (addOptional p element).outcome = .ok next → next.all.lookup name = some column := by
    intro p element next held added
    obtain ⟨pattern, init, found, s, bound, rfl, -, -, rfl⟩ := addOptional_exact.mp added
    cases found with
    | none => exact held
    | some member =>
      have grown := lookup_addBindings p.all bound name
      rwa [held, Option.some_or] at grown
  exact addEach_preserves kept held run

theorem columnOf_run (run : (addEach addOptional p elements).outcome = .ok next) {name : String}
    {column : Column} (found : columnOf p.all name = .ok column) :
    columnOf next.all name = .ok column := by
  unfold columnOf at found ⊢
  cases held : p.all.lookup name with
  | none => simp [held] at found
  | some other =>
    simp only [held, Except.ok.injEq] at found
    rw [bound_run run name other held, found]

theorem columns_run (run : (addEach addOptional p elements).outcome = .ok next)
    {targets : List String} {columns : List Column}
    (mapped : targets.mapM (columnOf p.all) = .ok columns) :
    targets.mapM (columnOf next.all) = .ok columns := by
  induction targets generalizing columns with
  | nil => exact mapped
  | cons target rest ih =>
    rw [List.mapM_cons] at mapped ⊢
    cases first : columnOf p.all target with
    | error e => simp [first] at mapped
    | ok column =>
      cases later : rest.mapM (columnOf p.all) with
      | error e => simp [first, later] at mapped
      | ok others =>
        rw [first, later] at mapped
        rw [columnOf_run run first, ih later]
        exact mapped

theorem orderOf_run (run : (addEach addOptional p elements).outcome = .ok next)
    {order : Option (String × SortOrder)} {ordered : Option (Column × SortOrder)}
    (found : orderOf p.all order = .ok ordered) : orderOf next.all order = .ok ordered := by
  cases order with
  | none => exact found
  | some target =>
    simp only [orderOf] at found ⊢
    obtain ⟨column, first, same⟩ := map_ok_iff.mp found
    exact map_ok_iff.mpr ⟨column, columnOf_run run first, same⟩

end Plan

section tokens

def Branch.tokens (b : Branch) : List Token :=
  match b.joined with
  | none => []
  | some (member, on) =>
    [.space, .keyword .LEFT_OUTER_JOIN, .space] ++ member.declaration ++ onTokens on

theorem tokens_branch (t : JoinTree) (b : Branch) :
    (t.branch b).tokens = t.tokens ++ b.tokens := by
  unfold JoinTree.branch Branch.tokens
  cases b.joined with
  | none => simp
  | some joined =>
    simp [JoinTree.tokens, JoinTree.declaration, JoinKind.keyword, List.append_assoc]

theorem tokens_branches (t : JoinTree) (bs : List Branch) :
    (t.branches bs).tokens = t.tokens ++ bs.flatMap Branch.tokens := by
  unfold JoinTree.branches
  induction bs generalizing t with
  | nil => simp
  | cons b rest ih => rw [List.foldl_cons, ih, tokens_branch, List.flatMap_cons, List.append_assoc]

theorem not_mem_onTokens (conditions : List Condition) :
    .keyword .LEFT_OUTER_JOIN ∉ onTokens conditions := by
  intro member
  unfold onTokens at member
  split at member
  next => cases member
  next =>
    have inside : .keyword .LEFT_OUTER_JOIN ∈ Condition.conjunction conditions := by
      simpa using member
    rcases Select.mem_joinTokens inside with gap | ⟨part, present, inside⟩
    · simp at gap
    · obtain ⟨c, -, rfl⟩ := List.mem_map.mp present
      have operand : ∀ o : Operand, .keyword .LEFT_OUTER_JOIN ≠ o.token := by
        intro o
        cases o <;> simp [Operand.token, Column.token]
      simp only [Condition.tokens, List.mem_cons, operand, reduceCtorEq, List.not_mem_nil, or_false,
        false_or] at inside
      split at inside <;> cases inside

theorem not_mem_tokens {t : JoinTree} (inner : t.IsInner) :
    .keyword .LEFT_OUTER_JOIN ∉ t.tokens := by
  have wrapped : ∀ (long : Bool) (tokens : List Token), .keyword .LEFT_OUTER_JOIN ∉ tokens →
      .keyword .LEFT_OUTER_JOIN ∉ JoinTree.parenthesized long tokens := by
    intro long tokens apart
    cases long <;> simp [JoinTree.parenthesized, apart]
  induction t with
  | table relation pattern =>
    unfold JoinTree.tokens Relation.declaration
    split <;> simp
  | group first ih => exact wrapped _ _ (ih inner)
  | join init kind last on first second =>
    obtain ⟨rfl, before, after⟩ := inner
    simp [JoinTree.tokens, JoinKind.keyword, first before, wrapped _ _ (second after),
      not_mem_onTokens]

theorem tokens_of_inner {b : Branch}
    (inner : ∀ member on, b.joined = some (member, on) → member.IsInner) (some : b.tokens ≠ []) :
    ∃ rest, b.tokens = .space :: .keyword .LEFT_OUTER_JOIN :: rest ∧
      .keyword .LEFT_OUTER_JOIN ∉ rest := by
  unfold Branch.tokens at some ⊢
  cases joined : b.joined with
  | none => simp [joined] at some
  | some pair =>
    obtain ⟨member, on⟩ := pair
    refine ⟨_, rfl, ?_⟩
    have within := not_mem_tokens (inner member on joined)
    cases long : member.isLong <;>
      simp [JoinTree.declaration, JoinTree.parenthesized, long, within, not_mem_onTokens]

theorem tokens_eq_nil {before : List Element} {b : Branch} (operand : Plan.Operand before b) :
    b.tokens = [] ↔ ∀ t ∈ b.pattern.triples, Occurs before t := by
  have leaves : b.tokens = [] ↔ b.leaves = [] := by
    unfold Branch.tokens Branch.leaves
    cases b.joined with
    | none => simp
    | some pair => simp [JoinTree.leaves_ne_nil]
  have own : b.leaves = [] ↔ ownTriples before b.pattern = [] := by
    rw [← List.length_eq_zero_iff, ← List.length_eq_zero_iff, ← operand.own.length_eq,
      List.length_map]
  rw [leaves, own]
  constructor
  · intro none t used
    by_contra fresh
    have member := (mem_ownTriples used).mpr fresh
    rw [none] at member
    cases member
  · intro all
    rw [List.eq_nil_iff_forall_not_mem]
    intro t member
    have source := member
    simp only [ownTriples, mem_distinct, List.mem_filter] at source
    obtain ⟨u, used, rfl⟩ := List.mem_map.mp source.1
    exact (mem_ownTriples used).mp member (all u used)

end tokens

-- `wider` is `statement` with the operands of `bs` at the end of its FROM clause, where `before`
-- are the elements that were planned without them. Conditions stay if no two tables have one alias.
structure Widened (before : List Element) (statement wider : Select) (bs : List Branch) : Prop where
  columns : wider.columns = statement.columns
  order : wider.order = statement.order
  conditions : wider.source.aliases.Nodup → wider.conditions = statement.conditions
  source : wider.source = statement.source.branches bs
  tokens : wider.source.tokens = statement.source.tokens ++ bs.flatMap Branch.tokens
  block : ∀ b ∈ bs, b.tokens ≠ [] →
    ∃ rest, b.tokens = .space :: .keyword .LEFT_OUTER_JOIN :: rest ∧
      .keyword .LEFT_OUTER_JOIN ∉ rest
  absent : ∀ earlier b later, bs = earlier ++ b :: later →
    (b.tokens = [] ↔ ∀ t ∈ b.pattern.triples, Occurs (before ++ earlier.map Branch.element) t)

theorem Plan.where_kept {tables : TableMap} {required optional more : List Element}
    {base full wide : Progress} {old new : List Condition}
    (first : (addEach addRequired (.start tables) required).outcome = .ok base)
    (later : (addEach addOptional base.turn optional).outcome = .ok full)
    (run : (addEach addOptional full more).outcome = .ok wide)
    (before : residual full.state.drainPending.1 = .ok old)
    (after : residual wide.state.drainPending.1 = .ok new)
    (apart : full.aliases.Nodup) (wider : wide.aliases.Nodup) : new = old := by
  have whole : (addEach addOptional base.turn (optional ++ more)).outcome = .ok wide := by
    rw [addEach_append, later, ok_bind, run]
  have known := required_run first
  rw [conditions_planned first later before, conditions_planned first whole after,
    waiting_run known later apart, waiting_run known whole wider]

theorem widened_of_planned {tables : TableMap} {query : Query} {targets : List String}
    {order : Option (String × SortOrder)} {statement : Select} {more : List GraphPattern}
    {plan : Plan}
    (planned : (Plan.ofQuery tables query targets order).outcome = .ok (.select statement))
    (extended : (Plan.ofQuery tables ⟨query.required, query.optional ++ more.map .pattern⟩ targets
      order).outcome = .ok plan) :
    ∃ wider bs, plan = .select wider ∧ bs.map Branch.pattern = more ∧
      Widened (query.required ++ query.optional) statement wider bs := by
  obtain ⟨base, full, first, later, whole, -, columns, conditions, ordered⟩ :=
    Plan.ofQuery_select.mp planned
  rw [Plan.ofQuery_outcome, first, ok_bind, Plan.addEach_append, later, ok_bind] at extended
  cases run : (Plan.addEach Plan.addOptional full (more.map .pattern)).outcome with
  | error e =>
    rw [run] at extended
    cases extended
  | ok wide =>
    rw [run, ok_bind] at extended
    obtain ⟨front, optional, operands⟩ := Plan.operands_run (Plan.required_run first) later
    obtain ⟨bs, added, operands'⟩ := operands.run run
    have tree : wide.tree = some (statement.source.branches bs) := by
      have before := operands.tree
      cases core : base.tree with
      | none => simp [whole, core] at before
      | some t =>
        rw [whole, core, Option.map_some, Option.some.injEq] at before
        rw [operands'.tree, core, Option.map_some, before]
        simp [JoinTree.branches]
    simp only [tree, Plan.finish_exact] at extended
    obtain ⟨wider, rfl, -, source, columns', conditions', ordered'⟩ := extended
    have patterns : bs.map Branch.pattern = more := by
      have same : (bs.map Branch.pattern).map Element.pattern = more.map Element.pattern := by
        rw [List.map_map]
        exact added.symm
      exact (List.map_inj_right fun _ _ => Element.pattern.inj).mp same
    refine ⟨wider, bs, rfl, patterns, ⟨?_, ?_, ?_, source, ?_, ?_, ?_⟩⟩
    · exact Except.ok.inj (columns'.symm.trans (Plan.columns_run run columns))
    · exact Except.ok.inj (ordered'.symm.trans (Plan.orderOf_run run ordered))
    · intro apart
      have small : full.aliases = statement.source.aliases :=
        Plan.Progress.aliases_of_tree whole
      have large : wide.aliases = wider.source.aliases :=
        Plan.Progress.aliases_of_tree (source ▸ tree)
      refine Plan.where_kept first later run conditions conditions' ?_ (large ▸ apart)
      rw [source, JoinTree.aliases, JoinTree.leaves_branches, List.map_append] at apart
      exact small ▸ (List.nodup_append.mp apart).1
    · rw [source, tokens_branches]
    · intro b present
      obtain ⟨earlier, rest, split⟩ := List.append_of_mem present
      have operand := operands'.operand (front ++ earlier) b rest (by simp [split])
      exact tokens_of_inner operand.inner
    · intro earlier b rest split
      have operand := operands'.operand (front ++ earlier) b rest (by simp [split])
      rw [List.map_append, ← List.append_assoc, ← optional] at operand
      exact tokens_eq_nil operand

namespace Visit

def born : Iri := ⟨"urn:visit:born", by decide +kernel⟩

def home : Iri := ⟨"urn:visit:home", by decide +kernel⟩

def city : Iri := ⟨"urn:visit:city", by decide +kernel⟩

def likes : Iri := ⟨"urn:visit:likes", by decide +kernel⟩

def tables : TableMap := [(born, "born"), (home, "home"), (city, "city"), (likes, "likes")]

def visitor : Variable := ⟨"visitor", by decide +kernel⟩

def house : Variable := ⟨"house", by decide +kernel⟩

def village : Variable := ⟨"village", by decide +kernel⟩

def birth : TriplePattern := ⟨.variable visitor, .iri born, .node (.plain "1990")⟩

def housing : TriplePattern := ⟨.variable visitor, .iri home, .variable house⟩

def taste : TriplePattern := ⟨.variable visitor, .iri likes, .node (.plain "tea")⟩

def location : TriplePattern := ⟨.variable village, .iri city, .variable visitor⟩

def query : Query :=
  ⟨[.pattern (GraphPattern.empty.addTriple birth)],
    [.pattern (GraphPattern.empty.addTriple housing)]⟩

def more : List GraphPattern :=
  [(GraphPattern.empty.addTriple housing).addTriple birth,
    (GraphPattern.empty.addTriple taste).addTriple location]

def statement : Select where
  columns := [⟨"home", .object⟩]
  source := .join (.table ⟨"born", "born"⟩ birth) .left (.table ⟨"home", "home"⟩ housing)
    [linked ⟨"born", .subject⟩ ⟨"home", .subject⟩]
  conditions := [fixed ⟨"born", .object⟩ (.plain "1990")]
  order := some (⟨"born", .subject⟩, .descending)

def wider : Select where
  columns := [⟨"home", .object⟩]
  source := .join statement.source .left
    (.join (.table ⟨"likes", "likes"⟩ taste) .inner (.table ⟨"city", "city"⟩ location)
      [linked ⟨"born", .subject⟩ ⟨"city", .object⟩])
    [linked ⟨"born", .subject⟩ ⟨"likes", .subject⟩, linked ⟨"born", .subject⟩ ⟨"city", .object⟩,
      fixed ⟨"likes", .object⟩ (.plain "tea")]
  conditions := [fixed ⟨"born", .object⟩ (.plain "1990")]
  order := some (⟨"born", .subject⟩, .descending)

theorem planned :
    (Plan.ofQuery tables query ["house"] (some ("visitor", .descending))).outcome =
      .ok (.select statement) := by
  decide +kernel

theorem extended :
    (Plan.ofQuery tables ⟨query.required, query.optional ++ more.map .pattern⟩ ["house"]
      (some ("visitor", .descending))).outcome = .ok (.select wider) := by
  decide +kernel

theorem apart : wider.source.aliases.Nodup := by decide +kernel

end Visit

theorem widened_of_planned_visit :
    (Plan.ofQuery Visit.tables Visit.query ["house"] (some ("visitor", .descending))).outcome =
        .ok (.select Visit.statement) ∧
      (Plan.ofQuery Visit.tables
        ⟨Visit.query.required, Visit.query.optional ++ Visit.more.map .pattern⟩ ["house"]
        (some ("visitor", .descending))).outcome = .ok (.select Visit.wider) ∧
      Visit.wider.conditions = Visit.statement.conditions ∧
      ∃ bs, bs.map Branch.pattern = Visit.more ∧
        Widened (Visit.query.required ++ Visit.query.optional) Visit.statement Visit.wider bs := by
  obtain ⟨wider, bs, same, patterns, widened⟩ := widened_of_planned Visit.planned Visit.extended
  cases same
  exact ⟨Visit.planned, Visit.extended, widened.conditions Visit.apart, bs, patterns, widened⟩

end GraphSql
