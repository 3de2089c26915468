import Mathlib.Control.Monad.Basic
import GraphSql.Proofs.Planning.Outcome
import GraphSql.Proofs.Planning.Residual

namespace GraphSql
open Sql

-- The WHERE clause has conditions of the required part only. An optional element leaves none
-- behind, whatever its aliases are, so that planning never fails for a condition it would have to
-- refuse.

section strays

variable {α β : Type} {x : Except PlanError α} {f : α → Except PlanError β}

def NoStray (x : Except PlanError α) : Prop := ∀ c, x ≠ .error (.optionalConditionInWhere c)

theorem noStray_ok (a : α) : NoStray (.ok a) := by
  intro c same
  cases same

theorem noStray_error {e : PlanError} (differs : e.kind ≠ .optionalConditionInWhere) :
    NoStray (.error e : Except PlanError α) := by
  intro c same
  cases same
  exact differs rfl

theorem NoStray.bind (first : NoStray x) (later : ∀ a, x = .ok a → NoStray (f a)) :
    NoStray (x >>= f) := by
  intro c failed
  rcases bind_error_iff.mp failed with failed | ⟨a, found, failed⟩
  · exact first c failed
  · exact later a found c failed

theorem NoStray.map (first : NoStray x) (g : α → β) : NoStray (x.map g) := by
  cases x with
  | ok a => exact noStray_ok (g a)
  | error e =>
    intro c same
    cases same
    exact first c rfl

end strays

theorem Growth.noStray_extend (g : Growth) (remaining : List TriplePattern) :
    NoStray (g.extend remaining).outcome := by
  cases taken : takeFirst? (isJoinable g.bindings) remaining with
  | none =>
    by_cases empty : remaining = []
    · rw [empty, extend_nil]
      exact noStray_ok _
    · rw [extend_stuck empty taken]
      exact noStray_error (by simp [PlanError.kind])
  | some found =>
    obtain ⟨pattern, others⟩ := found
    have shorter : others.length < remaining.length := by
      have := takeFirst?_length _ _ _ taken
      simp only at this
      omega
    rw [extend_taken taken]
    split
    next => exact noStray_extend g others
    next =>
      split
      next => exact noStray_error (by simp [PlanError.kind])
      next => exact noStray_extend _ others
termination_by remaining.length

theorem noStray_findSeed (s : PlanState) (bindings : Bindings) (triples : List TriplePattern) :
    NoStray (findSeed s bindings triples).outcome := by
  induction triples with
  | nil => exact noStray_ok _
  | cons pattern rest ih =>
    rw [findSeed_cons]
    split
    next => exact ih
    next =>
      split
      next => exact noStray_error (by simp [PlanError.kind])
      next => exact noStray_ok _

theorem noStray_concludeGrowth (seed : TriplePattern) (relation : Relation) (g : Growth) :
    NoStray (concludeGrowth seed relation g) := by
  unfold concludeGrowth
  split
  next => exact noStray_ok _
  next =>
    split
    next => exact noStray_error (by simp [PlanError.kind])
    next =>
      refine NoStray.bind ?_ fun s _ => noStray_ok _
      intro c failed
      have kind := attachFilters_kind failed
      cases kind

theorem noStray_planPattern (s : PlanState) (bindings : Bindings) (pattern : GraphPattern) :
    NoStray (planPattern s bindings pattern).outcome := by
  rw [planPattern_outcome]
  refine (noStray_findSeed s bindings pattern.triples).bind ?_
  rintro ⟨found, s, bindings⟩ -
  cases found with
  | none => exact noStray_ok _
  | some found =>
    obtain ⟨seed, relation, others⟩ := found
    exact (Growth.noStray_extend _ others).bind fun g _ => noStray_concludeGrowth seed relation g

namespace Plan

variable {tables : TableMap} {base p next : Progress} {element : Element} {elements : List Element}

theorem noStray_patternOf (element : Element) : NoStray (patternOf element) := by
  cases element with
  | pattern p => exact noStray_ok p
  | subquery required optional => exact noStray_error (by simp [PlanError.kind])

theorem noStray_addRequired (p : Progress) (element : Element) :
    NoStray (addRequired p element).outcome := by
  rw [addRequired_outcome]
  refine (noStray_patternOf element).bind fun pattern _ => ?_
  exact (noStray_planPattern _ _ pattern).bind fun answer _ => noStray_ok _

theorem noStray_addOptional (p : Progress) (element : Element) :
    NoStray (addOptional p element).outcome := by
  rw [addOptional_outcome]
  refine (noStray_patternOf element).bind fun pattern _ => ?_
  split
  next => exact noStray_error (by simp [PlanError.kind])
  next => exact (noStray_planPattern _ _ pattern).bind fun answer _ => noStray_ok _

theorem noStray_addEach {add : Progress → Element → Logged PlanError Progress}
    (each : ∀ p element, NoStray (add p element).outcome) (p : Progress) (elements : List Element) :
    NoStray (addEach add p elements).outcome := by
  induction elements generalizing p with
  | nil => exact noStray_ok p
  | cons element rest ih =>
    rw [addEach, Logged.outcome_bind]
    exact (each p element).bind fun next _ => ih next

theorem noStray_columnOf (bindings : Bindings) (target : String) :
    NoStray (columnOf bindings target) := by
  unfold columnOf
  split
  next => exact noStray_ok _
  next => exact noStray_error (by simp [PlanError.kind])

theorem noStray_columns (bindings : Bindings) (targets : List String) :
    NoStray (targets.mapM (columnOf bindings)) := by
  induction targets with
  | nil => exact noStray_ok _
  | cons target rest ih =>
    rw [List.mapM_cons]
    refine (noStray_columnOf bindings target).bind fun column _ => ?_
    exact ih.bind fun columns _ => noStray_ok _

theorem noStray_orderOf (bindings : Bindings) (order : Option (String × SortOrder)) :
    NoStray (orderOf bindings order) := by
  cases order with
  | none => exact noStray_ok _
  | some order =>
    obtain ⟨target, direction⟩ := order
    exact (noStray_columnOf bindings target).map _

-- An optional element adds no entry to what waits and changes none. It may take what waited under
-- the aliases of its own tables.
theorem pending_addOptional (added : (addOptional p element).outcome = .ok next) :
    next.state.pending.Sublist p.state.pending := by
  obtain ⟨pattern, init, found, s, bound, rfl, held, run, rfl⟩ := addOptional_exact.mp added
  cases found with
  | none =>
    cases run
    exact List.Sublist.refl _
  | some member =>
    have left : (takeAll s member.aliases).2.pending = p.state.others member.aliases := by
      rw [PlanState.pending_takeAll, run.others]
    exact left ▸ List.filter_sublist

theorem pending_optional (run : (addEach addOptional p elements).outcome = .ok next) :
    next.state.pending.Sublist p.state.pending := by
  have kept : ∀ q element after, q.state.pending.Sublist p.state.pending →
      (addOptional q element).outcome = .ok after →
      after.state.pending.Sublist p.state.pending := by
    intro q element after before added
    exact (pending_addOptional added).trans before
  exact addEach_preserves kept (List.Sublist.refl _) run

structure Cleared (base p : Progress) : Prop where
  left : p.state.pending.Sublist base.state.pending
  required : ∀ entry ∈ p.state.pending, entry.part = .required
  drained : ∀ item ∈ p.state.drainPending.1, item.1 = .required
  composed : residual p.state.drainPending.1 = .ok (p.state.drainPending.1.map (·.2))

theorem cleared_optional
    (first : (addEach addRequired (.start tables) elements).outcome = .ok base)
    {optional : List Element} (later : (addEach addOptional base.turn optional).outcome = .ok p) :
    Cleared base p := by
  have left : p.state.pending.Sublist base.state.pending :=
    pending_optional (p := base.turn) later
  have required : ∀ entry ∈ p.state.pending, entry.part = .required := by
    intro entry member
    cases part : entry.part with
    | required => rfl
    | optional =>
      apply absurd ((optionalWithin_required first).2 entry (left.subset member) part)
      exact List.not_mem_nil
  have within : p.state.OptionalWithin [] := by
    intro entry member optional
    rw [required entry member] at optional
    cases optional
  refine ⟨left, required, ?_, ?_⟩
  · intro item member
    obtain ⟨entry, held, member⟩ := List.mem_flatMap.mp member
    obtain ⟨c, -, rfl⟩ := List.mem_map.mp member
    exact required entry held
  · rw [PlanState.residual_drainPending within]
    simp [PlanState.drainPending, List.map_flatMap, Function.comp_def]

theorem noStray_finish (cleared : Cleared base p) (tree : JoinTree) (targets : List String)
    (order : Option (String × SortOrder)) : NoStray (finish p tree targets order).outcome := by
  rw [finish_outcome]
  split
  next => exact noStray_error (by simp [PlanError.kind])
  next =>
    refine (noStray_columns p.all targets).bind fun columns _ => ?_
    rw [cleared.composed, ok_bind]
    exact (noStray_orderOf p.all order).bind fun order _ => noStray_ok _

end Plan

-- After each optional element only conditions of the required part wait, and each of them did
-- before the first one. So all of them can be put into the WHERE clause, and planning does not fail
-- there.
theorem where_clause_cleared (tables : TableMap) (query : Query) :
    (∀ base before after p, query.optional = before ++ after →
      (Plan.addEach Plan.addRequired (.start tables) query.required).outcome = .ok base →
      (Plan.addEach Plan.addOptional base.turn before).outcome = .ok p → Plan.Cleared base p) ∧
    ∀ targets order c,
      (Plan.ofQuery tables query targets order).outcome ≠
        .error (.optionalConditionInWhere c) := by
  refine ⟨fun base before after p _ first later => Plan.cleared_optional first later, ?_⟩
  intro targets order
  rw [Plan.ofQuery_outcome]
  refine (Plan.noStray_addEach Plan.noStray_addRequired _ _).bind fun base first => ?_
  refine (Plan.noStray_addEach Plan.noStray_addOptional _ _).bind fun full later => ?_
  split
  next => exact noStray_ok _
  next => exact Plan.noStray_finish (Plan.cleared_optional first later) _ targets order

-- Dogs of a kennel. Two predicates have one table, so that the first optional element has the alias
-- of the first required one. The second optional element is all planned before, and the third is in
-- part.
namespace Kennel

def guards : Iri := ⟨"urn:kennel:guards", by decide +kernel⟩

def feeds : Iri := ⟨"urn:kennel:feeds", by decide +kernel⟩

def tags : Iri := ⟨"urn:kennel:tags", by decide +kernel⟩

def herds : Iri := ⟨"urn:kennel:herds", by decide +kernel⟩

def tables : TableMap := [(guards, "dogs"), (feeds, "dogs"), (tags, "tags")]

def dog : Variable := ⟨"dog", by decide +kernel⟩

def flock : Variable := ⟨"flock", by decide +kernel⟩

def guarding : TriplePattern := ⟨.variable dog, .iri guards, .node (.plain "yard")⟩

def tagging : TriplePattern := ⟨.variable dog, .iri tags, .node (.plain "Rex")⟩

def feeding : TriplePattern := ⟨.variable dog, .iri feeds, .node (.plain "bone")⟩

def herding : TriplePattern := ⟨.variable dog, .iri herds, .variable flock⟩

def query : Query :=
  ⟨[.pattern (GraphPattern.empty.addTriple guarding),
      .pattern (GraphPattern.empty.addTriple tagging)],
    [.pattern (GraphPattern.empty.addTriple feeding),
      .pattern (GraphPattern.empty.addTriple guarding),
      .pattern (((GraphPattern.empty.addTriple guarding).addTriple herding).addFilter
        (.ofSides (.variableNode flock (.plain "sheep")) "="))]⟩

def statement : Select where
  columns := [⟨"dogs", .subject⟩]
  source := .join
    (.join
      (.join (.table ⟨"dogs", "dogs"⟩ guarding) .inner (.table ⟨"tags", "tags"⟩ tagging)
        [linked ⟨"dogs", .subject⟩ ⟨"tags", .subject⟩])
      .left (.table ⟨"dogs", "dogs"⟩ feeding)
      [linked ⟨"dogs", .subject⟩ ⟨"dogs", .subject⟩, fixed ⟨"dogs", .object⟩ (.plain "yard"),
        fixed ⟨"dogs", .object⟩ (.plain "bone")])
    .left (.table ⟨emptyRelation, "np_0"⟩ herding)
    [linked ⟨"dogs", .subject⟩ ⟨"np_0", .subject⟩, fixed ⟨"np_0", .object⟩ (.plain "sheep")]
  conditions := [fixed ⟨"tags", .object⟩ (.plain "Rex")]
  order := none

theorem planned :
    (Plan.ofQuery tables query ["dog"] none).outcome = .ok (.select statement) := by
  decide +kernel

end Kennel

theorem where_clause_cleared_kennel :
    (Plan.ofQuery Kennel.tables Kennel.query ["dog"] none).outcome =
        .ok (.select Kennel.statement) ∧
      ∃ base full,
        (Plan.addEach Plan.addRequired (.start Kennel.tables) Kennel.query.required).outcome =
          .ok base ∧
        (Plan.addEach Plan.addOptional base.turn Kennel.query.optional).outcome = .ok full ∧
        Plan.Cleared base full ∧
        full.state.drainPending.1.map (·.2) = Kennel.statement.conditions := by
  obtain ⟨base, full, first, later, -, -, -, left, -⟩ := Plan.ofQuery_select.mp Kennel.planned
  have cleared : Plan.Cleared base full :=
    (where_clause_cleared Kennel.tables Kennel.query).1 base Kennel.query.optional [] full
      (List.append_nil _).symm first later
  rw [cleared.composed] at left
  exact ⟨Kennel.planned, base, full, first, later, cleared, Except.ok.inj left⟩

end GraphSql
