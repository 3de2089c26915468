import GraphSql.Proofs.Planning.Run

namespace GraphSql
open Sql

-- What planning answers, be it a result or an error.

section relabel

variable {ε δ α β γ κ : Type}

def relabel (onError : ε → δ) (onOk : α → β) : Except ε α → Except δ β
  | .ok a => .ok (onOk a)
  | .error e => .error (onError e)

theorem relabel_bind {onError : ε → δ} {onOk : α → β} {onEnd : γ → κ} {x : Except ε α}
    {next : α → Except ε γ} {next' : β → Except δ κ}
    (alike : ∀ a, x = .ok a → next' (onOk a) = relabel onError onEnd (next a)) :
    (relabel onError onOk x >>= next') = relabel onError onEnd (x >>= next) := by
  cases x with
  | error e => rfl
  | ok a => exact alike a rfl

theorem relabel_relabel {onError : ε → δ} {onOk : α → β} {later : δ → κ} {then_ : β → γ}
    (x : Except ε α) :
    relabel later then_ (relabel onError onOk x) =
      relabel (fun e => later (onError e)) (fun a => then_ (onOk a)) x := by
  cases x <;> rfl

end relabel

inductive UsageError.Kind where
  | variablePredicate
  | orderByNonTarget
  | duplicateTarget
  | invalidTarget
deriving DecidableEq

def UsageError.kind : UsageError → Kind
  | .variablePredicate _ => .variablePredicate
  | .orderByNonTarget _ => .orderByNonTarget
  | .duplicateTarget _ => .duplicateTarget
  | .invalidTarget _ => .invalidTarget

inductive PlanError.Kind where
  | unsupportedSubquery
  | cannotBindAllSteps
  | filterUnbound
  | filterVariableNotFound
  | unmappedTarget
  | noTargets
  | optionalWithoutRequired
  | optionalConditionInWhere
  | usage (kind : UsageError.Kind)
deriving DecidableEq

def PlanError.kind : PlanError → Kind
  | .unsupportedSubquery => .unsupportedSubquery
  | .cannotBindAllSteps _ _ => .cannotBindAllSteps
  | .filterUnbound _ => .filterUnbound
  | .filterVariableNotFound _ => .filterVariableNotFound
  | .unmappedTarget _ => .unmappedTarget
  | .noTargets => .noTargets
  | .optionalWithoutRequired => .optionalWithoutRequired
  | .optionalConditionInWhere _ => .optionalConditionInWhere
  | .usage error => .usage error.kind

namespace Growth

theorem extend_nil (g : Growth) : (g.extend []).outcome = .ok g := by
  rw [extend]
  rfl

theorem extend_stuck {g : Growth} {remaining : List TriplePattern} (some : remaining ≠ [])
    (taken : takeFirst? (isJoinable g.bindings) remaining = none) :
    (g.extend remaining).outcome =
      .error (.cannotBindAllSteps remaining (g.bindings.map (·.1))) := by
  rw [extend, if_neg (by simpa using some)]
  split
  next => rfl
  next found =>
    rw [taken] at found
    cases found

end Growth

theorem attachFilters_kind {seed : TriplePattern} {relation : Relation} {s : PlanState}
    {filters : List Filter} {e : PlanError}
    (failed : (attachFilters seed relation s filters).outcome = .error e) :
    e.kind = .filterVariableNotFound := by
  have column : ∀ v e, seedColumn seed relation v = .error e →
      e.kind = .filterVariableNotFound := by
    intro v e missing
    unfold seedColumn at missing
    split at missing
    next => cases missing
    next =>
      split at missing
      next => cases missing
      next =>
        cases missing
        rfl
  induction filters generalizing s with
  | nil => cases failed
  | cons filter rest ih =>
    cases sides : filter.sides with
    | variablePair v w =>
      simp only [attachFilters, sides, Logged.outcome_bind, Logged.outcome_report,
        ok_bind] at failed
      exact ih failed
    | variableNode v n | nodeVariable n v =>
      simp only [attachFilters, sides, Logged.outcome_bind, Logged.outcome_ofExcept,
        Logged.outcome_report] at failed
      cases found : seedColumn seed relation v with
      | error e' =>
        rw [found] at failed
        cases failed
        exact column v _ found
      | ok column =>
        rw [found] at failed
        exact ih failed

def concludeGrowth (seed : TriplePattern) (relation : Relation) (g : Growth) :
    Except PlanError (Option JoinTree × PlanState × Bindings) :=
  if g.filters.isEmpty then .ok (some g.tree, g.state, g.bindings)
  else if g.tree.isLong then .error (.filterUnbound g.filters)
  else (attachFilters seed relation g.state g.filters).outcome >>= fun s =>
    .ok (some g.tree, s, g.bindings)

def concludePattern (filters : List Filter) :
    Option (TriplePattern × Relation × List TriplePattern) × PlanState × Bindings →
      Except PlanError (Option JoinTree × PlanState × Bindings)
  | (none, s, bindings) => .ok (none, s, bindings)
  | (some (seed, relation, others), s, bindings) =>
    (Growth.extend ⟨s, bindings, .table relation seed, filters⟩ others).outcome >>=
      concludeGrowth seed relation

theorem planPattern_outcome (s : PlanState) (bindings : Bindings) (pattern : GraphPattern) :
    (planPattern s bindings pattern).outcome =
      (findSeed s bindings pattern.triples).outcome >>= concludePattern pattern.filters := by
  simp only [planPattern, Logged.outcome_bind, Logged.outcome_report, ok_bind]
  congr 1
  funext answer
  obtain ⟨found, s, bindings⟩ := answer
  cases found with
  | none => simp [concludePattern]
  | some found =>
    obtain ⟨seed, relation, others⟩ := found
    simp only [Logged.outcome_bind, concludePattern]
    congr 1
    funext g
    unfold concludeGrowth
    split
    next => rfl
    next =>
      split
      next => rfl
      next =>
        rw [Logged.outcome_bind]
        rfl

theorem findSeed_cons (s : PlanState) (bindings : Bindings) (pattern : TriplePattern)
    (rest : List TriplePattern) :
    (findSeed s bindings (pattern :: rest)).outcome =
      if pattern.folded ∈ s.planned then (findSeed s bindings rest).outcome
      else match pattern.predicate with
        | .variable v => .error (.usage (.variablePredicate v))
        | .iri p =>
          .ok (some (pattern, s.aliases.relation p, rest), s.settle bindings p pattern,
            Plan.addBindings bindings
              (JoinTree.leafVariables (s.aliases.relation p, pattern))) := by
  simp only [findSeed, Logged.outcome_bind, Logged.outcome_mapError, PlanState.bind_outcome]
  split
  next => rfl
  next =>
    cases pattern.predicate with
    | «variable» v => rfl
    | iri p => rfl

namespace Plan

theorem addRequired_outcome (p : Progress) (element : Element) :
    (addRequired p element).outcome =
      patternOf element >>= fun pattern =>
        (planPattern p.state p.required pattern).outcome >>= fun answer =>
          .ok (p.require answer.1 answer.2.1 answer.2.2) := by
  simp only [addRequired, Logged.outcome_bind, Logged.outcome_report, ok_bind,
    Logged.outcome_ofExcept]
  congr 1
  funext pattern
  congr 1
  funext answer
  obtain ⟨found, s, bindings⟩ := answer
  cases found with
  | none => simp [Progress.require]
  | some member => cases tree : p.tree <;> simp [Progress.require, tree]

theorem addOptional_outcome (p : Progress) (element : Element) :
    (addOptional p element).outcome =
      patternOf element >>= fun pattern =>
        match p.tree with
        | none => .error .optionalWithoutRequired
        | some tree =>
          (planPattern p.state p.required pattern).outcome >>= fun answer =>
            .ok (p.allow tree answer.1 answer.2.1 answer.2.2) := by
  simp only [addOptional, Logged.outcome_bind, Logged.outcome_report, ok_bind,
    Logged.outcome_ofExcept]
  congr 1
  funext pattern
  cases held : p.tree with
  | none => rfl
  | some tree =>
    rw [Logged.outcome_bind]
    congr 1
    funext answer
    obtain ⟨found, s, bindings⟩ := answer
    cases found <;> simp [Progress.allow, held]

theorem finish_outcome (p : Progress) (tree : JoinTree) (targets : List String)
    (order : Option (String × SortOrder)) :
    (finish p tree targets order).outcome =
      if targets.isEmpty then .error .noTargets
      else
        targets.mapM (columnOf p.all) >>= fun columns =>
          residual p.state.drainPending.1 >>= fun conditions =>
            orderOf p.all order >>= fun order =>
              .ok (.select ⟨columns, tree, conditions, order⟩) := by
  unfold finish
  split
  next => rfl
  next =>
    simp only [Logged.outcome_bind, Logged.outcome_ofExcept, reportEach_outcome, ok_bind]
    congr 1
    funext columns
    congr 1
    funext conditions
    cases order with
    | none => rfl
    | some target =>
      simp only [Logged.outcome_bind, Logged.outcome_ofExcept, orderOf]
      cases columnOf p.all target.1 <;> rfl

theorem ofQuery_outcome (tables : TableMap) (query : Query) (targets : List String)
    (order : Option (String × SortOrder)) :
    (ofQuery tables query targets order).outcome =
      (addEach addRequired (.start tables) query.required).outcome >>= fun base =>
        (addEach addOptional base.turn query.optional).outcome >>= fun full =>
          match full.tree with
          | none => .ok .empty
          | some tree => (finish full tree targets order).outcome := by
  simp only [ofQuery, Logged.outcome_bind]
  congr 1
  funext base
  congr 1
  funext full
  cases full.tree <;> rfl

end Plan

end GraphSql
