import GraphSql.Proofs.Planning.Folding
import GraphSql.Proofs.Planning.Outcome

namespace GraphSql
open Sql

-- A triple that has a table already and can be joined is passed over, wherever it stands.

theorem takeFirst?_append {α : Type} (wanted : α → Bool) (front back : List α) :
    takeFirst? wanted (front ++ back) =
      match takeFirst? wanted front with
      | some (found, others) => some (found, others ++ back)
      | none => (takeFirst? wanted back).map fun (found, others) => (found, front ++ others) := by
  induction front with
  | nil =>
    rw [List.nil_append, takeFirst?]
    cases takeFirst? wanted back <;> rfl
  | cons item front ih =>
    rw [List.cons_append, takeFirst?, takeFirst?, ih]
    split
    next => rfl
    next =>
      cases takeFirst? wanted front with
      | some found => rfl
      | none => cases takeFirst? wanted back <;> rfl

section answers

variable {α β : Type}

def SameAnswer (x y : Except PlanError α) : Prop :=
  relabel PlanError.kind id x = relabel PlanError.kind id y

theorem SameAnswer.of_eq {x y : Except PlanError α} (same : x = y) : SameAnswer x y :=
  congrArg _ same

theorem SameAnswer.bind {x y : Except PlanError α} {next next' : α → Except PlanError β}
    (first : SameAnswer x y) (later : ∀ a, y = .ok a → SameAnswer (next a) (next' a)) :
    SameAnswer (x >>= next) (y >>= next') := by
  cases x with
  | error e =>
    cases y with
    | error e' => exact congrArg Except.error (Except.error.inj first)
    | ok b => cases first
  | ok a =>
    cases y with
    | error e' => cases first
    | ok b =>
      cases first
      exact later a rfl

end answers

structure Spare (s : PlanState) (bindings : Bindings) (t : TriplePattern) : Prop where
  planned : t.folded ∈ s.planned
  joinable : Growth.isJoinable bindings t = true

theorem isBound_addBindings {bindings : Bindings} (more : Bindings) {n : NodePattern}
    (bound : isBound bindings n = true) : isBound (Plan.addBindings bindings more) n = true := by
  cases n with
  | node n => rfl
  | «variable» v =>
    obtain ⟨column, held⟩ := Option.isSome_iff_exists.mp bound
    simp [isBound, lookup_addBindings, held]

def TriplePattern.HasConstant (t : TriplePattern) : Prop :=
  ∃ n, t.subject = .node n ∨ t.object = .node n

theorem isJoinable_iff {bindings : Bindings} {t : TriplePattern} :
    Growth.isJoinable bindings t = true ↔
      t.HasConstant ∨ ∃ name ∈ t.names, (bindings.lookup name).isSome := by
  rw [Growth.isJoinable, TriplePattern.HasConstant, TriplePattern.names]
  cases t.subject <;> cases t.object <;> simp [isBound, NodePattern.names]

theorem isJoinable_addBindings {bindings : Bindings} (more : Bindings) {t : TriplePattern}
    (joinable : Growth.isJoinable bindings t = true) :
    Growth.isJoinable (Plan.addBindings bindings more) t = true := by
  simp only [Growth.isJoinable, Bool.or_eq_true] at joinable ⊢
  exact joinable.imp (isBound_addBindings more) (isBound_addBindings more)

theorem isJoinable_same {t u : TriplePattern} (same : u.Same t) (bindings : Bindings) :
    Growth.isJoinable bindings u = Growth.isJoinable bindings t := by
  rw [← isJoinable_folded, same.folded, isJoinable_folded]

theorem isJoinable_own (bindings : Bindings) (relation : Relation) (t : TriplePattern) :
    Growth.isJoinable (Plan.addBindings bindings (JoinTree.leafVariables (relation, t))) t =
      true := by
  have subject : isBound (Plan.addBindings bindings (JoinTree.leafVariables (relation, t)))
      t.subject = true := by
    cases node : t.subject with
    | node n => rfl
    | «variable» v =>
      simp [isBound, lookup_addBindings, JoinTree.leafVariables, node, NodePattern.asVariable]
  simp [Growth.isJoinable, subject]

theorem Spare.same {s : PlanState} {bindings : Bindings} {t u : TriplePattern}
    (spare : Spare s bindings t) (same : u.Same t) : Spare s bindings u where
  planned := by
    rw [same.folded]
    exact spare.planned
  joinable := (isJoinable_same same bindings).trans spare.joinable

theorem Spare.step {g : Growth} {t : TriplePattern} (spare : Spare g.state g.bindings t)
    (predicate : Iri) (pattern : TriplePattern) :
    Spare (g.step predicate pattern).state (g.step predicate pattern).bindings t where
  planned := by
    rw [Growth.step_planned]
    exact List.mem_append_left _ spare.planned
  joinable := by
    rw [Growth.step_bindings]
    exact isJoinable_addBindings _ spare.joinable

namespace Growth

theorem extend_spare {g : Growth} {t : TriplePattern} (spare : Spare g.state g.bindings t)
    (front back : List TriplePattern) :
    (g.extend (front ++ t :: back)).outcome = (g.extend (front ++ back)).outcome := by
  cases first : takeFirst? (isJoinable g.bindings) front with
  | none =>
    have taken : takeFirst? (isJoinable g.bindings) (front ++ t :: back) =
        some (t, front ++ back) := by
      simp [takeFirst?_append, first, takeFirst?, spare.joinable]
    rw [extend_taken taken, if_pos spare.planned]
  | some found =>
    obtain ⟨u, others⟩ := found
    have shorter : others.length < front.length := by
      have := takeFirst?_length _ _ _ first
      simp only at this
      omega
    have taken : ∀ rest, takeFirst? (isJoinable g.bindings) (front ++ rest) =
        some (u, others ++ rest) := by
      intro rest
      simp [takeFirst?_append, first]
    rw [extend_taken (taken _), extend_taken (taken _)]
    split
    next => exact extend_spare spare others back
    next =>
      split
      next => rfl
      next predicate _ => exact extend_spare (spare.step predicate u) others back
termination_by front.length

theorem extend_alike {g : Growth} {remaining remaining' others others' : List TriplePattern}
    {t : TriplePattern}
    (taken : takeFirst? (isJoinable g.bindings) remaining = some (t, others))
    (taken' : takeFirst? (isJoinable g.bindings) remaining' = some (t, others'))
    (alike : ∀ g : Growth, SameAnswer (g.extend others).outcome (g.extend others').outcome) :
    SameAnswer (g.extend remaining).outcome (g.extend remaining').outcome := by
  rw [extend_taken taken, extend_taken taken']
  split
  next => exact alike g
  next =>
    split
    next => rfl
    next predicate _ => exact alike (g.step predicate t)

theorem extend_copied {g : Growth} {t u : TriplePattern} {front : List TriplePattern}
    (same : u.Same t) (joinable : isJoinable g.bindings t = true)
    (first : takeFirst? (isJoinable g.bindings) front = none) (middle back : List TriplePattern) :
    (g.extend (front ++ t :: (middle ++ u :: back))).outcome =
      (g.extend (front ++ t :: (middle ++ back))).outcome := by
  have taken : ∀ rest, takeFirst? (isJoinable g.bindings) (front ++ t :: rest) =
      some (t, front ++ rest) := by
    intro rest
    simp [takeFirst?_append, first, takeFirst?, joinable]
  rw [extend_taken (taken _), extend_taken (taken _), ← List.append_assoc, ← List.append_assoc]
  split
  next known =>
    have spare : Spare g.state g.bindings t := ⟨known, joinable⟩
    exact extend_spare (spare.same same) _ _
  next =>
    split
    next => rfl
    next predicate _ =>
      have spare : Spare (g.step predicate t).state (g.step predicate t).bindings t := by
        refine ⟨?_, isJoinable_own _ _ t⟩
        rw [step_planned]
        exact List.mem_append_right _ List.mem_cons_self
      exact extend_spare (spare.same same) _ _

theorem extend_repeated {g : Growth} {t u : TriplePattern} (same : u.Same t)
    (front middle back : List TriplePattern) :
    SameAnswer (g.extend (front ++ t :: (middle ++ u :: back))).outcome
      (g.extend (front ++ t :: (middle ++ back))).outcome := by
  cases first : takeFirst? (isJoinable g.bindings) front with
  | some found =>
    have length := takeFirst?_length _ _ _ first
    have taken : ∀ rest, takeFirst? (isJoinable g.bindings) (front ++ rest) =
        some (found.1, found.2 ++ rest) := by
      simp [takeFirst?_append, first]
    exact extend_alike (taken _) (taken _) fun g => extend_repeated same found.2 middle back
  | none =>
    cases joinable : isJoinable g.bindings t with
    | true => exact .of_eq (extend_copied same joinable first middle back)
    | false =>
      -- The copy has the variables of the triple, so it cannot be joined either.
      have waits := (isJoinable_same same g.bindings).trans joinable
      cases second : takeFirst? (isJoinable g.bindings) middle with
      | some found =>
        have length := takeFirst?_length _ _ _ second
        have taken : ∀ rest, takeFirst? (isJoinable g.bindings) (front ++ t :: (middle ++ rest)) =
            some (found.1, front ++ t :: (found.2 ++ rest)) := by
          simp [takeFirst?_append, first, takeFirst?, joinable, second]
        exact extend_alike (taken _) (taken _) fun g => extend_repeated same front found.2 back
      | none =>
        have rest : ∀ rest, takeFirst? (isJoinable g.bindings) (front ++ t :: (middle ++ rest)) =
            (takeFirst? (isJoinable g.bindings) rest).map fun found =>
              (found.1, front ++ t :: (middle ++ found.2)) := by
          simp [takeFirst?_append, first, takeFirst?, joinable, second, Function.comp_def]
        cases third : takeFirst? (isJoinable g.bindings) back with
        | some found =>
          have length := takeFirst?_length _ _ _ third
          have taken := rest back
          have taken' := rest (u :: back)
          simp only [takeFirst?, waits, third, Bool.false_eq_true, if_false,
            Option.map_some] at taken taken'
          exact extend_alike taken' taken fun g => extend_repeated same front middle found.2
        | none =>
          have stuck := rest back
          have stuck' := rest (u :: back)
          simp only [takeFirst?, waits, third, Bool.false_eq_true, if_false,
            Option.map_none] at stuck stuck'
          rw [extend_stuck (by simp) stuck, extend_stuck (by simp) stuck']
          rfl
termination_by front.length + middle.length + back.length

end Growth

section patterns

variable {s : PlanState} {bindings : Bindings} {p q : GraphPattern} {t u : TriplePattern}
  {front middle back : List TriplePattern}

theorem findSeed_append (s : PlanState) (bindings : Bindings) (front back : List TriplePattern) :
    (findSeed s bindings (front ++ back)).outcome =
      (findSeed s bindings front).outcome >>= fun
        | (none, _, _) => (findSeed s bindings back).outcome
        | (some (seed, relation, others), s, bindings) =>
          .ok (some (seed, relation, others ++ back), s, bindings) := by
  induction front with
  | nil => rfl
  | cons t front ih =>
    rw [List.cons_append, findSeed_cons, findSeed_cons, ih]
    split
    next => rfl
    next => cases t.predicate <;> rfl

theorem Spare.seed (spare : Spare s bindings t) (predicate : Iri) (relation : Relation)
    (seed : TriplePattern) : Spare (s.settle bindings predicate seed)
      (Plan.addBindings bindings (JoinTree.leafVariables (relation, seed))) t where
  planned := by
    simp only [PlanState.settle, PlanState.await_planned]
    exact List.mem_append_left _ spare.planned
  joinable := isJoinable_addBindings _ spare.joinable

theorem planPattern_spare (spare : Spare s bindings t) (filters : q.filters = p.filters)
    (triples : p.triples = front ++ back) (inserted : q.triples = front ++ t :: back) :
    (planPattern s bindings q).outcome = (planPattern s bindings p).outcome := by
  rw [planPattern_outcome, planPattern_outcome, triples, inserted, filters, findSeed_append,
    findSeed_append]
  cases found : (findSeed s bindings front).outcome with
  | error e => rfl
  | ok found' =>
    obtain ⟨seed, s', bindings'⟩ := found'
    cases seed with
    | none =>
      simp only [ok_bind, findSeed_cons, if_pos spare.planned]
    | some seed =>
      obtain ⟨seed, relation, others⟩ := seed
      obtain ⟨_, predicate, _, _, _, _, _, rfl, rfl⟩ := findSeed_some.mp found
      have later := spare.seed predicate relation seed
      simp only [ok_bind, concludePattern]
      rw [Growth.extend_spare later]

theorem planPattern_repeated (same : u.Same t)
    (joinable : t.folded ∈ s.planned → Growth.isJoinable bindings t = true)
    (filters : q.filters = p.filters) (triples : p.triples = front ++ t :: (middle ++ back))
    (repeated : q.triples = front ++ t :: (middle ++ u :: back)) :
    SameAnswer (planPattern s bindings q).outcome (planPattern s bindings p).outcome := by
  by_cases known : t.folded ∈ s.planned
  · have spare : Spare s bindings u := Spare.same ⟨known, joinable known⟩ same
    rw [← List.cons_append, ← List.append_assoc] at triples repeated
    exact .of_eq (planPattern_spare spare filters triples repeated)
  · rw [planPattern_outcome, planPattern_outcome, triples, repeated, filters, findSeed_append,
      findSeed_append, findSeed_cons, findSeed_cons, if_neg known, if_neg known]
    cases found : (findSeed s bindings front).outcome with
    | error e => rfl
    | ok found' =>
      obtain ⟨seed, s', bindings'⟩ := found'
      cases seed with
      | none =>
        cases mapped : t.predicate with
        | «variable» v => rfl
        | iri predicate =>
          have spare : Spare (s.settle bindings predicate t) (Plan.addBindings bindings
              (JoinTree.leafVariables (s.aliases.relation predicate, t))) t := by
            refine ⟨?_, isJoinable_own _ _ t⟩
            simp [PlanState.settle]
          simp only [ok_bind, concludePattern]
          rw [Growth.extend_spare (spare.same same)]
          exact .of_eq rfl
      | some seed =>
        obtain ⟨seed, relation, others⟩ := seed
        simp only [ok_bind, concludePattern]
        exact (Growth.extend_repeated same others middle back).bind fun _ _ => rfl

end patterns

end GraphSql
