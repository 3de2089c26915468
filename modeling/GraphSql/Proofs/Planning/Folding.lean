import Mathlib
import GraphSql.Proofs.NTriples.Codec
import GraphSql.Proofs.Planning.Conditions

namespace GraphSql
open Sql

-- Planning does not see the case of language tags. It shows in the texts of conditions only.

theorem LanguageTag.folded_folded (tag : LanguageTag) : tag.folded.folded = tag.folded := by
  have same : Text.foldCase (Text.foldCase tag.text) = Text.foldCase tag.text := by
    simp only [Text.foldCase, String.toList_ofList, List.map_map, Function.comp_def,
      Char.toLower_toLower_eq_toLower]
  simp only [folded, same]

theorem Node.folded_folded (n : Node) : n.folded.folded = n.folded := by
  cases n <;> simp [folded, LanguageTag.folded_folded]

namespace Sql

def foldText (text : String) : String :=
  match NTriples.readNode text.toList with
  | .ok n => n.folded.display
  | .error _ => text

theorem foldText_display (n : Node) : foldText n.display = n.folded.display := by
  rw [foldText, NTriples.readNode_display]

def Operand.folded : Operand → Operand
  | .column c => .column c
  | .value text => .value (foldText text)

def Condition.folded (c : Condition) : Condition := ⟨c.left.folded, c.operator, c.right.folded⟩

end Sql

theorem NodePattern.asVariable_folded (n : NodePattern) : n.folded.asVariable = n.asVariable := by
  cases n <;> rfl

theorem TriplePattern.Same.predicate {t u : TriplePattern} (same : t.Same u) :
    t.predicate = u.predicate :=
  (TriplePattern.mk.inj same).2.1

theorem TriplePattern.Same.folded {t u : TriplePattern} (same : t.Same u) : t.folded = u.folded :=
  same

section leaves

variable (bindings : Bindings) (relation : Relation) (t : TriplePattern)

theorem leafVariables_folded :
    JoinTree.leafVariables (relation, t.folded) = JoinTree.leafVariables (relation, t) := by
  simp only [JoinTree.leafVariables, TriplePattern.folded, NodePattern.asVariable_folded]

theorem leafVariables_same {t u : TriplePattern} (same : t.Same u) :
    JoinTree.leafVariables (relation, t) = JoinTree.leafVariables (relation, u) := by
  rw [← leafVariables_folded, same.folded, leafVariables_folded]

theorem isJoinable_folded :
    Growth.isJoinable bindings t.folded = Growth.isJoinable bindings t := by
  have node : ∀ n : NodePattern, isBound bindings n.folded = isBound bindings n := by
    intro n
    cases n <;> rfl
  simp only [Growth.isJoinable, TriplePattern.folded, node]

theorem ownCondition?_folded (column : Column) (n : NodePattern) :
    (PlanState.ownCondition? bindings column n.folded).map Condition.folded =
      (PlanState.ownCondition? bindings column n).map Condition.folded := by
  cases n with
  | «variable» v => rfl
  | node n =>
    simp only [NodePattern.folded, PlanState.ownCondition?, Option.map_some, Condition.folded,
      Condition.equal, Operand.folded, foldText_display, Node.folded_folded]

theorem ownConditions_folded :
    (PlanState.ownConditions bindings (relation, t.folded)).map Condition.folded =
      (PlanState.ownConditions bindings (relation, t)).map Condition.folded := by
  simp only [PlanState.ownConditions, TriplePattern.folded, PlanState.nodeVariables,
    NodePattern.asVariable_folded, List.map_append, ← Option.toList_map, ownCondition?_folded]

theorem equality?_folded (column : Column) (n : NodePattern) :
    Growth.equality? bindings column n.folded = Growth.equality? bindings column n := by
  simp only [Growth.equality?, NodePattern.asVariable_folded]

theorem equalities_folded :
    Growth.equalities bindings (relation, t.folded) = Growth.equalities bindings (relation, t) := by
  simp only [Growth.equalities, TriplePattern.folded, equality?_folded]

theorem seedCondition_folded (f : Filter) :
    seedCondition (relation, t.folded) f = seedCondition (relation, t) f := by
  simp only [seedCondition, seedColumn, TriplePattern.folded, NodePattern.asVariable_folded]

end leaves

section filters

variable (bindings : Bindings) (leaf : Relation × TriplePattern) (f : Filter)
  (filters : List Filter)

theorem Filter.vars_folded : f.folded.vars = f.vars := by
  unfold Filter.vars Filter.folded
  cases f.sides <;> rfl

theorem isReady_folded (joined : Bindings) :
    Growth.isReady bindings joined f.folded = Growth.isReady bindings joined f := by
  simp only [Growth.isReady, Filter.vars_folded]

theorem operand_folded (n : NodePattern) :
    (Growth.operand bindings n.folded).map Operand.folded =
      (Growth.operand bindings n).map Operand.folded := by
  cases n with
  | «variable» v => rfl
  | node n =>
    simp only [NodePattern.folded, Growth.operand, Except.map, Operand.folded, foldText_display,
      Node.folded_folded]

theorem condition_folded :
    (Growth.condition bindings f.folded).map Condition.folded =
      (Growth.condition bindings f).map Condition.folded := by
  have left : f.folded.left = f.left.folded := by
    unfold Filter.left Filter.folded
    cases f.sides <;> rfl
  have right : f.folded.right = f.right.folded := by
    unfold Filter.right Filter.folded
    cases f.sides <;> rfl
  have each : ∀ one two : NodePattern, ∀ operator,
      (do
        let left ← Growth.operand bindings one
        let right ← Growth.operand bindings two
        return Condition.compare left operator right : Except PlanError Condition).map
          Condition.folded =
      (do
        let left ← (Growth.operand bindings one).map Operand.folded
        let right ← (Growth.operand bindings two).map Operand.folded
        return Condition.compare left operator right : Except PlanError Condition) := by
    intro one two operator
    cases Growth.operand bindings one <;> cases Growth.operand bindings two <;> rfl
  simp only [Growth.condition, each, left, right, operand_folded]
  rfl

theorem map_placed :
    (Growth.placed bindings filters).map Condition.folded =
      (filters.map Filter.folded).filterMap fun f =>
        ((Growth.condition bindings f).map Condition.folded).toOption := by
  have option : ∀ x : Except PlanError Condition,
      x.toOption.map Condition.folded = (x.map Condition.folded).toOption := by
    intro x
    cases x <;> rfl
  simp only [Growth.placed, List.map_filterMap, List.filterMap_map, Function.comp_def, option,
    condition_folded]

theorem seedCondition_folded_filter :
    (seedCondition leaf f.folded).map (Option.map Condition.folded) =
      (seedCondition leaf f).map (Option.map Condition.folded) := by
  obtain ⟨sides, operator, trimmed⟩ := f
  cases sides with
  | variablePair v w => rfl
  | variableNode v n | nodeVariable n v =>
    simp only [seedCondition, Filter.folded, FilterSides.folded]
    cases seedColumn leaf.2 leaf.1 v with
    | error e => rfl
    | ok column =>
      simp only [Except.map, Option.map_some, Condition.folded, Condition.compare, Operand.folded,
        foldText_display, Node.folded_folded]

theorem map_attached :
    (attached leaf filters).map Condition.folded =
      (filters.map Filter.folded).filterMap fun f =>
        ((seedCondition leaf f).map (Option.map Condition.folded)).toOption.join := by
  have option : ∀ x : Except PlanError (Option Condition),
      x.toOption.join.map Condition.folded =
        (x.map (Option.map Condition.folded)).toOption.join := by
    intro x
    cases x with
    | error e => rfl
    | ok found => cases found <;> rfl
  simp only [attached, List.map_filterMap, List.filterMap_map, Function.comp_def, option,
    seedCondition_folded_filter]

end filters

end GraphSql
