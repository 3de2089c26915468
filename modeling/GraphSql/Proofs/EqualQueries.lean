import GraphSql.Proofs.Planning.Lockstep
import GraphSql.Proofs.Planning.Residual
import GraphSql.Proofs.Planning.Spare
import GraphSql.Proofs.Sessions

namespace GraphSql
open Sql

-- Equal queries give statements that differ in the case of language tags and in the order of
-- conditions at most.

def SameConditions (cs ds : List Condition) : Prop :=
  ∀ c, c ∈ cs.map Condition.folded ↔ c ∈ ds.map Condition.folded

def Arrangement.Listed (a : Arrangement) (cs ds : List Condition) : Prop :=
  a.Agree (cs.map Condition.folded) (ds.map Condition.folded)

structure Sql.Select.Variant (clauses : List Condition → List Condition → Prop) (s t : Select) :
    Prop where
  columns : s.columns = t.columns
  source : JoinTree.Variant clauses s.source t.source
  conditions : clauses s.conditions t.conditions
  order : s.order = t.order

namespace Plan

-- The statements of equal queries. Only where two tables have one alias can a condition stand in
-- one of them more often than in the other.
inductive Matches (a : Arrangement) : Plan → Plan → Prop where
  | empty : Matches a .empty .empty
  | select (same : Select.Variant SameConditions s t)
      (listed : s.source.aliases.Nodup → Select.Variant a.Listed s t) :
      Matches a (.select s) (.select t)

end Plan

section clauses

variable {a : Arrangement} {cs ds : List Condition} {t u : JoinTree}

theorem Arrangement.Clauses.listed (clauses : a.Clauses cs ds) (left : ToldApart (· ∈ cs))
    (right : ToldApart (· ∈ ds)) : a.Listed cs ds := by
  obtain ⟨xs, ys, first, second, agree⟩ := clauses.sources
  have folded : ∀ cs xs : List Condition, cs.Nodup → distinct cs = distinct xs →
      ToldApart (· ∈ cs) → cs.map Condition.folded = distinct (xs.map Condition.folded) := by
    intro cs xs apart same told
    rw [distinct_of_nodup apart] at same
    subst same
    exact map_distinct fun one first two second =>
      told one two ((mem_distinct _ _).mpr first) ((mem_distinct _ _).mpr second)
  unfold Arrangement.Listed
  rw [folded cs xs clauses.left first left, folded ds ys clauses.right second right]
  exact agree.distinct

namespace Sql.JoinTree.Variant

theorem sameConditions (variant : Variant a.Clauses t u) : Variant SameConditions t u := by
  induction variant with
  | table same => exact .table same
  | group first ih => exact .group ih
  | join init last on first second => exact .join first second on.sources.mem_iff

theorem listed (variant : Variant a.Clauses t u) (left : t.ToldApart) (right : u.ToldApart) :
    Variant a.Listed t u := by
  induction variant with
  | table same => exact .table same
  | group first ih => exact .group (ih left right)
  | join init last on first second =>
    exact .join (first left.1 right.1) (second left.2.1 right.2.1) (on.listed left.2.2 right.2.2)

end Sql.JoinTree.Variant

end clauses

namespace PlanState

variable {a : Arrangement} {s t : PlanState}

theorem Variant.sameConditions (variant : Variant a s t) :
    SameConditions s.waiting t.waiting := by
  have entries := variant.pending
  unfold PlanState.waiting
  generalize s.pending = pending at entries
  generalize t.pending = others at entries
  induction entries with
  | nil => exact fun c => Iff.rfl
  | cons first rest ih =>
    intro c
    have one := first.conditions.sources.mem_iff c
    simp only [List.flatMap_cons, List.map_append, List.mem_append, one, ih c]

theorem Variant.listed (variant : Variant a s t)
    (left : ∀ aliasName, ToldApart (s.Waits aliasName))
    (right : ∀ aliasName, ToldApart (t.Waits aliasName)) : a.Listed s.waiting t.waiting := by
  have told : ∀ s : PlanState, (∀ aliasName, ToldApart (s.Waits aliasName)) →
      ∀ entry ∈ s.pending, ToldApart (· ∈ entry.conditions) :=
    fun s told entry member => (told entry.aliasName).mono fun c held => ⟨entry, member, rfl, held⟩
  have entries := variant.pending
  have first := told s left
  have second := told t right
  unfold Arrangement.Listed PlanState.waiting
  generalize s.pending = pending at entries first
  generalize t.pending = others at entries second
  induction entries with
  | nil => exact Arrangement.agree_of_eq rfl
  | cons entry rest ih =>
    rw [List.flatMap_cons, List.flatMap_cons, List.map_append, List.map_append]
    refine (entry.conditions.listed (first _ List.mem_cons_self)
      (second _ List.mem_cons_self)).append (ih ?_ ?_)
    · exact fun other member => first other (List.mem_cons_of_mem _ member)
    · exact fun other member => second other (List.mem_cons_of_mem _ member)

end PlanState

namespace Plan

variable {a : Arrangement} {tables : TableMap} {query other : Query}

theorem Variant.matches {p q : Progress} {tree tree' : JoinTree} (variant : Variant a p q)
    (held : p.tree = some tree) (held' : q.tree = some tree')
    (trees : JoinTree.Variant a.Clauses tree tree')
    (telling : p.aliases.Nodup → Telling p) (telling' : q.aliases.Nodup → Telling q)
    (columns : List Column) (order : Option (Column × SortOrder)) :
    Matches a (.select ⟨columns, tree, p.state.waiting, order⟩)
      (.select ⟨columns, tree', q.state.waiting, order⟩) := by
  refine .select ⟨rfl, trees.sameConditions, variant.state.sameConditions, rfl⟩ fun apart => ?_
  have told := telling (Progress.aliases_of_tree held ▸ apart)
  have told' := telling' (Progress.aliases_of_tree held' ▸ trees.aliases ▸ apart)
  exact ⟨rfl, trees.listed (told.tree tree held) (told'.tree tree' held'),
    variant.state.listed told.waiting told'.waiting, rfl⟩

theorem ofQuery_matches (same : query.Same a other) (targets : List String)
    (order : Option (String × SortOrder)) :
    Answers (Matches a) (ofQuery tables query targets order).outcome
      (ofQuery tables other targets order).outcome := by
  rw [ofQuery_outcome, ofQuery_outcome]
  have first := addEach_variant (fun _ _ _ _ => addRequired_variant) same.required
    (variant_start a tables)
  refine first.bind fun base base' ran ran' variant => ?_
  have second := addEach_variant (fun _ _ _ _ => addOptional_variant) same.optional variant.turn
  refine second.bind fun full full' run run' variant => ?_
  rcases variant.trees with ⟨held, held'⟩ | ⟨tree, tree', held, held', trees⟩
  · simp only [held, held']
    exact .ok .empty
  · have residual := PlanState.residual_drainPending
      (optionalWithin_optional (p := base.turn) (optionalWithin_required ran).2 run)
    have residual' := PlanState.residual_drainPending
      (optionalWithin_optional (p := base'.turn) (optionalWithin_required ran').2 run')
    simp only [held, held', finish_outcome, residual, residual', ok_bind, variant.all]
    split
    next => exact .error rfl
    next =>
      refine (answers_of_eq rfl).bind fun columns _ _ _ same => ?_
      subst same
      refine (answers_of_eq rfl).bind fun order _ _ _ same => ?_
      subst same
      exact .ok (variant.matches held held' trees (telling_planned ran run)
        (telling_planned ran' run') columns order)

end Plan

namespace Session

theorem compile_matches {a : Arrangement} {query other : Query} (same : query.Same a other)
    (tables : TableMap) (targets : List String) (ordering : Option (String × Bool))
    (dialect : Dialect) :
    Answers (fun one two => one.targets = two.targets ∧ one.dialect = two.dialect ∧
        ∃ plan plan' : Plan, one.statements = [plan.render dialect] ∧
          two.statements = [plan'.render dialect] ∧ plan.Matches a plan')
      (compile tables query targets ordering dialect).outcome
      (compile tables other targets ordering dialect).outcome := by
  rw [compile_outcome, compile_outcome]
  refine (answers_of_eq rfl).bind fun names _ _ _ equal => ?_
  subst equal
  refine (answers_of_eq rfl).bind fun order _ _ _ equal => ?_
  subst equal
  refine (Plan.ofQuery_matches same names order).bind fun plan plan' _ _ matched => ?_
  exact .ok ⟨rfl, rfl, plan, plan', rfl, rfl, matched⟩

end Session

namespace Hail

def hails : Iri := ⟨"urn:hails", by decide +kernel⟩

def meets : Iri := ⟨"urn:meets", by decide +kernel⟩

def speaker : Variable := ⟨"speaker", by decide +kernel⟩

def listener : Variable := ⟨"listener", by decide +kernel⟩

def word : Variable := ⟨"word", by decide +kernel⟩

def small : LanguageTag := ⟨"de", by decide⟩

def capital : LanguageTag := ⟨"DE", by decide⟩

def tables : TableMap := [(hails, "hails"), (meets, "meets")]

def greeted (word : NodePattern) : GraphPattern :=
  (GraphPattern.empty.addTriple ⟨.variable speaker, .iri hails, word⟩).addTriple
    ⟨.variable speaker, .iri meets, .variable listener⟩

def listenerIsNot (tag : LanguageTag) : Filter :=
  .ofSides (.nodeVariable (.tagged "ho" tag) listener) "<>"

def listenerIsNotSpeaker : Filter := .ofSides (.variablePair listener speaker) "<>"

def wordIs (operator : String) (node : Node) : Filter :=
  .ofSides (.variableNode word node) operator

def party (tag : LanguageTag) (one two : Filter) : Query :=
  ⟨[.pattern (((greeted (.node (.tagged "hi" tag))).addFilter one).addFilter two)],
    [.pattern ((GraphPattern.empty.addTriple
      ⟨.variable listener, .iri hails, .variable word⟩).addFilter
        (wordIs "=" (.tagged "hey" tag)))]⟩

def query : Query := party small listenerIsNotSpeaker (listenerIsNot small)

def other : Query := party capital (listenerIsNot capital) listenerIsNotSpeaker

theorem same : query.Same .unordered other := by
  refine ⟨.cons (.pattern ?_) .nil, .cons (.pattern ?_) .nil⟩
  all_goals decide +kernel

end Hail

theorem Session.compile_matches_party :
    Hail.query.Same .unordered Hail.other ∧
      (compile Hail.tables Hail.query ["speaker", "word"] (some ("word", true)) .mysql).outcome =
        .ok ⟨["SELECT hails.s, hails_1.o FROM hails JOIN meets ON (hails.s = meets.s" ++
          " AND meets.o <> hails.s AND '\"ho\"@de' <> meets.o)" ++
          " LEFT OUTER JOIN hails AS hails_1 ON (meets.o = hails_1.s" ++
          " AND hails_1.o = '\"hey\"@de') WHERE hails.o = '\"hi\"@de'" ++
          " ORDER BY hails_1.o DESC"], ["speaker", "word"], .mysql⟩ ∧
      (compile Hail.tables Hail.other ["speaker", "word"] (some ("word", true)) .mysql).outcome =
        .ok ⟨["SELECT hails.s, hails_1.o FROM hails JOIN meets ON (hails.s = meets.s" ++
          " AND '\"ho\"@DE' <> meets.o AND meets.o <> hails.s)" ++
          " LEFT OUTER JOIN hails AS hails_1 ON (meets.o = hails_1.s" ++
          " AND hails_1.o = '\"hey\"@DE') WHERE hails.o = '\"hi\"@DE'" ++
          " ORDER BY hails_1.o DESC"], ["speaker", "word"], .mysql⟩ ∧
      Answers (fun one two => one.targets = two.targets ∧ one.dialect = two.dialect ∧
          ∃ plan plan' : Plan, one.statements = [plan.render .mysql] ∧
            two.statements = [plan'.render .mysql] ∧ plan.Matches .unordered plan')
        (compile Hail.tables Hail.query ["speaker", "word"] (some ("word", true)) .mysql).outcome
        (compile Hail.tables Hail.other ["speaker", "word"] (some ("word", true)) .mysql).outcome :=
  ⟨Hail.same, by decide +kernel, by decide +kernel, compile_matches Hail.same _ _ _ _⟩

namespace Hail

def shared : TableMap := [(hails, "hails"), (meets, "hails")]

def greeting (tag : LanguageTag) : Query := ⟨[.pattern (greeted (.node (.tagged "hi" tag)))], []⟩

def choice (one two : Node) : Query :=
  ⟨[.pattern (((greeted (.variable word)).addFilter (wordIs "<>" one)).addFilter
    (wordIs "<>" two))], []⟩

def echo (tag : LanguageTag) : Query :=
  ⟨[.pattern (((greeted (.variable word)).addFilter (wordIs "=" (.tagged "hi" small))).addFilter
    (.ofSides (.variableNode listener (.tagged "hi" tag)) "="))], []⟩

def compiled (tables : TableMap) (query : Query) : Except PlanError Compiled :=
  (Session.compile tables query ["speaker"] none .postgres).outcome

def selects (text : String) : Except PlanError Compiled := .ok ⟨[text], ["speaker"], .postgres⟩

end Hail

-- The case of a language tag shows in the statement, and so does the order of filters. Where two
-- tables have one alias, two spellings of a condition count as two.
theorem Session.not_sameAnswer_of_same :
    ((Hail.greeting Hail.small).Same .unordered (Hail.greeting Hail.capital) ∧
      Hail.compiled Hail.tables (Hail.greeting Hail.small) = Hail.selects
        ("SELECT hails.s FROM hails JOIN meets ON (hails.s = meets.s)" ++
          " WHERE hails.o = '\"hi\"@de'") ∧
      Hail.compiled Hail.tables (Hail.greeting Hail.capital) = Hail.selects
        ("SELECT hails.s FROM hails JOIN meets ON (hails.s = meets.s)" ++
          " WHERE hails.o = '\"hi\"@DE'") ∧
      ¬ SameAnswer (Hail.compiled Hail.tables (Hail.greeting Hail.small))
        (Hail.compiled Hail.tables (Hail.greeting Hail.capital))) ∧
    ((Hail.choice (.plain "hi") (.plain "ho")).Same .unordered
        (Hail.choice (.plain "ho") (.plain "hi")) ∧
      Hail.compiled Hail.tables (Hail.choice (.plain "hi") (.plain "ho")) = Hail.selects
        ("SELECT hails.s FROM hails JOIN meets ON (hails.s = meets.s" ++
          " AND hails.o <> '\"hi\"' AND hails.o <> '\"ho\"')") ∧
      Hail.compiled Hail.tables (Hail.choice (.plain "ho") (.plain "hi")) = Hail.selects
        ("SELECT hails.s FROM hails JOIN meets ON (hails.s = meets.s" ++
          " AND hails.o <> '\"ho\"' AND hails.o <> '\"hi\"')") ∧
      ¬ SameAnswer (Hail.compiled Hail.tables (Hail.choice (.plain "hi") (.plain "ho")))
        (Hail.compiled Hail.tables (Hail.choice (.plain "ho") (.plain "hi")))) ∧
    (Hail.echo Hail.small).Same .unordered (Hail.echo Hail.capital) ∧
      Hail.compiled Hail.shared (Hail.echo Hail.small) = Hail.selects
        "SELECT hails.s FROM hails JOIN hails ON (hails.o = '\"hi\"@de')" ∧
      Hail.compiled Hail.shared (Hail.echo Hail.capital) = Hail.selects
        ("SELECT hails.s FROM hails JOIN hails" ++
          " ON (hails.o = '\"hi\"@de' AND hails.o = '\"hi\"@DE')") ∧
      ¬ SameAnswer (Hail.compiled Hail.shared (Hail.echo Hail.small))
        (Hail.compiled Hail.shared (Hail.echo Hail.capital)) := by
  have single : ∀ p q : GraphPattern, p.Same .unordered q →
      Query.Same .unordered ⟨[.pattern p], []⟩ ⟨[.pattern q], []⟩ :=
    fun p q same => ⟨.cons (.pattern same) .nil, .nil⟩
  unfold SameAnswer
  refine ⟨⟨single _ _ ?_, ?_, ?_, ?_⟩, ⟨single _ _ ?_, ?_, ?_, ?_⟩, single _ _ ?_, ?_, ?_, ?_⟩
  all_goals decide +kernel

end GraphSql
