import GraphSql.Proofs.Planning.Statement
import GraphSql.Proofs.Planning.Telling
import GraphSql.Session

namespace GraphSql
open Sql

-- Sessions over time: what a session holds after any calls, some of which may have failed, and what
-- its statement then selects.

namespace Plan

variable {tables : TableMap} {query : Query} {done : List Element} {p next full : Progress}
  {element : Element}

def Ends (tables : TableMap) (query : Query) (full : Progress) : Prop :=
  ∃ base, (addEach addRequired (.start tables) query.required).outcome = .ok base ∧
    (addEach addOptional base.turn query.optional).outcome = .ok full

structure Anchored (tables : TableMap) (done : List Element) (p : Progress) : Prop
    extends Outline tables done p where
  first : ∀ name, p.all.lookup name = p.held.lookup name
  kept : ∀ name column, p.required.lookup name = some column → p.all.lookup name = some column

theorem anchored_turn (required : Required tables done p) : Anchored tables done p.turn := by
  refine ⟨required.toOutline.turn, ?_, fun _ _ => id⟩
  intro name
  have bound := lookup_addBindings [] p.held name
  rwa [← required.bound] at bound

theorem Anchored.allow (anchored : Anchored tables done p)
    (added : (addOptional p element).outcome = .ok next) :
    Anchored tables (done ++ [element]) next := by
  obtain ⟨pattern, init, found, s, bound, rfl, held, run, rfl⟩ := addOptional_exact.mp added
  have outline := anchored.toOutline.allow held run
  cases found with
  | none => exact ⟨outline, anchored.first, anchored.kept⟩
  | some member =>
    obtain ⟨left, grown, -⟩ := run.founded anchored.tidy
    have bound_eq : bound = addBindings p.required member.held := grown.bound
    have held_eq : (p.allow init (some member) s bound).held = p.held ++ member.held := by
      simp [Progress.allow, Progress.held, Progress.leaves, held, JoinTree.held]
    have all : ∀ name, (p.allow init (some member) s bound).all.lookup name =
        (p.all.lookup name).or (bound.lookup name) := lookup_addBindings p.all bound
    refine ⟨outline, ?_, ?_⟩
    · intro name
      rw [all, held_eq, List.lookup_append, ← anchored.first, bound_eq, lookup_addBindings]
      cases known : p.required.lookup name with
      | none => rfl
      | some column => rw [anchored.kept name column known, Option.some_or, Option.some_or]
    · intro name column known
      rw [all, anchored.kept name column known, Option.some_or]

theorem Ends.first {tree : JoinTree} (ends : Ends tables query full) (whole : full.tree = some tree)
    (name : String) : full.all.lookup name = tree.held.lookup name := by
  obtain ⟨base, required, optional⟩ := ends
  have anchored : Anchored tables (query.required ++ query.optional) full :=
    addEach_keeps (fun _ _ _ _ => Anchored.allow) (anchored_turn (required_run required)) optional
  rw [anchored.first, Progress.held, Progress.leaves, whole]
  rfl

end Plan

namespace Session

variable {tables : TableMap} {query : Query} {dialect : Dialect} {s : Session} {statement : Select}

inductive Call where
  | setTargets (texts : List String)
  | orderBy (text : String) (descending : Bool)
  | statements

def answered (answer : Except UsageError Unit) : Except PlanError (List String) :=
  (answer.map fun _ => []).mapError .usage

def call (s : Session) : Call → Except PlanError (List String) × Session
  | .setTargets texts => (answered (s.setTargets texts).1.outcome, (s.setTargets texts).2)
  | .orderBy text descending =>
    (answered (s.orderBy text descending).1, (s.orderBy text descending).2)
  | .statements => (s.statements.outcome, s)

def run (s : Session) (calls : List Call) : Session := calls.foldl (fun s c => (s.call c).2) s

-- The targets are different variables, written without a question mark, and the order is by one of
-- them.
structure Consistent (s : Session) : Prop where
  apart : s.targets.Nodup
  named : ∀ name ∈ s.targets, '?' ∉ name.toList ∧ ∃ v : Variable, v.name = name
  ordered : ∀ name direction, s.ordering = some (name, direction) → name ∈ s.targets

theorem markless (v : Variable) : '?' ∉ v.name.toList := by
  intro member
  have allowed := List.all_eq_true.mp v.valid.2 _ member
  revert allowed
  decide +kernel

theorem readTargets_ok {names texts found : List String}
    (read : readTargets names texts = .ok found) :
    ∃ more : List Variable, texts.mapM Variable.ofText = .ok more ∧
      found = names ++ more.map (·.name) ∧ (names.Nodup → found.Nodup) := by
  induction texts generalizing names with
  | nil =>
    cases read
    exact ⟨[], rfl, by simp, id⟩
  | cons text rest ih =>
    rw [readTargets] at read
    split at read
    next => cases read
    next v first =>
      obtain ⟨fresh, read⟩ := of_guard read
      obtain ⟨more, mapped, rfl, apart⟩ := ih read
      refine ⟨v :: more, ?_, by simp, fun known => apart ?_⟩
      · rw [List.mapM_cons, first, ok_bind, mapped]
        rfl
      · refine List.nodup_append.mpr ⟨known, by simp, ?_⟩
        intro one old two new same
        cases List.mem_singleton.mp new
        exact fresh (same ▸ old)

theorem consistent_start : (start tables query dialect).Consistent :=
  ⟨.nil, by simp [start], by simp [start]⟩

theorem Consistent.setTargets (consistent : s.Consistent) (texts : List String) :
    (s.setTargets texts).2.Consistent := by
  rcases s.setTargets_cases texts with ⟨e, -, same⟩ | ⟨names, read, same⟩
  · rw [same]
    exact consistent
  · rw [same]
    obtain ⟨more, -, rfl, apart⟩ := readTargets_ok read
    refine ⟨apart .nil, ?_, by simp⟩
    intro name member
    obtain ⟨v, -, rfl⟩ := List.mem_map.mp member
    exact ⟨markless v, v, rfl⟩

theorem Consistent.orderBy (consistent : s.Consistent) (text : String) (descending : Bool) :
    (s.orderBy text descending).2.Consistent := by
  rcases s.orderBy_cases text descending with ⟨-, same⟩ | ⟨held, same⟩
  · rw [same]
    exact consistent
  · rw [same]
    refine ⟨consistent.apart, consistent.named, ?_⟩
    intro name direction equal
    cases equal
    exact held

theorem Consistent.call (consistent : s.Consistent) (c : Call) : (s.call c).2.Consistent := by
  cases c with
  | setTargets texts => exact consistent.setTargets texts
  | orderBy text descending => exact consistent.orderBy text descending
  | statements => exact consistent

theorem Consistent.run (consistent : s.Consistent) (calls : List Call) :
    (s.run calls).Consistent := by
  induction calls generalizing s with
  | nil => exact consistent
  | cons c rest ih => exact ih (consistent.call c)

theorem answered_of_error {answer : Except UsageError Unit} {e : PlanError}
    (failed : answered answer = .error e) : ∃ cause, answer = .error cause := by
  cases answer with
  | error cause => exact ⟨cause, rfl⟩
  | ok done => cases failed

theorem setTargets_of_error {texts : List String} {e : UsageError}
    (failed : (s.setTargets texts).1.outcome = .error e) : (s.setTargets texts).2 = s := by
  rcases s.setTargets_cases texts with ⟨cause, -, same⟩ | ⟨names, -, same⟩
  · rw [same]
  · rw [same] at failed
    cases failed

theorem orderBy_of_error {text : String} {descending : Bool} {e : UsageError}
    (failed : (s.orderBy text descending).1 = .error e) : (s.orderBy text descending).2 = s := by
  rcases s.orderBy_cases text descending with ⟨-, same⟩ | ⟨-, same⟩
  · rw [same]
  · rw [same] at failed
    cases failed

theorem call_of_error {c : Call} {e : PlanError} (failed : (s.call c).1 = .error e) :
    (s.call c).2 = s := by
  cases c with
  | setTargets texts =>
    obtain ⟨cause, refused⟩ := answered_of_error failed
    exact setTargets_of_error refused
  | orderBy text descending =>
    obtain ⟨cause, refused⟩ := answered_of_error failed
    exact orderBy_of_error refused
  | statements => rfl

def About (tables : TableMap) (query : Query) (dialect : Dialect) (s : Session) : Prop :=
  s.tables = tables ∧ s.query = query ∧ s.dialect = dialect

theorem About.call (about : About tables query dialect s) (c : Call) :
    About tables query dialect (s.call c).2 := by
  cases c with
  | setTargets texts =>
    rcases s.setTargets_cases texts with ⟨cause, -, same⟩ | ⟨names, -, same⟩
    all_goals
      simp only [Session.call, same]
      exact about
  | orderBy text descending =>
    rcases s.orderBy_cases text descending with ⟨-, same⟩ | ⟨-, same⟩
    all_goals
      simp only [Session.call, same]
      exact about
  | statements => exact about

theorem About.run (about : About tables query dialect s) (calls : List Call) :
    About tables query dialect (s.run calls) := by
  induction calls generalizing s with
  | nil => exact about
  | cons c rest ih => exact ih (about.call c)

structure Selects (s : Session) (bindings : Bindings) (statement : Select) : Prop where
  columns : List.Forall₂ (fun name column => bindings.lookup name = some column) s.targets
    statement.columns
  ordered : ∀ column direction, statement.order = some (column, direction) →
    column ∈ statement.columns ∧
      ∃ name, s.ordering = some (name, direction) ∧ bindings.lookup name = some column
  unordered : s.ordering = none → statement.order = none
  apart : statement.source.aliases.Nodup → statement.columns.Nodup

theorem columns_apart {tree : JoinTree} {targets : List String} {columns : List Column}
    (selected : List.Forall₂ (fun name column => tree.held.lookup name = some column) targets
      columns)
    (names : targets.Nodup) (apart : tree.aliases.Nodup) : columns.Nodup := by
  have unique : Relator.BiUnique fun name column => tree.held.lookup name = some column := by
    constructor
    · intro one two column first second
      exact name_of_column apart (mem_of_lookup first) (mem_of_lookup second)
    · intro name one two first second
      exact Option.some.inj (first.symm.trans second)
  exact (List.rel_nodup unique selected).mp names

theorem exists_column {bindings : Bindings} {targets : List String} {columns : List Column}
    (selected : List.Forall₂ (fun name column => bindings.lookup name = some column) targets
      columns)
    {name : String} {column : Column} (target : name ∈ targets)
    (bound : bindings.lookup name = some column) : column ∈ columns := by
  obtain ⟨other, member, first⟩ := exists_of_forall₂ selected.flip target
  cases bound.symm.trans first
  exact member

theorem Consistent.selects (consistent : s.Consistent)
    (planned : (Plan.ofQuery tables query s.targets s.ordering).outcome = .ok (.select statement)) :
    ∃ full, Plan.Ends tables query full ∧ full.tree = some statement.source ∧
      s.Selects full.all statement := by
  obtain ⟨base, full, required, optional, whole, -, mapped, -, ordered⟩ :=
    Plan.ofQuery_select.mp planned
  have ends : Plan.Ends tables query full := ⟨base, required, optional⟩
  have columns := Plan.columns_ok mapped
  refine ⟨full, ends, whole, columns, ?_, ?_, ?_⟩
  · intro column direction same
    obtain ⟨name, asked, bound⟩ := Plan.orderOf_ok (same ▸ ordered)
    have target := consistent.ordered name direction asked
    exact ⟨exists_column columns target bound, name, asked, bound⟩
  · intro none
    rw [none] at ordered
    exact (Except.ok.inj ordered).symm
  · intro apart
    simp only [ends.first whole] at columns
    exact columns_apart columns consistent.apart apart

-- After any calls, whether they failed or not, the targets and the order fit together, a call that
-- fails changes neither, and a statement selects for each target the first column that holds it.
theorem consistent_of_run {calls : List Call}
    (reached : (start tables query dialect).run calls = s) :
    s.Consistent ∧
      (∀ c e, (s.call c).1 = .error e →
        (s.call c).2.targets = s.targets ∧ (s.call c).2.ordering = s.ordering) ∧
      ∀ statement,
        (Plan.ofQuery tables query s.targets s.ordering).outcome = .ok (.select statement) →
        (s.call .statements).1 = .ok [statement.render dialect] ∧
          ∃ full, Plan.Ends tables query full ∧
            (∀ name, full.all.lookup name = statement.source.held.lookup name) ∧
            s.Selects full.all statement := by
  subst reached
  have consistent : ((start tables query dialect).run calls).Consistent :=
    consistent_start.run calls
  refine ⟨consistent, ?_, ?_⟩
  · intro c e failed
    rw [call_of_error failed]
    exact ⟨rfl, rfl⟩
  · intro statement planned
    obtain ⟨full, ends, whole, selects⟩ := consistent.selects planned
    refine ⟨?_, full, ends, ends.first whole, selects⟩
    have about : About tables query dialect (start tables query dialect) := ⟨rfl, rfl, rfl⟩
    obtain ⟨sameTables, sameQuery, sameDialect⟩ := about.run calls
    simp only [call, statements, plan, sameTables, sameQuery, sameDialect, Logged.outcome_bind_ok]
    exact ⟨_, planned, rfl⟩

def chosenOrder (names : List String) :
    Option (String × Bool) → Except UsageError (Option (String × SortOrder))
  | none => .ok none
  | some (target, descending) =>
    if Variable.bareName target ∈ names then
      .ok (some (Variable.bareName target, .ofDescending descending))
    else .error (.orderByNonTarget (Variable.bareName target))

theorem chosenOrder_ok {names : List String} {ordering : Option (String × Bool)}
    {order : Option (String × SortOrder)} (chosen : chosenOrder names ordering = .ok order) :
    order = ordering.map fun entry => (Variable.bareName entry.1, .ofDescending entry.2) := by
  cases ordering with
  | none =>
    cases chosen
    rfl
  | some entry =>
    rw [chosenOrder] at chosen
    split at chosen
    next =>
      cases chosen
      rfl
    next => cases chosen

theorem compile_outcome (tables : TableMap) (query : Query) (targets : List String)
    (ordering : Option (String × Bool)) (dialect : Dialect) :
    (compile tables query targets ordering dialect).outcome =
      (readTargets [] targets).mapError .usage >>= fun names =>
        (chosenOrder names ordering).mapError .usage >>= fun order =>
          (Plan.ofQuery tables query names order).outcome >>= fun plan =>
            .ok ⟨[plan.render dialect], names, dialect⟩ := by
  rcases (start tables query dialect).setTargets_cases targets with
    ⟨e, read, same⟩ | ⟨names, read, same⟩
  · simp only [compile, same, read]
    rfl
  · simp only [compile, same, read, Logged.outcome_bind, Logged.outcome_mapError,
      Logged.outcome_report, Logged.outcome_ofExcept, mapError_of_ok, ok_bind, statements, plan]
    cases ordering with
    | none =>
      simp only [ordered, chosenOrder, mapError_of_ok, ok_bind, start, Logged.outcome_pure]
      cases (Plan.ofQuery tables query names none).outcome <;> rfl
    | some ordering =>
      obtain ⟨target, descending⟩ := ordering
      simp only [ordered, orderBy, chosenOrder, start]
      split
      next =>
        simp only [mapError_of_ok, ok_bind, Logged.outcome_pure]
        cases (Plan.ofQuery tables query names
          (some (Variable.bareName target, .ofDescending descending))).outcome <;> rfl
      next => rfl

end Session

namespace Roster

def keeps : Iri := ⟨"urn:roster:keeps", by decide +kernel⟩

def dines : Iri := ⟨"urn:roster:dines", by decide +kernel⟩

def tables : TableMap := [(keeps, "keeps"), (dines, "dines")]

def porter : Variable := ⟨"porter", by decide +kernel⟩

def lodge : Variable := ⟨"lodge", by decide +kernel⟩

def supper : Variable := ⟨"supper", by decide +kernel⟩

def keeping : TriplePattern := ⟨.variable porter, .iri keeps, .variable lodge⟩

def dining : TriplePattern := ⟨.variable porter, .iri dines, .variable supper⟩

def query : Query :=
  ⟨[.pattern (GraphPattern.empty.addTriple keeping)],
    [.pattern (GraphPattern.empty.addTriple dining)]⟩

-- The third call repeats a target after a good one, and the fourth orders by no target.
def calls : List Session.Call :=
  [.setTargets ["?supper", "porter"], .orderBy "?porter" true,
    .setTargets ["lodge", "supper", "?lodge"], .orderBy "lodge" false, .statements]

def session : Session := (Session.start tables query .mysql).run calls

theorem held : session.targets = ["supper", "porter"] ∧
    session.ordering = some ("porter", .descending) := by
  decide +kernel

def statement : Select where
  columns := [⟨"dines", .object⟩, ⟨"keeps", .subject⟩]
  source := .join (.table ⟨"keeps", "keeps"⟩ keeping) .left (.table ⟨"dines", "dines"⟩ dining)
    [linked ⟨"keeps", .subject⟩ ⟨"dines", .subject⟩]
  conditions := []
  order := some (⟨"keeps", .subject⟩, .descending)

theorem planned :
    (Plan.ofQuery tables query session.targets session.ordering).outcome =
      .ok (.select statement) := by
  rw [held.1, held.2]
  decide +kernel

end Roster

theorem Session.consistent_of_run_roster :
    (Session.start Roster.tables Roster.query .mysql).run Roster.calls = Roster.session ∧
      Roster.session.targets = ["supper", "porter"] ∧ Roster.session.Consistent ∧
      (Roster.session.call .statements).1 = .ok [Roster.statement.render .mysql] ∧
      ∃ full, Plan.Ends Roster.tables Roster.query full ∧
        Roster.session.Selects full.all Roster.statement := by
  have reached : (Session.start Roster.tables Roster.query .mysql).run Roster.calls =
      Roster.session := rfl
  obtain ⟨consistent, -, selected⟩ := Session.consistent_of_run reached
  obtain ⟨answer, full, ends, -, selects⟩ := selected _ Roster.planned
  exact ⟨reached, Roster.held.1, consistent, answer, full, ends, selects⟩

end GraphSql
