import Mathlib.Data.List.Find
import GraphSql.Proofs.Meaning.Branches

namespace GraphSql
open Sql

-- The rows of a statement with optional elements: each row of the required tables, with the ways to
-- complete it for each optional element.

-- The value of a variable: the given one, or else the one in the first element that has it.
def chosen (ρ : Assignment) (picks : List (Element × Assignment)) : Assignment :=
  fun name => (ρ name).or
    ((picks.find? fun pick => name ∈ pick.1.names).bind fun pick => pick.2 name)

namespace Sql.Select

def requiredRows (db : Database) (ops : Operators) (statement : Select) : Multiset Row :=
  (db.combinations statement.source.core.leaves).filter fun row =>
    ∀ c ∈ statement.source.core.conditions ++ statement.conditions, c.holds ops row

def given (statement : Select) (row : Row) : Assignment := .ofRow statement.source.core.held row

end Sql.Select

namespace Sql.JoinTree

variable {t : JoinTree} {names : List String}

theorem core_branches (t : JoinTree) (bs : List Branch) : (t.branches bs).core = t.core := by
  induction bs using List.reverseRecOn with
  | nil => rfl
  | append_singleton bs b ih =>
    rw [branches_concat, ← ih]
    unfold branch
    cases b.joined <;> rfl

theorem visible_of_branches {bs : List Branch} (visible : (t.branches bs).Visible names) :
    t.Visible names := by
  induction bs using List.reverseRecOn with
  | nil => exact visible
  | append_singleton bs b ih =>
    rw [branches_concat] at visible
    unfold branch at visible
    cases joined : b.joined with
    | none =>
      rw [joined] at visible
      exact ih visible
    | some joined' =>
      rw [joined] at visible
      exact ih visible.1

theorem visible_of_branch {earlier later : List Branch} {b : Branch} {member : JoinTree}
    {on : List Condition} (visible : (t.branches (earlier ++ b :: later)).Visible [])
    (joined : b.joined = some (member, on)) : member.Visible (t.branches earlier).aliases := by
  have split : t.branches (earlier ++ b :: later) =
      ((t.branches earlier).branch b).branches later := by
    simp [branches]
  rw [split] at visible
  have here := visible_of_branches visible
  unfold branch at here
  rw [joined] at here
  exact here.2.1

end Sql.JoinTree

section lookup

variable {row between : Row} {picks : List (Branch × Row)}

theorem lookup_picks (name : String)
    (held : ∀ pick ∈ picks, (pick.2.map (·.1)) = pick.1.aliases)
    (apart : (picks.flatMap (·.1.aliases)).Nodup)
    (away : ∀ aliasName ∈ picks.flatMap (·.1.aliases), aliasName ∉ (row ++ between).map (·.1)) :
    ((picks.flatMap (·.1.held)).lookup name).bind
        (Row.cell (row ++ between ++ picks.flatMap (·.2))) =
      (picks.find? fun pick => (pick.1.held.lookup name).isSome).bind fun pick =>
        (pick.1.held.lookup name).bind (Row.cell (row ++ pick.2)) := by
  -- `between` takes up the rows of the picks that do not hold the name.
  induction picks generalizing between with
  | nil => rfl
  | cons pick rest ih =>
    rw [List.flatMap_cons] at apart away
    obtain ⟨_, apart, differ⟩ := List.nodup_append.mp apart
    have names := held pick (List.mem_cons_self ..)
    rw [List.flatMap_cons, List.lookup_append, List.find?_cons]
    cases looked : pick.1.held.lookup name with
    | some column =>
      have own : column.table ∈ pick.1.aliases := JoinTree.table_of_leaves (mem_of_lookup looked)
      have other := away _ (List.mem_append_left _ own)
      have required : column.table ∉ row.map (·.1) := by
        intro old
        exact other (by rw [List.map_append]; exact List.mem_append_left _ old)
      simp only [Option.some_or, Option.bind_some, Option.isSome_some, List.flatMap_cons, looked]
      rw [cell_append_right _ other, cell_append_left (names ▸ own), cell_append_right _ required]
    | none =>
      have further : ∀ aliasName ∈ rest.flatMap (·.1.aliases),
          aliasName ∉ (row ++ (between ++ pick.2)).map (·.1) := by
        intro aliasName member old
        rw [← List.append_assoc, List.map_append, names] at old
        rcases List.mem_append.mp old with old | mine
        · exact away aliasName (List.mem_append_right _ member) old
        · exact differ _ mine _ member rfl
      have names' : ∀ other ∈ rest, other.2.map (·.1) = other.1.aliases :=
        fun other member => held other (List.mem_cons_of_mem _ member)
      have later := ih names' apart further
      simpa using later

end lookup

namespace Plan

variable {tables : TableMap} {required : List Element} {base p : Progress} {bs : List Branch}
  {b : Branch} {before : List Element} {db : Database} {ops : Operators} {row : Row}

structure Layout (tables : TableMap) (query : Query) (targets : List String) (statement : Select)
    (base p : Progress) (bs : List Branch) : Prop where
  known : Required tables query.required base
  allowed : Allowed tables query.required base bs p
  tree : base.tree = some statement.source.core
  source : statement.source = statement.source.core.branches bs
  elements : query.optional = bs.map Branch.element
  columns : targets.mapM (columnOf p.all) = .ok statement.columns
  waiting : ∀ c, c ∈ statement.conditions ↔ ∃ aliasName, base.state.Waits aliasName c
  visible : statement.source.Visible []
  apart : statement.source.aliases.Nodup

theorem exists_layout {query : Query} {targets : List String}
    {order : Option (String × SortOrder)} {statement : Select}
    (planned : (ofQuery tables query targets order).outcome = .ok (.select statement))
    (apart : statement.source.aliases.Nodup) :
    ∃ base p bs, Layout tables query targets statement base p bs := by
  have visible : statement.source.Visible [] :=
    (scope_planned planned).visible fun _ none => none.elim
  obtain ⟨base, p, required, optional, tree, -, columns, residual, -⟩ := ofQuery_select.mp planned
  have known := required_run required
  have aliases : p.aliases = statement.source.aliases := by
    simp [Progress.aliases, Progress.leaves, tree, JoinTree.aliases]
  obtain ⟨bs, elements, allowed⟩ := allowed_run known optional (aliases ▸ apart)
  have joined := allowed.tree
  rw [tree] at joined
  cases start : base.tree with
  | none => simp [start] at joined
  | some t =>
    rw [start, Option.map_some, Option.some.injEq] at joined
    have core : statement.source.core = t := by
      rw [joined, JoinTree.core_branches, JoinTree.core_of_isInner (known.inner t start)]
    refine ⟨base, p, bs, known, allowed, core ▸ start, core ▸ joined, elements, columns, ?_,
      visible, apart⟩
    intro c
    rw [PlanState.mem_of_residual residual]
    exact exists_congr fun aliasName => allowed.waits aliasName c

section layout

variable {query : Query} {targets : List String} {statement : Select}
  (layout : Layout tables query targets statement base p bs)

include layout

theorem Layout.leaves : base.leaves = statement.source.core.leaves := by
  simp [Progress.leaves, layout.tree]

theorem Layout.core_aliases : base.aliases = statement.source.core.aliases := by
  rw [Progress.aliases, layout.leaves]
  rfl

theorem Layout.has_iff (c : Condition) :
    c ∈ statement.source.core.conditions ++ statement.conditions ↔ base.Has c := by
  rw [List.mem_append, layout.waiting, Progress.Has, Progress.conditions, layout.tree]
  rfl

theorem Layout.mem_requiredRows :
    row ∈ statement.requiredRows db ops ↔
      row ∈ db.combinations base.leaves ∧ ∀ c, base.Has c → c.holds ops row = true := by
  unfold Select.requiredRows
  rw [Multiset.mem_filter, layout.leaves]
  simp only [layout.has_iff]

theorem Layout.given_eq (row : Row) : statement.given row = .ofRow base.required row := by
  funext name
  unfold Select.given Assignment.ofRow
  rw [layout.known.bound, lookup_addBindings, List.lookup_nil, Option.none_or, Progress.held,
    layout.leaves]
  rfl

theorem Layout.aliases : statement.source.aliases = base.aliases ++ bs.flatMap Branch.aliases := by
  rw [layout.source]
  unfold JoinTree.aliases Progress.aliases Branch.aliases
  rw [JoinTree.leaves_branches, List.map_append, List.map_flatMap, layout.leaves]

theorem Layout.aliases_apart : base.aliases.Nodup ∧ (bs.flatMap Branch.aliases).Nodup ∧
    ∀ one ∈ base.aliases, ∀ two ∈ bs.flatMap Branch.aliases, one ≠ two :=
  List.nodup_append.mp (layout.aliases ▸ layout.apart)

theorem Layout.branched_of_mem (member : b ∈ bs) :
    ∃ before after, query.optional = before ++ b.element :: after ∧
      Branched tables base (query.required ++ before) b := by
  obtain ⟨earlier, later, split⟩ := List.append_of_mem member
  refine ⟨earlier.map Branch.element, later.map Branch.element, ?_,
    layout.allowed.branched earlier b later split⟩
  rw [layout.elements, split, List.map_append, List.map_cons]

theorem Layout.beside (member : b ∈ bs) (present : row ∈ db.combinations base.leaves) :
    Block.Beside base.required b.leaves row := by
  obtain ⟨first, rest, differ⟩ := layout.aliases_apart
  refine ⟨(List.nodup_flatMap.mp rest).1 b member, ?_, layout.known.valued first present⟩
  intro leaf own old
  rw [Database.names_of_combination present] at old
  exact differ _ old _ (List.mem_flatMap.mpr ⟨b, member, List.mem_map.mpr ⟨leaf, own, rfl⟩⟩) rfl

theorem Layout.core_rows (db : Database) (ops : Operators) :
    (statement.source.core.rows db ops []).filter
        (fun row => ∀ c ∈ statement.conditions, c.holds ops row) =
      statement.requiredRows db ops := by
  have visible : statement.source.core.Visible [] := by
    have whole := layout.visible
    rw [layout.source] at whole
    exact JoinTree.visible_of_branches whole
  have inner := layout.known.inner _ layout.tree
  rw [@JoinTree.rows_of_isInner db ops _ [] inner visible, Multiset.filter_filter]
  refine Multiset.filter_congr fun row _ => ?_
  simp only [List.mem_append, or_imp, forall_and, List.nil_append]
  exact and_comm

theorem Layout.where_columns {c : Condition} (member : c ∈ statement.conditions) {column : Column}
    (used : column ∈ c.columns) : column.table ∈ statement.source.core.aliases := by
  have has : base.Has c := .inr ((layout.waiting c).mp member)
  rw [← layout.core_aliases]
  rcases (layout.known.sound c has).columns used with ⟨name, held⟩ | ⟨leaf, present, table⟩
  · exact JoinTree.table_of_leaves held
  · exact List.mem_map.mpr ⟨leaf, present, table.symm⟩

theorem Layout.branch_columns (member : b ∈ bs) {c : Condition} (present : c ∈ b.conditions)
    {column : Column} (used : column ∈ c.columns) :
    column.table ∈ statement.source.core.aliases ∨ column.table ∈ b.aliases := by
  obtain ⟨_, _, _, branched⟩ := layout.branched_of_mem member
  have sound := branched.sound c present
  rw [← layout.core_aliases]
  rcases sound.columns used with ⟨name, held⟩ | ⟨leaf, own, table⟩
  · rcases List.mem_append.mp held with old | new
    · exact .inl (JoinTree.table_of_leaves (layout.known.drawn _ old))
    · exact .inr (JoinTree.table_of_leaves new)
  · exact .inr (List.mem_map.mpr ⟨leaf, own, table.symm⟩)

theorem Layout.source_rows (db : Database) (ops : Operators) :
    statement.source.rows db ops [] =
      (statement.source.core.rows db ops []).bind fun row =>
        (choices (Branch.rows db ops · row) bs).map fun picks => row ++ picks.flatMap (·.2) := by
  refine (congrArg (fun t => t.rows db ops []) layout.source).trans ?_
  refine JoinTree.rows_branches ?_ ?_ layout.aliases_apart.2.1
  · intro earlier b later split member on joined
    refine ⟨(layout.allowed.branched earlier b later split).inner member on joined, ?_⟩
    have visible := layout.visible
    rw [layout.source, split] at visible
    exact JoinTree.visible_of_branch visible joined
  · intro b member c present column used
    exact layout.branch_columns member present used

theorem Layout.rows_eq (db : Database) (ops : Operators) :
    statement.rows db ops = (statement.requiredRows db ops).bind fun row =>
      (choices (Branch.rows db ops · row) bs).map fun picks =>
        statement.columns.map (Row.cell (row ++ picks.flatMap (·.2))) := by
  unfold Select.rows
  rw [layout.source_rows, Multiset.filter_bind, ← layout.core_rows, Multiset.bind_filter,
    Multiset.map_bind]
  refine Multiset.bind_congr fun row present => ?_
  have seen : ∀ (picks : List (Branch × Row)) c, c ∈ statement.conditions →
      c.holds ops (row ++ picks.flatMap (·.2)) = c.holds ops row := by
    intro picks c member
    refine holds_append_left fun column used => ?_
    rw [JoinTree.names_of_rows present]
    exact layout.where_columns member used
  rw [Multiset.filter_map]
  split
  next holds =>
    rw [Multiset.filter_eq_self.mpr, Multiset.map_map]
    · rfl
    · intro picks _ c member
      exact (seen picks c member).trans (holds c member)
  next fails =>
    rw [Multiset.filter_eq_nil.mpr]
    · rfl
    · intro picks _ all
      exact fails fun c member => (seen picks c member).symm.trans (all c member)

theorem Layout.covered (uniform : Uniform (query.required ++ query.optional))
    (disjoint : query.optional.Pairwise fun one two =>
      ∀ t ∈ one.triples, ∀ u ∈ two.triples, ¬ t.Same u) (member : b ∈ bs) :
    ∀ t ∈ b.pattern.triples, ∃ leaf ∈ b.leaves ++ base.leaves, leaf.2 = t := by
  obtain ⟨before, after, order, branched⟩ := layout.branched_of_mem member
  intro t used
  refine branched.exists_leaf layout.known (uniform.mono ?_) ?_ used
  · intro e among
    rw [order]
    rcases List.mem_append.mp among with old | last
    · rcases List.mem_append.mp old with required | early
      · exact List.mem_append_left _ required
      · exact List.mem_append_right _ (List.mem_append_left _ early)
    · cases List.mem_singleton.mp last
      exact List.mem_append_right _ (List.mem_append_right _ (List.mem_cons_self ..))
  · intro e early
    rw [order] at disjoint
    exact (List.pairwise_append.mp disjoint).2.2 e early b.element (List.mem_cons_self ..)

theorem Layout.held_isSome_iff (member : b ∈ bs)
    (covered : ∀ t ∈ b.pattern.triples, ∃ leaf ∈ b.leaves ++ base.leaves, leaf.2 = t)
    {name : String} (free : base.required.lookup name = none) :
    (b.held.lookup name).isSome ↔ name ∈ b.element.names := by
  obtain ⟨_, _, _, branched⟩ := layout.branched_of_mem member
  rw [lookup_isSome_iff, Branch.held, JoinTree.exists_held_iff]
  constructor
  · intro held
    obtain ⟨leaf, present, named⟩ := held
    exact List.mem_flatMap.mpr ⟨leaf.2, branched.among leaf present, named⟩
  · intro named
    obtain ⟨t, used, named⟩ := List.mem_flatMap.mp named
    obtain ⟨leaf, present, rfl⟩ := covered t used
    rcases List.mem_append.mp present with own | old
    · exact ⟨leaf, own, named⟩
    · have bound : (base.held.lookup name).isSome :=
        (lookup_isSome_iff _ _).mpr (JoinTree.exists_held_iff.mpr ⟨leaf, old, named⟩)
      rw [layout.known.bound, lookup_addBindings, List.lookup_nil, Option.none_or] at free
      rw [free] at bound
      cases bound

def valuesOf (base : Progress) (row : Row) (pick : Branch × Row) : Element × Assignment :=
  (pick.1.element, .ofRow (addBindings base.required pick.1.held) (row ++ pick.2))

theorem Layout.ofRow_all
    (covered : ∀ b ∈ bs, ∀ t ∈ b.pattern.triples, ∃ leaf ∈ b.leaves ++ base.leaves, leaf.2 = t)
    (present : row ∈ db.combinations base.leaves) {picks : List (Branch × Row)}
    (picked : picks ∈ choices (Branch.rows db ops · row) bs) :
    Assignment.ofRow p.all (row ++ picks.flatMap (·.2)) =
      chosen (.ofRow base.required row) (picks.map (valuesOf base row)) := by
  obtain ⟨items, each⟩ := items_of_choices picked
  obtain ⟨first, rest, differ⟩ := layout.aliases_apart
  have branches : picks.flatMap (·.1.aliases) = bs.flatMap Branch.aliases := by
    rw [← items, List.flatMap_map]
  have away : ∀ aliasName ∈ picks.flatMap (·.1.aliases),
      aliasName ∉ (row ++ [] : Row).map (·.1) := by
    rw [branches, List.append_nil, Database.names_of_combination present]
    intro aliasName own old
    exact differ _ old _ own rfl
  have names : ∀ pick ∈ picks, pick.2.map (·.1) = pick.1.aliases :=
    fun pick member => Branch.names_of_branch_rows (each pick member)
  funext name
  rw [Assignment.ofRow_apply, chosen, Assignment.ofRow_apply, layout.allowed.all]
  cases looked : base.required.lookup name with
  | some column =>
    have valued := layout.known.valued first present name column (mem_of_lookup looked)
    obtain ⟨text, cell⟩ := Option.isSome_iff_exists.mp valued
    have table : column.table ∈ row.map (·.1) := by
      rw [Database.names_of_combination present]
      exact JoinTree.table_of_leaves (layout.known.drawn _ (mem_of_lookup looked))
    rw [Option.some_or, Option.bind_some, cell_append_left table, Option.bind_some, cell,
      Option.some_or]
  | none =>
    have held : bs.flatMap Branch.held = picks.flatMap (·.1.held) := by
      rw [← items, List.flatMap_map]
    have read := lookup_picks name names (branches ▸ rest) away
    rw [List.append_nil] at read
    rw [Option.none_or, Option.bind_none, Option.none_or, held, read, List.find?_map]
    have same : picks.find? ((fun pick => decide (name ∈ pick.1.names)) ∘ valuesOf base row) =
        picks.find? fun pick => (pick.1.held.lookup name).isSome := by
      refine List.find?_congr fun pick member => ?_
      have among : pick.1 ∈ bs := items ▸ List.mem_map.mpr ⟨pick, member, rfl⟩
      rw [Bool.eq_iff_iff, layout.held_isSome_iff among (covered _ among) looked]
      exact decide_eq_true_iff
    rw [same, Option.bind_map]
    refine congrArg _ (funext fun pick => ?_)
    change _ = Assignment.ofRow (addBindings base.required pick.1.held) (row ++ pick.2) name
    rw [Assignment.ofRow_apply, lookup_addBindings, looked, Option.none_or]

theorem Layout.exists_solutions (uniform : Uniform query.required)
    (owned : FiltersOwned query.required) (db : Database) (ops : Operators) :
    ∃ solutions : Finset Assignment,
      (∀ σ, σ ∈ solutions ↔ σ.Solves db ops tables query.required) ∧
      (statement.requiredRows db ops).map statement.given = solutions.val := by
  have beside : Block.Beside [] base.leaves [] := ⟨layout.aliases_apart.1, by simp, by simp⟩
  obtain ⟨solutions, exact_, same⟩ :=
    (layout.known.block owned).exists_extensions beside db ops _ layout.has_iff
  refine ⟨solutions, ?_, ?_⟩
  · intro σ
    rw [exact_, layout.known.toOutline.extends_iff uniform]
  · rw [same, layout.leaves]
    exact Multiset.map_congr rfl fun row _ => layout.given_eq row

theorem Layout.completions_exact (uniform : Uniform (query.required ++ query.optional))
    (disjoint : query.optional.Pairwise fun one two =>
      ∀ t ∈ one.triples, ∀ u ∈ two.triples, ¬ t.Same u)
    (pairs : ∀ before pattern after, query.optional = before ++ .pattern pattern :: after →
      (∃ f ∈ pattern.filters, f.vars.length = 2) →
      2 ≤ (ownTriples (query.required ++ before) pattern).length)
    (present : row ∈ statement.requiredRows db ops) (member : b ∈ bs) :
    (∀ σ, σ ∈ Assignment.completions db ops tables (statement.given row) b.element ↔
      Assignment.Completes db ops tables (statement.given row) b.element σ) ∧
    (b.rows db ops row).map (fun more => (valuesOf base row (b, more)).2) =
      orGiven (statement.given row)
        (Assignment.completions db ops tables (statement.given row) b.element) := by
  obtain ⟨combined, holds⟩ := layout.mem_requiredRows.mp present
  obtain ⟨before, after, order, branched⟩ := layout.branched_of_mem member
  have two : (∃ f ∈ b.pattern.filters, f.vars.length = 2) → 2 ≤ b.leaves.length := by
    intro pair
    have length := branched.own.length_eq
    rw [List.length_map] at length
    rw [length]
    exact pairs before b.pattern after order pair
  have meets : ∀ leaf ∈ base.leaves,
      Assignment.Meets db tables (.ofRow base.required row) leaf.2 :=
    fun leaf old => layout.known.meets layout.aliases_apart.1 combined holds old
  obtain ⟨completions, listed, same⟩ := branched.exists_completions layout.known
    (layout.covered uniform disjoint member) two meets (layout.beside member combined)
  rw [layout.given_eq, Assignment.completions_eq listed]
  exact ⟨listed, same⟩

end layout

end Plan

-- With no two tables under one alias and no triple in two optional elements, the rows of a
-- statement are the rows of its required tables, each with all ways to pick, for every optional
-- element on its own, a completion of the required values, or those values alone if there is none.
theorem rows_eq_completions {tables : TableMap} {query : Query} {targets : List String}
    {order : Option (String × SortOrder)} {statement : Select}
    (planned : (Plan.ofQuery tables query targets order).outcome = .ok (.select statement))
    (apart : statement.source.aliases.Nodup)
    (uniform : Uniform (query.required ++ query.optional))
    (disjoint : query.optional.Pairwise fun one two =>
      ∀ t ∈ one.triples, ∀ u ∈ two.triples, ¬ t.Same u)
    (pairs : ∀ before pattern after, query.optional = before ++ .pattern pattern :: after →
      (∃ f ∈ pattern.filters, f.vars.length = 2) →
      2 ≤ (ownTriples (query.required ++ before) pattern).length)
    (db : Database) (ops : Operators) :
    (∀ t, (∃ leaf ∈ statement.source.core.leaves, leaf.2 = t) ↔
      ∃ e ∈ query.required, t ∈ e.triples) ∧
    (FiltersOwned query.required → ∃ solutions : Finset Assignment,
      (∀ σ, σ ∈ solutions ↔ σ.Solves db ops tables query.required) ∧
      (statement.requiredRows db ops).map statement.given = solutions.val) ∧
    (∀ row ∈ statement.requiredRows db ops, ∀ e ∈ query.optional, ∀ σ,
      σ ∈ Assignment.completions db ops tables (statement.given row) e ↔
        Assignment.Completes db ops tables (statement.given row) e σ) ∧
    statement.rows db ops = (statement.requiredRows db ops).bind fun row =>
      (choices (fun e => orGiven (statement.given row)
        (Assignment.completions db ops tables (statement.given row) e)) query.optional).map
          fun picks => targets.map (chosen (statement.given row) picks) := by
  obtain ⟨base, p, bs, layout⟩ := Plan.exists_layout planned apart
  have required : Uniform query.required := uniform.mono fun _ => List.mem_append_left _
  refine ⟨?_, fun owned => layout.exists_solutions required owned db ops, ?_, ?_⟩
  · intro t
    rw [← layout.leaves]
    constructor
    · intro held
      obtain ⟨leaf, present, rfl⟩ := held
      exact layout.known.among leaf present
    · intro used
      obtain ⟨e, member, used⟩ := used
      exact layout.known.toOutline.exists_leaf required member used
  · intro row present e member
    rw [layout.elements] at member
    obtain ⟨b, among, rfl⟩ := List.mem_map.mp member
    exact (layout.completions_exact uniform disjoint pairs present among).1
  · rw [layout.rows_eq]
    refine Multiset.bind_congr fun row present => ?_
    -- Branch by branch, the rows are replaced by the assignments they stand for.
    have images := choices_map (Branch.rows db ops · row)
      (fun e => orGiven (statement.given row)
        (Assignment.completions db ops tables (statement.given row) e))
      Branch.element (fun b more => (Plan.valuesOf base row (b, more)).2)
      fun b member => (layout.completions_exact uniform disjoint pairs present member).2
    rw [layout.elements, images, Multiset.map_map]
    refine Multiset.map_congr rfl fun picks picked => ?_
    have combined := (layout.mem_requiredRows.mp present).1
    have covered : ∀ b ∈ bs, ∀ t ∈ b.pattern.triples,
        ∃ leaf ∈ b.leaves ++ base.leaves, leaf.2 = t :=
      fun b member => layout.covered uniform disjoint member
    rw [cells_eq_values layout.columns, layout.ofRow_all covered combined picked, layout.given_eq]
    rfl

namespace Friends

def drink : Variable := ⟨"drink", by decide +kernel⟩

def fourth : TriplePattern := ⟨.variable one, .iri likes, .variable drink⟩

def company : GraphPattern :=
  ((GraphPattern.empty.addTriple second).addTriple third).addFilter different

def party : Query :=
  ⟨[.pattern (GraphPattern.empty.addTriple first)],
    [.pattern company, .pattern (GraphPattern.empty.addTriple fourth)]⟩

def guests : List String := ["one", "two", "three", "drink"]

def partyStatement : Select where
  columns :=
    [⟨"knows", .subject⟩, ⟨"knows", .object⟩, ⟨"knows_1", .object⟩, ⟨"likes_1", .object⟩]
  source := .join
    (.join (.table ⟨"knows", "knows"⟩ first) .left
      (.join (.table ⟨"knows", "knows_1"⟩ second) .inner (.table ⟨"likes", "likes"⟩ third)
        [linked ⟨"knows_1", .object⟩ ⟨"likes", .subject⟩,
          ⟨.column ⟨"knows", .subject⟩, "!=", .column ⟨"knows_1", .object⟩⟩,
          fixed ⟨"likes", .object⟩ (.plain "tea")])
      [linked ⟨"knows", .object⟩ ⟨"knows_1", .subject⟩])
    .left (.table ⟨"likes", "likes_1"⟩ fourth)
    [linked ⟨"knows", .subject⟩ ⟨"likes_1", .subject⟩]
  conditions := []
  order := none

theorem party_planned : (Plan.ofQuery tables party guests none).outcome =
    .ok (.select partyStatement) := by
  decide +kernel

theorem party_pairs (before : List Element) (pattern : GraphPattern) (after : List Element)
    (split : party.optional = before ++ .pattern pattern :: after)
    (pair : ∃ f ∈ pattern.filters, f.vars.length = 2) :
    2 ≤ (ownTriples (party.required ++ before) pattern).length := by
  cases before with
  | nil =>
    cases split
    decide +kernel
  | cons _ before =>
    cases before with
    | nil =>
      cases split
      obtain ⟨f, used, _⟩ := pair
      cases used
    | cons _ before => simp [party] at split

end Friends

theorem rows_eq_completions_party :
    (Plan.ofQuery Friends.tables Friends.party Friends.guests none).outcome =
        .ok (.select Friends.partyStatement) ∧
      Friends.partyStatement.rows Friends.database Friends.operators =
        {[some "x", some "y", some "z", some "\"tea\""], [some "y", some "x", none, none],
          [some "y", some "z", none, none]} ∧
      Friends.partyStatement.rows Friends.database Friends.operators =
        (Friends.partyStatement.requiredRows Friends.database Friends.operators).bind fun row =>
          (choices (fun e => orGiven (Friends.partyStatement.given row)
            (Assignment.completions Friends.database Friends.operators Friends.tables
              (Friends.partyStatement.given row) e)) Friends.party.optional).map
                fun picks =>
                  Friends.guests.map (chosen (Friends.partyStatement.given row) picks) := by
  have uniform : Uniform (Friends.party.required ++ Friends.party.optional) := by
    unfold Uniform
    decide +kernel
  refine ⟨Friends.party_planned, by decide +kernel, ?_⟩
  exact (rows_eq_completions Friends.party_planned (by decide) uniform (by decide +kernel)
    Friends.party_pairs _ _).2.2.2

end GraphSql
