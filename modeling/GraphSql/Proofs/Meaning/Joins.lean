import GraphSql.Proofs.Meaning.Rows
import GraphSql.Proofs.Planning.Optional
import GraphSql.Proofs.Scope

namespace GraphSql
open Sql

-- The rows of join trees with left joins. A table that is not matched has nulls, and an ON clause
-- in a nested member is read against the row that the member is joined to.

def nulls (names : List String) : Row := names.map fun name => (name, none)

def orNulls (names : List String) (found : Multiset Row) : Multiset Row :=
  if found = 0 then {nulls names} else found

def Sql.JoinTree.rows (db : Database) (ops : Operators) : JoinTree → Row → Multiset Row
  | .table relation _, _ =>
    (db.rows relation.name).val.map fun pair => [(relation.aliasName, some pair)]
  | .group first, outer => first.rows db ops outer
  | .join init kind last on, outer =>
    (init.rows db ops outer).bind fun row =>
      let found := (last.rows db ops (outer ++ row)).filter fun more =>
        ∀ c ∈ on, c.holds ops (outer ++ row ++ more)
      match kind with
      | .inner => found.map (row ++ ·)
      | .left => (orNulls last.aliases found).map (row ++ ·)

def Sql.Select.rows (db : Database) (ops : Operators) (statement : Select) :
    Multiset (List (Option String)) :=
  ((statement.source.rows db ops []).filter fun row =>
    ∀ c ∈ statement.conditions, c.holds ops row).map fun row => statement.columns.map row.cell

section holds

variable {ops : Operators} {c : Condition}

theorem holds_congr {one two : Row}
    (same : ∀ column ∈ c.columns, one.cell column = two.cell column) :
    c.holds ops one = c.holds ops two := by
  have operand : ∀ o : Operand, (∀ column ∈ o.columns, one.cell column = two.cell column) →
      o.read one = o.read two := by
    intro o same
    cases o with
    | column column => exact same column (List.mem_singleton_self _)
    | value text => rfl
  unfold Condition.holds
  rw [operand c.left fun column used => same column (List.mem_append_left _ used),
    operand c.right fun column used => same column (List.mem_append_right _ used)]

theorem holds_append_left {row more : Row}
    (declared : ∀ column ∈ c.columns, column.table ∈ row.map (·.1)) :
    c.holds ops (row ++ more) = c.holds ops row :=
  holds_congr fun column used => cell_append_left (declared column used)

end holds

namespace Sql.JoinTree

variable {db : Database} {ops : Operators} {t : JoinTree} {outer row : Row}

theorem aliases_join (init : JoinTree) (kind : JoinKind) (last : JoinTree) (on : List Condition) :
    (join init kind last on).aliases = init.aliases ++ last.aliases := by
  simp [aliases, leaves]

theorem names_of_rows (member : row ∈ t.rows db ops outer) : row.map (·.1) = t.aliases := by
  induction t generalizing outer row with
  | table relation pattern =>
    obtain ⟨pair, _, rfl⟩ := Multiset.mem_map.mp member
    rfl
  | group first ih => exact ih member
  | join init kind last on ihInit ihLast =>
    obtain ⟨one, first, member⟩ := Multiset.mem_bind.mp member
    have both : ∀ more, more.map (·.1) = last.aliases →
        (one ++ more : Row).map (·.1) = (join init kind last on).aliases := by
      intro more names
      rw [List.map_append, ihInit first, names, aliases_join]
    cases kind with
    | inner =>
      obtain ⟨more, second, rfl⟩ := Multiset.mem_map.mp member
      exact both more (ihLast (Multiset.mem_filter.mp second).1)
    | left =>
      obtain ⟨more, second, rfl⟩ := Multiset.mem_map.mp member
      refine both more ?_
      unfold orNulls at second
      split at second
      next =>
        cases Multiset.mem_singleton.mp second
        simp [nulls, Function.comp_def]
      next => exact ihLast (Multiset.mem_filter.mp second).1

def Visible (names : List String) : JoinTree → Prop
  | .table .. => True
  | .group first => first.Visible names
  | .join init _ last on =>
    init.Visible names ∧ last.Visible (names ++ init.aliases) ∧
      ∀ c ∈ on, ∀ column ∈ c.columns, column.table ∈ names ++ (init.aliases ++ last.aliases)

theorem core_leaves_subset (t : JoinTree) : ∀ leaf ∈ t.core.leaves, leaf ∈ t.leaves := by
  induction t with
  | table => exact fun _ => id
  | group => exact fun _ => id
  | join init kind last on ihInit _ =>
    cases kind with
    | inner => exact fun _ => id
    | left => exact fun leaf member => List.mem_append_left _ (ihInit leaf member)

theorem Primary.table {column : Column} (primary : t.Primary column) :
    column.table ∈ t.aliases := by
  obtain ⟨name, looked⟩ := primary
  obtain ⟨leaf, present, same⟩ := List.mem_map.mp (table_of_held (mem_of_lookup looked))
  exact List.mem_map.mpr ⟨leaf, t.core_leaves_subset leaf present, same⟩

theorem Scoped.visible {outside : Column → Prop} {names : List String}
    (scope : t.Scoped Primary outside) (lent : ∀ column, outside column → column.table ∈ names) :
    t.Visible names := by
  induction t generalizing outside names with
  | table => trivial
  | group first ih => exact ih scope fun _ none => none.elim
  | join init kind last on ihInit ihLast =>
    obtain ⟨left, right, within⟩ := scope
    refine ⟨ihInit left lent, ihLast right ?_, ?_⟩
    · intro column primary
      exact List.mem_append_right _ primary.table
    · intro c member column used
      rcases within c member column used with own | outside
      · exact List.mem_append_right _ own
      · exact List.mem_append_left _ (lent column outside)

theorem Visible.columns {names : List String} (visible : t.Visible names) {c : Condition}
    (member : c ∈ t.conditions) {column : Column} (used : column ∈ c.columns) :
    column.table ∈ names ++ t.aliases := by
  induction t generalizing names with
  | table => cases member
  | group first ih => exact ih visible member
  | join init kind last on ihInit ihLast =>
    obtain ⟨left, right, within⟩ := visible
    rw [aliases_join]
    rcases List.mem_append.mp member with inside | own
    · rcases List.mem_append.mp inside with one | two
      · rcases List.mem_append.mp (ihInit left one) with old | new
        · exact List.mem_append_left _ old
        · exact List.mem_append_right _ (List.mem_append_left _ new)
      · simpa using ihLast right two
    · exact within c own column used

theorem rows_of_isInner (inner : t.IsInner) (visible : t.Visible (outer.map (·.1))) :
    t.rows db ops outer = (db.combinations t.leaves).filter fun row =>
      ∀ c ∈ t.conditions, c.holds ops (outer ++ row) := by
  induction t generalizing outer with
  | table relation pattern =>
    simp [rows, leaves, conditions, Database.combinations, Multiset.bind_singleton]
  | group first ih => exact ih inner visible
  | join init kind last on ihInit ihLast =>
    obtain ⟨rfl, innerInit, innerLast⟩ := inner
    obtain ⟨visibleInit, visibleLast, within⟩ := visible
    simp only [rows, leaves, Database.combinations_append]
    rw [ihInit innerInit visibleInit, Multiset.bind_filter, Multiset.filter_bind]
    refine Multiset.bind_congr fun row member => ?_
    have names := Database.names_of_combination member
    -- The conditions of `init` do not look at the tables of `last`, so they can be checked before.
    have seen : ∀ more c, c ∈ init.conditions →
        c.holds ops (outer ++ (row ++ more)) = c.holds ops (outer ++ row) := by
      intro more c present
      rw [← List.append_assoc]
      refine holds_append_left fun column used => ?_
      rw [List.map_append, names]
      exact visibleInit.columns present used
    rw [Multiset.filter_map]
    split
    next holds =>
      have later : last.Visible ((outer ++ row).map (·.1)) := by
        rw [List.map_append, names]
        exact visibleLast
      rw [ihLast innerLast later, Multiset.filter_filter]
      refine congrArg _ (Multiset.filter_congr fun more _ => ?_)
      simp only [Function.comp_apply, conditions, List.mem_append, List.append_assoc]
      constructor
      · intro both c present
        rcases present with one | two | own
        · rw [seen more c one]
          exact holds c one
        · exact both.2 c two
        · exact both.1 c own
      · intro all
        exact ⟨fun c own => all c (.inr (.inr own)), fun c two => all c (.inr (.inl two))⟩
    next fails =>
      symm
      rw [Multiset.map_eq_zero, Multiset.filter_eq_nil]
      intro more _ all
      refine fails fun c one => ?_
      rw [← seen more c one]
      exact all c (by simp [conditions, one])

end Sql.JoinTree

section choices

variable {α β γ δ : Type}

theorem bind_singleton_self (s : Multiset α) : (s.bind fun item => {item}) = s :=
  (Multiset.bind_singleton s id).trans (Multiset.map_id s)

def choices (options : α → Multiset β) : List α → Multiset (List (α × β))
  | [] => {[]}
  | item :: rest => (options item).bind fun pick => (choices options rest).map ((item, pick) :: ·)

theorem choices_concat (options : α → Multiset β) (items : List α) (last : α) :
    choices options (items ++ [last]) = (choices options items).bind fun picks =>
      (options last).map fun pick => picks ++ [(last, pick)] := by
  induction items with
  | nil => simp [choices, Multiset.bind_singleton]
  | cons item rest ih =>
    simp [choices, ih, Multiset.bind_map, Multiset.map_bind, Multiset.bind_assoc]

theorem choices_map (options : α → Multiset β) (others : γ → Multiset δ) {items : List α}
    (rename : α → γ) (image : α → β → δ)
    (same : ∀ item ∈ items, (options item).map (image item) = others (rename item)) :
    choices others (items.map rename) = (choices options items).map fun picks =>
      picks.map fun pick => (rename pick.1, image pick.1 pick.2) := by
  induction items with
  | nil => simp [choices]
  | cons item rest ih =>
    have later := ih fun item member => same item (List.mem_cons_of_mem _ member)
    simp [choices, ← same item (List.mem_cons_self ..), later, Multiset.map_bind, Multiset.bind_map]

theorem items_of_choices {options : α → Multiset β} {items : List α} {picks : List (α × β)}
    (member : picks ∈ choices options items) :
    picks.map (·.1) = items ∧ ∀ pick ∈ picks, pick.2 ∈ options pick.1 := by
  induction items generalizing picks with
  | nil =>
    cases Multiset.mem_singleton.mp member
    simp
  | cons item rest ih =>
    obtain ⟨pick, here, member⟩ := Multiset.mem_bind.mp member
    obtain ⟨picks, later, rfl⟩ := Multiset.mem_map.mp member
    obtain ⟨names, each⟩ := ih later
    refine ⟨by simp [names], ?_⟩
    intro other present
    rcases List.mem_cons.mp present with rfl | present
    · exact here
    · exact each other present

end choices

namespace Branch

variable {db : Database} {ops : Operators} {b : Branch}

def aliases (b : Branch) : List String := b.leaves.map (·.1.aliasName)

def found (db : Database) (ops : Operators) (b : Branch) (row : Row) : Multiset Row :=
  (db.combinations b.leaves).filter fun more => ∀ c ∈ b.conditions, c.holds ops (row ++ more)

def rows (db : Database) (ops : Operators) (b : Branch) (row : Row) : Multiset Row :=
  orNulls b.aliases (b.found db ops row)

theorem names_of_branch_rows {row more : Row} (member : more ∈ b.rows db ops row) :
    more.map (·.1) = b.aliases := by
  unfold rows orNulls at member
  split at member
  next =>
    cases Multiset.mem_singleton.mp member
    simp [nulls, Function.comp_def]
  next => exact Database.names_of_combination (Multiset.mem_filter.mp member).1

-- A branch whose conditions are about required tables and its own does not see other branches.
theorem rows_append {row between : Row}
    (own : ∀ c ∈ b.conditions, ∀ column ∈ c.columns,
      column.table ∈ row.map (·.1) ∨ column.table ∈ b.aliases)
    (apart : ∀ name ∈ b.aliases, name ∉ between.map (·.1)) :
    b.rows db ops (row ++ between) = b.rows db ops row := by
  have same : b.found db ops (row ++ between) = b.found db ops row := by
    refine Multiset.filter_congr fun more _ => forall₂_congr fun c present => ?_
    rw [holds_congr fun column used => ?_]
    by_cases required : column.table ∈ row.map (·.1)
    · rw [List.append_assoc, cell_append_left required, cell_append_left required]
    · have other := apart _ ((own c present column used).resolve_left required)
      rw [List.append_assoc, cell_append_right _ required, cell_append_right _ other,
        cell_append_right _ required]
  unfold rows
  rw [same]

end Branch

namespace Sql.JoinTree

variable {db : Database} {ops : Operators} {t : JoinTree} {b : Branch} {bs : List Branch}

theorem rows_branch (inner : ∀ member on, b.joined = some (member, on) →
      member.IsInner ∧ member.Visible t.aliases) :
    (t.branch b).rows db ops [] =
      (t.rows db ops []).bind fun row => (b.rows db ops row).map (row ++ ·) := by
  obtain ⟨pattern, joined⟩ := b
  cases joined with
  | none =>
    have one : ∀ row, Branch.rows db ops ⟨pattern, none⟩ row = {[]} := by
      intro row
      simp [Branch.rows, Branch.found, Branch.leaves, Branch.conditions, Database.combinations,
        orNulls]
    simp [branch, one, bind_singleton_self]
  | some joined =>
    obtain ⟨member, on⟩ := joined
    obtain ⟨inner, visible⟩ := inner member on rfl
    refine Multiset.bind_congr fun row present => ?_
    have seen : member.Visible (([] ++ row : Row).map (·.1)) := by
      rw [List.nil_append, names_of_rows present]
      exact visible
    have found : (member.rows db ops ([] ++ row)).filter (fun more =>
        ∀ c ∈ on, c.holds ops ([] ++ row ++ more)) =
          Branch.found db ops ⟨pattern, some (member, on)⟩ row := by
      rw [rows_of_isInner inner seen, Multiset.filter_filter]
      refine Multiset.filter_congr fun more _ => ?_
      simp only [Branch.conditions, Option.map_some, Option.getD_some, List.mem_append, or_imp,
        forall_and, List.nil_append]
      exact and_comm
    simp only [found]
    rfl

theorem rows_branches
    (inner : ∀ earlier b later, bs = earlier ++ b :: later → ∀ member on,
      b.joined = some (member, on) → member.IsInner ∧ member.Visible (t.branches earlier).aliases)
    (own : ∀ b ∈ bs, ∀ c ∈ b.conditions, ∀ column ∈ c.columns,
      column.table ∈ t.aliases ∨ column.table ∈ b.aliases)
    (apart : (bs.flatMap Branch.aliases).Nodup) :
    (t.branches bs).rows db ops [] = (t.rows db ops []).bind fun row =>
      (choices (Branch.rows db ops · row) bs).map fun picks => row ++ picks.flatMap (·.2) := by
  -- From the end: the last branch is joined to a tree that has all the others.
  induction bs using List.reverseRecOn with
  | nil => simp [branches, choices, bind_singleton_self]
  | append_singleton bs b ih =>
    rw [List.flatMap_append, List.flatMap_singleton] at apart
    obtain ⟨before, _, apart⟩ := List.nodup_append.mp apart
    have earlier := ih
      (fun earlier other later split => inner earlier other (later ++ [b]) (by simp [split]))
      (fun b present => own b (List.mem_append_left _ present)) before
    rw [branches_concat, rows_branch (inner bs b [] rfl), earlier, Multiset.bind_assoc]
    refine Multiset.bind_congr fun row present => ?_
    rw [choices_concat, Multiset.bind_map, Multiset.map_bind]
    refine Multiset.bind_congr fun picks chosen => ?_
    have names : (picks.flatMap (·.2)).map (·.1) = bs.flatMap Branch.aliases := by
      obtain ⟨items, each⟩ := items_of_choices chosen
      rw [← items, List.map_flatMap, List.flatMap_map]
      exact List.flatMap_congr fun pick member => Branch.names_of_branch_rows (each pick member)
    -- The rows picked for the others lie between, and the conditions of `b` do not look at them.
    have alone : b.rows db ops (row ++ picks.flatMap (·.2)) = b.rows db ops row := by
      apply Branch.rows_append
      · rw [names_of_rows present]
        exact own b (by simp)
      · rw [names]
        intro name mine other
        exact apart _ other _ mine rfl
    rw [alone, Multiset.map_map]
    refine Multiset.map_congr rfl fun more _ => ?_
    simp

end Sql.JoinTree

end GraphSql
