import Mathlib
import GraphSql.Proofs.Planning.Leaves

namespace GraphSql
open Sql

-- When no alias is issued twice: if the tables of different predicates have different names, no
-- name is another one with a number, and none looks like the alias of a predicate without a table.

namespace TableMap

def Separate (tables : TableMap) : Prop :=
  ∀ p q table, tables.table? p = some table → tables.table? q = some table → p = q

def Unnumbered (tables : TableMap) : Prop :=
  ∀ p q table (n : Nat), 1 ≤ n → tables.table? p = some table →
    tables.table? q ≠ some (table ++ "_" ++ n.repr)

structure Unreserved (tables : TableMap) : Prop where
  bare : ∀ p, tables.table? p ≠ some "np"
  first : ∀ p (k : Nat), tables.table? p ≠ some ("np_" ++ k.repr)
  later : ∀ p (k n : Nat), 1 ≤ n → tables.table? p ≠ some ("np_" ++ k.repr ++ "_" ++ n.repr)

end TableMap

section texts

theorem underscore_not_mem_repr (n : Nat) : '_' ∉ n.repr.toList := by
  rw [Nat.toList_repr]
  intro member
  have digit := Nat.isDigit_of_mem_toDigits (by decide) (by decide) member
  cases digit

-- A text that ends in a number can be cut at its last underscore only.
theorem numbered_cut {base other : String} {m n : Nat}
    (same : base ++ "_" ++ m.repr = other ++ "_" ++ n.repr) : base = other ∧ m = n := by
  have chars := congrArg String.toList same
  have mark : "_".toList = ['_'] := rfl
  simp only [String.toList_append, mark, List.append_assoc, List.singleton_append] at chars
  have whole : base.toList = other.toList ∧ m.repr.toList = n.repr.toList := by
    rcases List.append_eq_append_iff.mp chars with ⟨gap, left, right⟩ | ⟨gap, left, right⟩
    · cases gap with
      | nil => exact ⟨by simpa using left.symm, by simpa using right⟩
      | cons c gap =>
        rw [List.cons_append, List.cons.injEq] at right
        exact absurd (by simp [right.2]) (underscore_not_mem_repr m)
    · cases gap with
      | nil => exact ⟨by simpa using left, by simpa using right.symm⟩
      | cons c gap =>
        rw [List.cons_append, List.cons.injEq] at right
        exact absurd (by simp [right.2]) (underscore_not_mem_repr n)
  exact ⟨String.toList_inj.mp whole.1, Nat.repr_injective (String.toList_inj.mp whole.2)⟩

end texts

namespace Aliases

variable {a : Aliases} {tables : TableMap} {p q : Iri}

theorem numbered_cases {base other : String} {m n : Nat}
    (same : numbered base m = numbered other n) :
    (base = other ∧ m = n) ∨ (1 ≤ n ∧ base = other ++ "_" ++ n.repr) ∨
      (1 ≤ m ∧ other = base ++ "_" ++ m.repr) := by
  unfold numbered at same
  split at same
  next zero =>
    split at same
    next none => exact .inl ⟨same, zero.trans none.symm⟩
    next some => exact .inr (.inl ⟨Nat.one_le_iff_ne_zero.mpr some, same⟩)
  next positive =>
    split at same
    next none => exact .inr (.inr ⟨Nat.one_le_iff_ne_zero.mpr positive, same.symm⟩)
    next some => exact .inl (numbered_cut same)

def stem (a : Aliases) (predicate : Iri) : String :=
  match a.tables.table? predicate with
  | some table => table
  | none => "np_" ++ (a.unmapped.idxOf predicate).repr

theorem relation_aliasName (a : Aliases) (predicate : Iri) :
    (a.relation predicate).aliasName =
      numbered (a.stem predicate) (a.issued.count predicate) := by
  unfold relation stem
  cases a.tables.table? predicate <;> rfl

def after (a : Aliases) (predicate : Iri) : Aliases :=
  { a with issued := a.issued ++ [predicate] }

theorem unmapped_after (a : Aliases) (p : Iri) :
    (a.after p).unmapped =
      if (a.tables.table? p).isNone then appendNew a.unmapped p else a.unmapped := by
  unfold unmapped after
  rw [List.filter_append]
  split
  next none => simp [none, distinct, appendAllNew]
  next some => simp [some]

theorem stem_after (known : q ∈ a.issued ∨ q = p) : (a.after p).stem q = a.stem q := by
  unfold stem
  rw [show (a.after p).tables = a.tables from rfl]
  cases mapped : a.tables.table? q with
  | some table => rfl
  | none =>
    simp only
    rw [unmapped_after]
    split
    next none =>
      unfold appendNew
      split
      next => rfl
      next fresh =>
        rcases known with old | rfl
        · have member : q ∈ a.unmapped := by simp [unmapped, old, mapped]
          rw [List.idxOf_append_of_mem member]
        · rw [List.idxOf_append_of_notMem fresh, List.idxOf_of_notMem fresh]
          simp
    next some => rfl

structure Clear (tables : TableMap) : Prop extends tables.Unreserved where
  separate : tables.Separate
  unnumbered : tables.Unnumbered

theorem Clear.stem_injective (clear : Clear a.tables) (used : p ∈ a.issued)
    (same : a.stem p = a.stem q) : p = q := by
  unfold stem at same
  cases first : a.tables.table? p with
  | some table =>
    cases second : a.tables.table? q with
    | some other =>
      simp only [first, second] at same
      exact clear.separate p q table first (same ▸ second)
    | none =>
      simp only [first, second] at same
      exact absurd (same ▸ first) (clear.first p _)
  | none =>
    cases second : a.tables.table? q with
    | some other =>
      simp only [first, second] at same
      exact absurd (same ▸ second) (clear.first q _)
    | none =>
      simp only [first, second] at same
      have member : p ∈ a.unmapped := by simp [unmapped, used, first]
      have index := (numbered_cut (show "np" ++ "_" ++ _ = "np" ++ "_" ++ _ from same)).2
      exact (List.idxOf_inj member).mp index

theorem Clear.stem_unnumbered (clear : Clear a.tables) (p q : Iri) {n : Nat} (positive : 1 ≤ n) :
    a.stem p ≠ a.stem q ++ "_" ++ n.repr := by
  unfold stem
  intro same
  cases first : a.tables.table? p with
  | some table =>
    cases second : a.tables.table? q with
    | some other =>
      simp only [first, second] at same
      exact clear.unnumbered q p other n positive second (same ▸ first)
    | none =>
      simp only [first, second] at same
      exact clear.later p _ n positive (same ▸ first)
  | none =>
    cases second : a.tables.table? q with
    | some other =>
      simp only [first, second] at same
      have cut := numbered_cut (show "np" ++ "_" ++ _ = _ from same)
      exact clear.bare q (cut.1 ▸ second)
    | none =>
      simp only [first, second] at same
      have cut := numbered_cut (show "np" ++ "_" ++ _ = _ from same)
      have chars := congrArg String.toList cut.1
      simp [String.toList_append] at chars

-- The aliases issued so far are different, and each is the alias of an earlier use.
structure Issues (a : Aliases) (names : List String) : Prop where
  apart : names.Nodup
  earlier : ∀ name ∈ names, ∃ p ∈ a.issued, ∃ n < a.issued.count p, name = numbered (a.stem p) n

theorem Issues.after {names : List String} (issues : Issues a names) (clear : Clear a.tables)
    (p : Iri) : Issues (a.after p) (names ++ [(a.relation p).aliasName]) := by
  have count : ∀ q, (a.after p).issued.count q = a.issued.count q + if q = p then 1 else 0 := by
    intro q
    by_cases same : q = p
    · simp [Aliases.after, List.count_append, same]
    · simp [Aliases.after, List.count_append, same, Ne.symm same]
  refine ⟨?_, ?_⟩
  · refine List.nodup_append.mpr ⟨issues.apart, by simp, ?_⟩
    rintro name member _ single rfl
    obtain ⟨q, used, n, less, same⟩ := issues.earlier name member
    rw [List.mem_singleton.mp single, relation_aliasName] at same
    rcases numbered_cases same with ⟨stems, counts⟩ | ⟨positive, stems⟩ | ⟨positive, stems⟩
    · cases clear.stem_injective used stems.symm
      omega
    · exact clear.stem_unnumbered p q positive stems
    · exact clear.stem_unnumbered q p positive stems
  · intro name member
    rcases List.mem_append.mp member with old | new
    · obtain ⟨q, used, n, less, same⟩ := issues.earlier name old
      refine ⟨q, List.mem_append_left _ used, n, by rw [count]; omega, ?_⟩
      rw [stem_after (.inl used), same]
    · refine ⟨p, by simp [Aliases.after], a.issued.count p, by simp [count], ?_⟩
      rw [stem_after (.inr rfl), List.mem_singleton.mp new, relation_aliasName]

def issueEach (a : Aliases) : List Iri → Logged UsageError (List Relation)
  | [] => return []
  | p :: rest => do
    let (relation, a) ← a.issue (.iri p)
    let others ← issueEach a rest
    return relation :: others

def relations (a : Aliases) : List Iri → List Relation
  | [] => []
  | p :: rest => a.relation p :: (a.after p).relations rest

theorem issueEach_outcome (a : Aliases) (predicates : List Iri) :
    (a.issueEach predicates).outcome = .ok (a.relations predicates) := by
  induction predicates generalizing a with
  | nil => rfl
  | cons p rest others =>
    have step : (a.issueEach (p :: rest)).outcome =
        ((a.after p).issueEach rest).outcome.bind fun others => .ok (a.relation p :: others) := by
      simp only [issueEach, issue, Logged.outcome_bind, Logged.outcome_report, Logged.outcome_pure]
      rfl
    rw [step, others (a.after p)]
    rfl

theorem relations_name (a : Aliases) (predicates : List Iri) :
    (a.relations predicates).map (·.name) = predicates.map a.tables.relationName := by
  induction predicates generalizing a with
  | nil => rfl
  | cons p rest others =>
    rw [relations, List.map_cons, List.map_cons, relation_name, others (a.after p)]
    rfl

theorem Issues.run {names : List String} (issues : Issues a names) (clear : Clear a.tables)
    (predicates : List Iri) :
    (names ++ (a.relations predicates).map (·.aliasName)).Nodup := by
  induction predicates generalizing a names with
  | nil => simpa [relations] using issues.apart
  | cons p rest others =>
    have apart := others (issues.after clear p) clear
    rwa [List.append_assoc] at apart

theorem relations_replicate (a : Aliases) (p : Iri) (uses : Nat) :
    (a.relations (List.replicate uses p)).map (·.aliasName) =
      (List.range' (a.issued.count p) uses).map (numbered (a.stem p)) := by
  induction uses generalizing a with
  | zero => rfl
  | succ uses others =>
    have count : (a.after p).issued.count p = a.issued.count p + 1 := by
      simp [after, List.count_append]
    rw [List.replicate_succ, relations, List.map_cons, others (a.after p), count,
      stem_after (.inr rfl), relation_aliasName]
    rfl

theorem relation_of_table {table : String} (mapped : a.tables.table? p = some table) :
    (a.relation p).aliasName = numbered table (a.issued.count p) := by
  rw [relation_aliasName, stem, mapped]

theorem clash_of_shared {table : String} (differs : p ≠ q) (first : tables.table? p = some table)
    (second : tables.table? q = some table) :
    ¬ (((fresh tables).relations [p, q]).map (·.aliasName)).Nodup := by
  have other : (((fresh tables).after p).relation q).aliasName = table := by
    rw [relation_of_table (a := (fresh tables).after p) second]
    simp [after, fresh, numbered, differs]
  have one : ((fresh tables).relation p).aliasName = table :=
    relation_of_table (a := fresh tables) first
  simp [relations, one, other]

theorem clash_of_number {table : String} {n : Nat} (positive : 1 ≤ n)
    (first : tables.table? p = some table)
    (second : tables.table? q = some (table ++ "_" ++ n.repr)) :
    ¬ (((fresh tables).relations (q :: List.replicate (n + 1) p)).map (·.aliasName)).Nodup := by
  have differs : q ≠ p := by
    rintro rfl
    have chars := congrArg String.toList (Option.some.inj (first.symm.trans second))
    simp [String.toList_append] at chars
  have stem : ((fresh tables).after q).stem p = table := by
    simp only [stem, after, fresh, first]
  have count : ((fresh tables).after q).issued.count p = 0 := by
    simp [after, fresh, differs]
  have one : ((fresh tables).relation q).aliasName = numbered table n := by
    rw [relation_of_table (a := fresh tables) second]
    exact (if_neg (Nat.one_le_iff_ne_zero.mp positive)).symm
  rw [relations, List.map_cons, relations_replicate, stem, count, one, List.nodup_cons]
  intro apart
  exact apart.1 (List.mem_map_of_mem (List.mem_range'_1.mpr ⟨Nat.zero_le n, by omega⟩))

end Aliases

-- Where tables are named apart from each other and from the aliases of predicates without a table,
-- no alias is issued twice, whatever is asked for; where two tables are not apart, some alias is.
theorem issued_aliases_apart (tables : TableMap) :
    (tables.Separate → tables.Unnumbered → tables.Unreserved → ∀ predicates : List Iri,
      ∃ relations, ((Aliases.fresh tables).issueEach predicates).outcome = .ok relations ∧
        relations.map (·.name) = predicates.map tables.relationName ∧
        (relations.map (·.aliasName)).Nodup) ∧
    (¬ (tables.Separate ∧ tables.Unnumbered) → ∃ predicates : List Iri, ∃ relations,
      (∀ p ∈ predicates, (tables.table? p).isSome) ∧
        ((Aliases.fresh tables).issueEach predicates).outcome = .ok relations ∧
        ¬ (relations.map (·.aliasName)).Nodup) := by
  refine ⟨?_, ?_⟩
  · intro separate unnumbered unreserved predicates
    refine ⟨_, Aliases.issueEach_outcome _ predicates, Aliases.relations_name _ predicates, ?_⟩
    have start : Aliases.Issues (Aliases.fresh tables) [] := ⟨List.nodup_nil, by simp⟩
    exact start.run ⟨unreserved, separate, unnumbered⟩ predicates
  · intro close
    by_cases separate : tables.Separate
    · have named : ¬ tables.Unnumbered := fun unnumbered => close ⟨separate, unnumbered⟩
      unfold TableMap.Unnumbered at named
      push Not at named
      obtain ⟨p, q, table, n, positive, first, second⟩ := named
      refine ⟨q :: List.replicate (n + 1) p, _, ?_, Aliases.issueEach_outcome _ _,
        Aliases.clash_of_number positive first second⟩
      simp [first, second]
    · unfold TableMap.Separate at separate
      push Not at separate
      obtain ⟨p, q, table, first, second, differs⟩ := separate
      refine ⟨[p, q], _, ?_, Aliases.issueEach_outcome _ _,
        Aliases.clash_of_shared differs first second⟩
      simp [first, second]

namespace Shelf

def holds : Iri := ⟨"urn:holds", by decide +kernel⟩

def lends : Iri := ⟨"urn:lends", by decide +kernel⟩

def lost : Iri := ⟨"urn:lost", by decide +kernel⟩

def tables : TableMap := [(holds, "books"), (lends, "books_01")]

def close : TableMap := [(holds, "books"), (lends, "books_1")]

theorem table_cases {p : Iri} {table : String} (mapped : tables.table? p = some table) :
    (p = holds ∧ table = "books") ∨ (p = lends ∧ table = "books_01") := by
  obtain ⟨before, later, whole, -⟩ := List.lookup_eq_some_iff.mp mapped
  have member : (p, table) ∈ tables := by simp [whole]
  simpa [tables] using member

theorem separate : tables.Separate := by
  intro p q table first second
  rcases table_cases first with ⟨rfl, rfl⟩ | ⟨rfl, rfl⟩
  · rcases table_cases second with ⟨rfl, -⟩ | ⟨-, differs⟩
    · rfl
    · exact absurd differs (by decide)
  · rcases table_cases second with ⟨-, differs⟩ | ⟨rfl, -⟩
    · exact absurd differs (by decide)
    · rfl

theorem unnumbered : tables.Unnumbered := by
  intro p q table n positive first second
  rcases table_cases second with ⟨-, same⟩ | ⟨-, same⟩
  all_goals
    have chars := congrArg String.toList same
    rcases table_cases first with ⟨-, rfl⟩ | ⟨-, rfl⟩
  · simp [String.toList_append] at chars
  · simp [String.toList_append] at chars
  · have digits : n.repr = "01" := by simpa [String.toList_append, ← String.toList_inj] using chars
    have number := congrArg (fun text : String => Nat.ofDigitChars 10 text.toList 0) digits
    simp only [Nat.toList_repr, Nat.ofDigitChars_ten_toDigits] at number
    subst number
    revert digits
    decide
  · simp [String.toList_append] at chars

theorem unreserved : tables.Unreserved := by
  refine ⟨?_, ?_, ?_⟩
  · intro p mapped
    rcases table_cases mapped with ⟨-, same⟩ | ⟨-, same⟩ <;> exact absurd same (by decide)
  · intro p k mapped
    rcases table_cases mapped with ⟨-, same⟩ | ⟨-, same⟩
    all_goals
      have chars := congrArg String.toList same
      simp [String.toList_append] at chars
  · intro p k n _ mapped
    rcases table_cases mapped with ⟨-, same⟩ | ⟨-, same⟩
    all_goals
      have chars := congrArg String.toList same
      simp [String.toList_append] at chars

theorem close_together : ¬ (close.Separate ∧ close.Unnumbered) :=
  fun apart => apart.2 holds lends "books" 1 (by decide) (by decide) (by decide)

end Shelf

theorem issued_aliases_apart_shelf :
    Shelf.tables.Separate ∧ Shelf.tables.Unnumbered ∧ Shelf.tables.Unreserved ∧
      (∃ relations,
        ((Aliases.fresh Shelf.tables).issueEach
          [Shelf.lends, Shelf.lost, Shelf.holds, Shelf.holds, Shelf.lost]).outcome =
            .ok relations ∧ (relations.map (·.aliasName)).Nodup) ∧
      ¬ (Shelf.close.Separate ∧ Shelf.close.Unnumbered) ∧
      ∃ predicates relations,
        ((Aliases.fresh Shelf.close).issueEach predicates).outcome = .ok relations ∧
          ¬ (relations.map (·.aliasName)).Nodup := by
  obtain ⟨relations, issued, -, apart⟩ :=
    (issued_aliases_apart Shelf.tables).1 Shelf.separate Shelf.unnumbered Shelf.unreserved
      [Shelf.lends, Shelf.lost, Shelf.holds, Shelf.holds, Shelf.lost]
  obtain ⟨predicates, others, -, given, shared⟩ :=
    (issued_aliases_apart Shelf.close).2 Shelf.close_together
  exact ⟨Shelf.separate, Shelf.unnumbered, Shelf.unreserved, ⟨relations, issued, apart⟩,
    Shelf.close_together, predicates, others, given, shared⟩

end GraphSql
