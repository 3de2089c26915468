import GraphSql.Proofs.Planning.Step

namespace GraphSql
open Sql

-- Which conditions wait under which alias, after each step of planning.

namespace PlanState

def Waits (s : PlanState) (aliasName : String) (c : Condition) : Prop :=
  ∃ entry ∈ s.pending, entry.aliasName = aliasName ∧ c ∈ entry.conditions

def Tidy (s : PlanState) : Prop := (s.pending.map (·.aliasName)).Nodup

def OptionalWithin (s : PlanState) (names : List String) : Prop :=
  ∀ entry ∈ s.pending, entry.part = .optional → entry.aliasName ∈ names

theorem exists_insertPending (part : Part) (aliasName other : String) (added c : Condition)
    (pending : List Pending) :
    (∃ entry ∈ insertPending part aliasName added pending,
        entry.aliasName = other ∧ c ∈ entry.conditions) ↔
      (∃ entry ∈ pending, entry.aliasName = other ∧ c ∈ entry.conditions) ∨
        other = aliasName ∧ c = added := by
  induction pending with
  | nil => simp [insertPending, eq_comm]
  | cons entry rest ih =>
    unfold insertPending
    split
    next same =>
      subst same
      simp only [List.mem_cons, exists_eq_or_imp, mem_appendNew]
      constructor
      · rintro (⟨rfl, old | new⟩ | later)
        · exact .inl (.inl ⟨rfl, old⟩)
        · exact .inr ⟨rfl, new⟩
        · exact .inl (.inr later)
      · rintro ((⟨rfl, old⟩ | later) | ⟨rfl, new⟩)
        · exact .inl ⟨rfl, .inl old⟩
        · exact .inr later
        · exact .inl ⟨rfl, .inr new⟩
    next differs =>
      simp only [List.mem_cons, exists_eq_or_imp, ih, or_assoc]

theorem names_insertPending (part : Part) (aliasName : String) (added : Condition)
    (pending : List Pending) :
    (insertPending part aliasName added pending).map (·.aliasName) =
      appendNew (pending.map (·.aliasName)) aliasName := by
  induction pending with
  | nil => simp [insertPending, appendNew]
  | cons entry rest ih =>
    unfold insertPending
    split
    next same => simp [appendNew, same]
    next differs =>
      have other : aliasName ≠ entry.aliasName := fun same => differs same.symm
      rw [List.map_cons, ih]
      unfold appendNew
      by_cases known : aliasName ∈ rest.map (·.aliasName) <;> simp [known, other]

theorem part_insertPending {part : Part} {aliasName : String} {added : Condition}
    {pending : List Pending} {entry : Pending}
    (member : entry ∈ insertPending part aliasName added pending) :
    (entry.aliasName = aliasName ∧ entry.part = part) ∨
      ∃ old ∈ pending, old.aliasName = entry.aliasName ∧ old.part = entry.part := by
  induction pending with
  | nil =>
    cases List.mem_singleton.mp member
    exact .inl ⟨rfl, rfl⟩
  | cons head rest ih =>
    unfold insertPending at member
    split at member
    next same =>
      rcases List.mem_cons.mp member with rfl | later
      · exact .inr ⟨head, by simp, rfl, rfl⟩
      · exact .inr ⟨entry, by simp [later], rfl, rfl⟩
    next differs =>
      rcases List.mem_cons.mp member with rfl | later
      · exact .inr ⟨entry, by simp, rfl, rfl⟩
      · rcases ih later with new | ⟨old, held, same⟩
        · exact .inl new
        · exact .inr ⟨old, by simp [held], same⟩

section await

variable (s : PlanState) (aliasName : String) (conditions : List Condition)

theorem await_eq : ∃ pending, s.await aliasName conditions = { s with pending := pending } := by
  induction conditions generalizing s with
  | nil => exact ⟨s.pending, rfl⟩
  | cons c rest ih => exact ih _

@[simp] theorem await_aliases : (s.await aliasName conditions).aliases = s.aliases := by
  obtain ⟨pending, same⟩ := await_eq s aliasName conditions
  rw [same]

@[simp] theorem await_planned : (s.await aliasName conditions).planned = s.planned := by
  obtain ⟨pending, same⟩ := await_eq s aliasName conditions
  rw [same]

@[simp] theorem await_part : (s.await aliasName conditions).part = s.part := by
  obtain ⟨pending, same⟩ := await_eq s aliasName conditions
  rw [same]

theorem waits_await (other : String) (c : Condition) :
    (s.await aliasName conditions).Waits other c ↔
      s.Waits other c ∨ other = aliasName ∧ c ∈ conditions := by
  induction conditions generalizing s with
  | nil => simp [await]
  | cons added rest ih =>
    have one : (s.addPending aliasName added).Waits other c ↔
        s.Waits other c ∨ other = aliasName ∧ c = added :=
      exists_insertPending _ _ _ _ _ _
    rw [show s.await aliasName (added :: rest) = (s.addPending aliasName added).await aliasName rest
      from rfl, ih, one, or_assoc, ← and_or_left, List.mem_cons]

theorem Tidy.await {s : PlanState} (tidy : s.Tidy) : (s.await aliasName conditions).Tidy := by
  induction conditions generalizing s with
  | nil => exact tidy
  | cons added rest ih =>
    apply ih
    unfold Tidy addPending
    rw [names_insertPending]
    exact nodup_appendNew _ _ tidy

theorem OptionalWithin.await {s : PlanState} {names : List String} (within : s.OptionalWithin names)
    (allowed : s.part = .optional → aliasName ∈ names) :
    (s.await aliasName conditions).OptionalWithin names := by
  induction conditions generalizing s with
  | nil => exact within
  | cons added rest ih =>
    refine ih ?_ allowed
    intro entry member optional
    rcases part_insertPending member with ⟨same, part⟩ | ⟨old, held, same, part⟩
    · rw [same]
      exact allowed (part ▸ optional)
    · rw [← same]
      exact within old held (part ▸ optional)

end await

section release

variable (s : PlanState) (aliasName : String) (conditions : List Condition)

theorem release_eq :
    ∃ pending, s.release aliasName conditions = { s with pending := pending } := by
  induction conditions generalizing s with
  | nil => exact ⟨s.pending, rfl⟩
  | cons c rest ih => exact ih _

@[simp] theorem release_aliases : (s.release aliasName conditions).aliases = s.aliases := by
  obtain ⟨pending, same⟩ := release_eq s aliasName conditions
  rw [same]

@[simp] theorem release_planned : (s.release aliasName conditions).planned = s.planned := by
  obtain ⟨pending, same⟩ := release_eq s aliasName conditions
  rw [same]

@[simp] theorem release_part : (s.release aliasName conditions).part = s.part := by
  obtain ⟨pending, same⟩ := release_eq s aliasName conditions
  rw [same]

theorem waits_of_release {s : PlanState} {aliasName other : String} {conditions : List Condition}
    {c : Condition} (waits : (s.release aliasName conditions).Waits other c) : s.Waits other c := by
  induction conditions generalizing s with
  | nil => exact waits
  | cons removed rest ih =>
    obtain ⟨entry, member, named, held⟩ := ih waits
    obtain ⟨old, present, rfl⟩ := List.mem_map.mp member
    refine ⟨old, present, ?_⟩
    split at named
    next same => exact ⟨named, List.mem_of_mem_erase (by simpa [same] using held)⟩
    next differs => exact ⟨named, by simpa [differs] using held⟩

theorem waits_release {s : PlanState} {aliasName other : String} {conditions : List Condition}
    {c : Condition} (waits : s.Waits other c) (kept : other = aliasName → c ∉ conditions) :
    (s.release aliasName conditions).Waits other c := by
  induction conditions generalizing s with
  | nil => exact waits
  | cons removed rest ih =>
    refine ih ?_ fun same member => kept same (List.mem_cons_of_mem _ member)
    obtain ⟨entry, member, rfl, held⟩ := waits
    refine ⟨_, List.mem_map.mpr ⟨entry, member, rfl⟩, ?_⟩
    split
    next same =>
      have differs : c ≠ removed := fun equal => kept same (by simp [equal])
      exact ⟨rfl, (List.mem_erase_of_ne differs).mpr held⟩
    next differs => exact ⟨rfl, held⟩

theorem names_removePending (removed : Condition) :
    (s.removePending aliasName removed).pending.map (·.aliasName) =
      s.pending.map (·.aliasName) := by
  simp only [removePending, List.map_map]
  apply List.map_congr_left
  intro entry _
  simp only [Function.comp_apply]
  split <;> rfl

theorem Tidy.release {s : PlanState} (tidy : s.Tidy) : (s.release aliasName conditions).Tidy := by
  induction conditions generalizing s with
  | nil => exact tidy
  | cons removed rest ih =>
    apply ih
    unfold Tidy
    rw [names_removePending]
    exact tidy

theorem OptionalWithin.release {s : PlanState} {names : List String}
    (within : s.OptionalWithin names) : (s.release aliasName conditions).OptionalWithin names := by
  induction conditions generalizing s with
  | nil => exact within
  | cons removed rest ih =>
    apply ih
    intro entry member optional
    obtain ⟨old, present, rfl⟩ := List.mem_map.mp member
    split at optional
    next same => simpa [same] using within old present optional
    next differs => simpa [differs] using within old present optional

end release

section take

theorem mem_pendingFor {s : PlanState} (tidy : s.Tidy) (aliasName : String) (c : Condition) :
    c ∈ s.pendingFor aliasName ↔ s.Waits aliasName c := by
  unfold pendingFor Waits
  unfold Tidy at tidy
  generalize s.pending = pending at tidy ⊢
  induction pending with
  | nil => simp
  | cons entry rest ih =>
    obtain ⟨apart, tidy⟩ := List.nodup_cons.mp tidy
    by_cases same : entry.aliasName = aliasName
    · have none : ∀ other ∈ rest, other.aliasName ≠ aliasName := by
        intro other member equal
        exact apart (List.mem_map.mpr ⟨other, member, equal.trans same.symm⟩)
      simp only [List.find?_cons, same, decide_true, Option.map_some, Option.getD_some,
        List.mem_cons, exists_eq_or_imp, true_and]
      constructor
      · exact .inl
      · rintro (held | ⟨other, member, equal, -⟩)
        · exact held
        · exact absurd equal (none other member)
    · simp only [List.find?_cons, same, decide_false, List.mem_cons, exists_eq_or_imp, false_and,
        false_or]
      exact ih tidy

theorem waits_takePending (s : PlanState) (aliasName other : String) (c : Condition) :
    (s.takePending aliasName).2.Waits other c ↔ other ≠ aliasName ∧ s.Waits other c := by
  simp only [takePending, Waits, List.mem_filter, decide_eq_true_eq]
  constructor
  · rintro ⟨entry, ⟨member, differs⟩, rfl, held⟩
    exact ⟨differs, entry, member, rfl, held⟩
  · rintro ⟨differs, entry, member, rfl, held⟩
    exact ⟨entry, ⟨member, differs⟩, rfl, held⟩

theorem Tidy.takePending {s : PlanState} (tidy : s.Tidy) (aliasName : String) :
    (s.takePending aliasName).2.Tidy :=
  List.Nodup.sublist (List.Sublist.map _ List.filter_sublist) tidy

theorem OptionalWithin.takePending {s : PlanState} {names : List String}
    (within : s.OptionalWithin names) (aliasName : String) :
    (s.takePending aliasName).2.OptionalWithin (names.filter (· ≠ aliasName)) := by
  intro entry member optional
  obtain ⟨member, differs⟩ := List.mem_filter.mp member
  exact List.mem_filter.mpr ⟨within entry member optional, differs⟩

theorem OptionalWithin.mono {s : PlanState} {names more : List String}
    (within : s.OptionalWithin names) (subset : ∀ name ∈ names, name ∈ more) :
    s.OptionalWithin more :=
  fun entry member optional => subset _ (within entry member optional)

theorem Tidy.takeAll {s : PlanState} (tidy : s.Tidy) (names : List String) :
    (Plan.takeAll s names).2.Tidy := by
  induction names generalizing s with
  | nil => exact tidy
  | cons name rest ih => exact ih (tidy.takePending name)

theorem waits_takeAll (s : PlanState) (names : List String) (other : String) (c : Condition) :
    (Plan.takeAll s names).2.Waits other c ↔ other ∉ names ∧ s.Waits other c := by
  induction names generalizing s with
  | nil => simp [Plan.takeAll]
  | cons name rest ih =>
    rw [show (Plan.takeAll s (name :: rest)).2 = (Plan.takeAll (s.takePending name).2 rest).2
      from rfl, ih, waits_takePending, List.mem_cons, not_or, and_left_comm, and_assoc]

theorem mem_takeAll {s : PlanState} (tidy : s.Tidy) (names : List String) (c : Condition) :
    c ∈ (Plan.takeAll s names).1 ↔ ∃ name ∈ names, s.Waits name c := by
  induction names generalizing s with
  | nil => simp [Plan.takeAll]
  | cons name rest ih =>
    have parts : (Plan.takeAll s (name :: rest)).1 =
        s.pendingFor name ++ (Plan.takeAll (s.takePending name).2 rest).1 := rfl
    rw [parts, List.mem_append, mem_pendingFor tidy, ih (tidy.takePending name)]
    simp only [waits_takePending, List.mem_cons, exists_eq_or_imp]
    constructor
    · rintro (first | ⟨other, member, -, waits⟩)
      · exact .inl first
      · exact .inr ⟨other, member, waits⟩
    · rintro (first | ⟨other, member, waits⟩)
      · exact .inl first
      · by_cases same : other = name
        · exact .inl (same ▸ waits)
        · exact .inr ⟨other, member, same, waits⟩

theorem OptionalWithin.takeAll {s : PlanState} {names : List String}
    (within : s.OptionalWithin names) : (Plan.takeAll s names).2.OptionalWithin [] := by
  induction names generalizing s with
  | nil => exact within
  | cons name rest ih =>
    apply ih
    refine (within.takePending name).mono ?_
    intro other member
    obtain ⟨member, differs⟩ := List.mem_filter.mp member
    simpa [of_decide_eq_true differs] using member

theorem takeAll_eq (s : PlanState) (names : List String) :
    ∃ pending, (Plan.takeAll s names).2 = { s with pending := pending } := by
  induction names generalizing s with
  | nil => exact ⟨s.pending, rfl⟩
  | cons name rest ih => exact ih _

@[simp] theorem takeAll_aliases (s : PlanState) (names : List String) :
    (Plan.takeAll s names).2.aliases = s.aliases := by
  obtain ⟨pending, same⟩ := takeAll_eq s names
  rw [same]

@[simp] theorem takeAll_planned (s : PlanState) (names : List String) :
    (Plan.takeAll s names).2.planned = s.planned := by
  obtain ⟨pending, same⟩ := takeAll_eq s names
  rw [same]

end take

section drain

-- Nothing that waits for an optional element is left, so that all of it becomes the WHERE clause.
theorem residual_drainPending {s : PlanState} (within : s.OptionalWithin []) :
    Plan.residual s.drainPending.1 = .ok (s.pending.flatMap (·.conditions)) := by
  have each : ∀ drained : List (Part × Condition), (∀ item ∈ drained, item.1 = .required) →
      Plan.residual drained = .ok (drained.map (·.2)) := by
    intro drained required
    induction drained with
    | nil => rfl
    | cons item rest ih =>
      obtain ⟨part, condition⟩ := item
      cases required _ (List.mem_cons_self ..)
      simp [Plan.residual, ih fun item member => required item (by simp [member]), Except.map]
  rw [each]
  · simp [drainPending, List.map_flatMap, Function.comp_def]
  · intro item member
    obtain ⟨entry, held, member⟩ := List.mem_flatMap.mp member
    obtain ⟨c, _, rfl⟩ := List.mem_map.mp member
    cases part : entry.part with
    | required => rfl
    | optional => exact absurd (within entry held part) (by simp)

theorem mem_residual (s : PlanState) (c : Condition) :
    c ∈ s.pending.flatMap (·.conditions) ↔ ∃ aliasName, s.Waits aliasName c := by
  simp only [List.mem_flatMap, Waits]
  constructor
  · rintro ⟨entry, member, held⟩
    exact ⟨entry.aliasName, entry, member, rfl, held⟩
  · rintro ⟨_, entry, member, _, held⟩
    exact ⟨entry, member, held⟩

theorem mem_of_residual {s : PlanState} {conditions : List Condition}
    (left : Plan.residual s.drainPending.1 = .ok conditions) (c : Condition) :
    c ∈ conditions ↔ ∃ aliasName, s.Waits aliasName c := by
  have each : ∀ drained : List (Part × Condition), ∀ conditions,
      Plan.residual drained = .ok conditions → conditions = drained.map (·.2) := by
    intro drained
    induction drained with
    | nil =>
      intro conditions left
      cases left
      rfl
    | cons item rest ih =>
      intro conditions left
      obtain ⟨part, condition⟩ := item
      cases part with
      | optional => cases left
      | required =>
        obtain ⟨others, later, same⟩ := map_ok_iff.mp left
        rw [← same, ih others later, List.map_cons]
  rw [each _ _ left, drainPending, List.map_flatMap]
  simp only [List.map_map, Function.comp_def, List.map_id']
  exact mem_residual s c

end drain

end PlanState

end GraphSql
