import GraphSql.Proofs.FirstBindings

namespace GraphSql
open Sql

-- Which conditions wait after any calls on a planning state, and with which part of the query each
-- of them is given out in the end.

section since

variable {α : Type} {starts stops : α → Prop} {history : List α} {last one two : α}

def Since (starts stops : α → Prop) (history : List α) : Prop :=
  ∃ before one after, history = before ++ one :: after ∧ starts one ∧
    ∀ later ∈ after, ¬ stops later

def Started (starts stops : α → Prop) (history : List α) (one : α) : Prop :=
  ∃ before after, history = before ++ one :: after ∧ starts one ∧
    (∀ later ∈ after, ¬ stops later) ∧ ¬ Since starts stops before

theorem since_nil : ¬ Since starts stops [] := by simp [Since]

theorem started_nil : ¬ Started starts stops [] one := by simp [Started]

theorem since_concat :
    Since starts stops (history ++ [last]) ↔
      starts last ∨ Since starts stops history ∧ ¬ stops last := by
  constructor
  · rintro ⟨before, one, after, split, started, kept⟩
    rcases split_concat split with ⟨rfl, rfl, -⟩ | ⟨rest, rfl, rfl⟩
    · exact .inl started
    · obtain ⟨earlier, final⟩ := List.forall_mem_append.mp kept
      exact .inr ⟨⟨before, one, rest, rfl, started, earlier⟩, final last (by simp)⟩
  · rintro (started | ⟨⟨before, one, after, rfl, started, kept⟩, goes⟩)
    · exact ⟨history, last, [], rfl, started, by simp⟩
    · refine ⟨before, one, after ++ [last], by simp, started, ?_⟩
      exact List.forall_mem_append.mpr ⟨kept, List.forall_mem_singleton.mpr goes⟩

theorem started_concat :
    Started starts stops (history ++ [last]) one ↔
      (one = last ∧ starts last ∧ ¬ Since starts stops history) ∨
        Started starts stops history one ∧ ¬ stops last := by
  constructor
  · rintro ⟨before, after, split, started, kept, new⟩
    rcases split_concat split with ⟨rfl, rfl, -⟩ | ⟨rest, rfl, rfl⟩
    · exact .inl ⟨rfl, started, new⟩
    · obtain ⟨earlier, final⟩ := List.forall_mem_append.mp kept
      exact .inr ⟨⟨before, rest, rfl, started, earlier, new⟩, final last (by simp)⟩
  · rintro (⟨rfl, started, new⟩ | ⟨⟨before, after, rfl, started, kept, new⟩, goes⟩)
    · exact ⟨history, [], rfl, started, by simp, new⟩
    · refine ⟨before, after ++ [last], by simp, started, ?_, new⟩
      exact List.forall_mem_append.mpr ⟨kept, List.forall_mem_singleton.mpr goes⟩

theorem Started.since (started : Started starts stops history one) :
    Since starts stops history := by
  obtain ⟨before, after, split, starts, kept, -⟩ := started
  exact ⟨before, one, after, split, starts, kept⟩

theorem Started.start (started : Started starts stops history one) : starts one := by
  obtain ⟨-, -, -, start, -⟩ := started
  exact start

theorem Since.started (apart : ∀ one, starts one → ¬ stops one)
    (since : Since starts stops history) : ∃ one, Started starts stops history one := by
  induction history using List.reverseRecOn with
  | nil => exact absurd since since_nil
  | append_singleton history last ih =>
    by_cases earlier : Since starts stops history
    · have goes : ¬ stops last := (since_concat.mp since).elim (apart last) And.right
      obtain ⟨one, started⟩ := ih earlier
      exact ⟨one, started_concat.mpr (.inr ⟨started, goes⟩)⟩
    · have new : starts last := (since_concat.mp since).elim id fun old => absurd old.1 earlier
      exact ⟨last, started_concat.mpr (.inl ⟨rfl, new, earlier⟩)⟩

theorem Started.unique (first : Started starts stops history one)
    (second : Started starts stops history two) : one = two := by
  induction history using List.reverseRecOn with
  | nil => exact absurd first started_nil
  | append_singleton history last ih =>
    rcases started_concat.mp first with ⟨rfl, -, new⟩ | ⟨old, -⟩
    · rcases started_concat.mp second with ⟨rfl, -⟩ | ⟨other, -⟩
      · rfl
      · exact absurd other.since new
    · rcases started_concat.mp second with ⟨-, -, new⟩ | ⟨other, -⟩
      · exact absurd old.since new
      · exact ih old other

end since

namespace PlanState

inductive Call where
  | setPart (part : Part)
  | add (aliasName : String) (c : Condition)
  | remove (aliasName : String) (c : Condition)
  | take (aliasName : String)
  | bind (bindings : Bindings) (pattern : TriplePattern)

-- What calls do to the conditions that wait. `part` is the part in force at the time.
inductive Deed where
  | added (part : Part) (aliasName : String) (c : Condition)
  | removed (aliasName : String) (c : Condition)
  | taken (aliasName : String)

def Call.partAfter (part : Part) : Call → Part
  | .setPart next => next
  | _ => part

def call (s : PlanState) : Call → PlanState
  | .setPart part => s.setPart part
  | .add aliasName c => s.addPending aliasName c
  | .remove aliasName c => s.removePending aliasName c
  | .take aliasName => (s.takePending aliasName).2
  | .bind bindings pattern => (s.tryBind bindings pattern).2.1

def run (s : PlanState) (calls : List Call) : PlanState := calls.foldl call s

def deeds (s : PlanState) (part : Part) : Call → List Deed
  | .setPart _ => []
  | .add aliasName c => [.added part aliasName c]
  | .remove aliasName c => [.removed aliasName c]
  | .take aliasName => [.taken aliasName]
  | .bind bindings pattern =>
    match (s.tryBind bindings pattern).1 with
    | none => []
    | some relation =>
      (ownConditions bindings (relation, pattern)).map (.added part relation.aliasName)

def history (s : PlanState) (part : Part) : List Call → List Deed
  | [] => []
  | c :: rest => s.deeds part c ++ (s.call c).history (c.partAfter part) rest

namespace Deed

def Adds (aliasName : String) (c : Condition) (d : Deed) : Prop :=
  ∃ part, d = .added part aliasName c

def Ends (aliasName : String) (c : Condition) (d : Deed) : Prop :=
  d = .removed aliasName c ∨ d = .taken aliasName

-- Conditions wait under an alias from the first that is added until all are taken.
def Opens (aliasName : String) (d : Deed) : Prop := ∃ part c, d = .added part aliasName c

def Closes (aliasName : String) (d : Deed) : Prop := d = .taken aliasName

end Deed

section outstanding

variable (history : List Deed) (aliasName : String)

def Outstanding (c : Condition) : Prop :=
  Since (Deed.Adds aliasName c) (Deed.Ends aliasName c) history

def AddedIn (c : Condition) (part : Part) : Prop :=
  Started (Deed.Adds aliasName c) (Deed.Ends aliasName c) history (.added part aliasName c)

def OpenedIn (part : Part) : Prop :=
  ∃ c, Started (Deed.Opens aliasName) (Deed.Closes aliasName) history (.added part aliasName c)

end outstanding

section deeds

variable {history : List Deed} {aliasName : String} {c : Condition} {part : Part} {d : Deed}

theorem outstanding_concat :
    Outstanding (history ++ [d]) aliasName c ↔
      d.Adds aliasName c ∨ Outstanding history aliasName c ∧ ¬ d.Ends aliasName c :=
  since_concat

theorem outstanding_iff :
    Outstanding history aliasName c ↔ ∃ part, AddedIn history aliasName c part := by
  constructor
  · intro outstanding
    have apart : ∀ d : Deed, d.Adds aliasName c → ¬ d.Ends aliasName c := by
      rintro _ ⟨part, rfl⟩ (removed | taken)
      · cases removed
      · cases taken
    obtain ⟨_, started⟩ := outstanding.started apart
    obtain ⟨part, rfl⟩ := started.start
    exact ⟨part, started⟩
  · rintro ⟨part, started⟩
    exact started.since

theorem since_opened_iff :
    Since (Deed.Opens aliasName) (Deed.Closes aliasName) history ↔
      ∃ part, OpenedIn history aliasName part := by
  constructor
  · intro since
    have apart : ∀ d : Deed, d.Opens aliasName → ¬ d.Closes aliasName := by
      rintro _ ⟨part, c, rfl⟩ taken
      cases taken
    obtain ⟨_, started⟩ := since.started apart
    obtain ⟨part, c, rfl⟩ := started.start
    exact ⟨part, c, started⟩
  · rintro ⟨part, c, started⟩
    exact started.since

theorem openedIn_concat :
    OpenedIn (history ++ [d]) aliasName part ↔
      ((∃ c, d = .added part aliasName c) ∧ ∀ other, ¬ OpenedIn history aliasName other) ∨
        OpenedIn history aliasName part ∧ d ≠ .taken aliasName := by
  have closed : ¬ Since (Deed.Opens aliasName) (Deed.Closes aliasName) history ↔
      ∀ other, ¬ OpenedIn history aliasName other := by
    rw [since_opened_iff, not_exists]
  simp only [OpenedIn, started_concat]
  constructor
  · rintro ⟨c, ⟨rfl, -, new⟩ | ⟨started, goes⟩⟩
    · exact .inl ⟨⟨c, rfl⟩, closed.mp new⟩
    · exact .inr ⟨⟨c, started⟩, goes⟩
  · rintro (⟨⟨c, rfl⟩, new⟩ | ⟨⟨c, started⟩, goes⟩)
    · exact ⟨c, .inl ⟨rfl, ⟨part, c, rfl⟩, closed.mpr new⟩⟩
    · exact ⟨c, .inr ⟨started, goes⟩⟩

theorem OpenedIn.unique {other : Part} (first : OpenedIn history aliasName part)
    (second : OpenedIn history aliasName other) : part = other := by
  obtain ⟨c, first⟩ := first
  obtain ⟨d, second⟩ := second
  cases first.unique second
  rfl

theorem Outstanding.opened (outstanding : Outstanding history aliasName c) :
    ∃ part, OpenedIn history aliasName part := by
  obtain ⟨before, d, after, split, ⟨part, rfl⟩, kept⟩ := outstanding
  exact since_opened_iff.mp ⟨before, _, after, split, ⟨part, c, rfl⟩,
    fun later member taken => kept later member (.inr taken)⟩

end deeds

def OpenAs (s : PlanState) (aliasName : String) (part : Part) : Prop :=
  ∃ entry ∈ s.pending, entry.aliasName = aliasName ∧ entry.part = part

section effects

variable {s : PlanState} {aliasName other : String} {added c : Condition} {part : Part}

theorem openAs_addPending :
    (s.addPending aliasName added).OpenAs other part ↔
      (part = s.part ∧ other = aliasName ∧ ∀ opened, ¬ s.OpenAs other opened) ∨
        s.OpenAs other part := by
  unfold OpenAs addPending
  simp only
  generalize s.pending = pending
  induction pending with
  | nil => simp [insertPending, eq_comm, and_comm]
  | cons entry rest ih =>
    unfold insertPending
    split
    next same =>
      subst same
      have closed : ¬ (part = s.part ∧ other = entry.aliasName ∧
          ∀ opened, ¬ ∃ held ∈ entry :: rest, held.aliasName = other ∧ held.part = opened) := by
        rintro ⟨-, rfl, new⟩
        exact new entry.part ⟨entry, List.mem_cons_self, rfl, rfl⟩
      rw [or_iff_right closed]
      simp
    next differs =>
      simp only [List.mem_cons, exists_eq_or_imp, ih]
      by_cases same : other = aliasName
      · subst same
        simp [differs]
      · simp [same]

theorem nodup_addPending (single : ∀ entry ∈ s.pending, entry.conditions.Nodup) :
    ∀ entry ∈ (s.addPending aliasName added).pending, entry.conditions.Nodup := by
  unfold addPending
  simp only
  generalize s.pending = pending at single
  induction pending with
  | nil => simp [insertPending]
  | cons head rest ih =>
    have later := ih fun entry member => single entry (List.mem_cons_of_mem _ member)
    have first := single head List.mem_cons_self
    unfold insertPending
    split
    next same =>
      intro entry member
      rcases List.mem_cons.mp member with rfl | member
      · exact nodup_appendNew _ _ first
      · exact single entry (List.mem_cons_of_mem _ member)
    next differs =>
      intro entry member
      rcases List.mem_cons.mp member with rfl | member
      · exact first
      · exact later entry member

theorem openAs_removePending :
    (s.removePending aliasName c).OpenAs other part ↔ s.OpenAs other part := by
  unfold OpenAs removePending
  simp only [List.mem_map, exists_exists_and_eq_and]
  refine exists_congr fun entry => and_congr_right fun _ => ?_
  split <;> rfl

theorem waits_removePending {removed : Condition}
    (single : ∀ entry ∈ s.pending, entry.conditions.Nodup) :
    (s.removePending aliasName removed).Waits other c ↔
      s.Waits other c ∧ ¬ (other = aliasName ∧ c = removed) := by
  unfold Waits removePending
  simp only [List.mem_map, exists_exists_and_eq_and]
  constructor
  · rintro ⟨entry, member, named, held⟩
    split at named
    next same =>
      rw [if_pos same, (single entry member).mem_erase_iff] at held
      exact ⟨⟨entry, member, named, held.2⟩, fun gone => held.1 gone.2⟩
    next differs =>
      rw [if_neg differs] at held
      exact ⟨⟨entry, member, named, held⟩, fun gone => differs (named.trans gone.1)⟩
  · rintro ⟨⟨entry, member, rfl, held⟩, kept⟩
    refine ⟨entry, member, ?_⟩
    split
    next same =>
      exact ⟨rfl, (single entry member).mem_erase_iff.mpr ⟨fun gone => kept ⟨same, gone⟩, held⟩⟩
    next differs => exact ⟨rfl, held⟩

theorem nodup_removePending (single : ∀ entry ∈ s.pending, entry.conditions.Nodup) :
    ∀ entry ∈ (s.removePending aliasName c).pending, entry.conditions.Nodup := by
  intro entry member
  obtain ⟨old, present, rfl⟩ := List.mem_map.mp member
  split
  next => exact (single old present).erase c
  next => exact single old present

theorem openAs_takePending :
    (s.takePending aliasName).2.OpenAs other part ↔ s.OpenAs other part ∧ other ≠ aliasName := by
  simp only [takePending, OpenAs, List.mem_filter, decide_eq_true_eq]
  constructor
  · rintro ⟨entry, ⟨member, differs⟩, rfl, same⟩
    exact ⟨⟨entry, member, rfl, same⟩, differs⟩
  · rintro ⟨⟨entry, member, rfl, same⟩, differs⟩
    exact ⟨entry, ⟨member, differs⟩, rfl, same⟩

end effects

-- The state holds what the history says: the outstanding conditions, once under each alias, and for
-- each alias the part it was opened in.
structure Reflects (history : List Deed) (s : PlanState) : Prop where
  tidy : s.Tidy
  single : ∀ entry ∈ s.pending, entry.conditions.Nodup
  waits : ∀ aliasName c, s.Waits aliasName c ↔ Outstanding history aliasName c
  opened : ∀ aliasName part, s.OpenAs aliasName part ↔ OpenedIn history aliasName part

section steps

variable {history : List Deed} {s t : PlanState}

theorem reflects_fresh (tables : TableMap) : Reflects [] (fresh tables) where
  tidy := List.nodup_nil
  single := by simp [fresh]
  waits := by simp [Waits, fresh, Outstanding, since_nil]
  opened := by simp [OpenAs, fresh, OpenedIn, started_nil]

theorem Reflects.of_pending (reflects : Reflects history s) (same : t.pending = s.pending) :
    Reflects history t where
  tidy := by
    have tidy := reflects.tidy
    rwa [Tidy, ← same] at tidy
  single := by
    rw [same]
    exact reflects.single
  waits := by
    intro aliasName c
    rw [← reflects.waits, Waits, Waits, same]
  opened := by
    intro aliasName part
    rw [← reflects.opened, OpenAs, OpenAs, same]

theorem Reflects.add (reflects : Reflects history s) (aliasName : String) (added : Condition) :
    Reflects (history ++ [.added s.part aliasName added]) (s.addPending aliasName added) where
  tidy := reflects.tidy.await aliasName [added]
  single := nodup_addPending reflects.single
  waits := by
    intro other c
    have waits := waits_await s aliasName [added] other c
    rw [List.mem_singleton, reflects.waits] at waits
    refine waits.trans ?_
    rw [outstanding_concat, or_comm]
    simp [Deed.Adds, Deed.Ends, eq_comm]
  opened := by
    intro other part
    rw [openAs_addPending, openedIn_concat, reflects.opened]
    simp only [reflects.opened]
    simp [eq_comm, and_assoc]

theorem Reflects.remove (reflects : Reflects history s) (aliasName : String) (removed : Condition) :
    Reflects (history ++ [.removed aliasName removed]) (s.removePending aliasName removed) where
  tidy := reflects.tidy.release aliasName [removed]
  single := nodup_removePending reflects.single
  waits := by
    intro other c
    rw [waits_removePending reflects.single, outstanding_concat, reflects.waits]
    simp [Deed.Adds, Deed.Ends, eq_comm]
  opened := by
    intro other part
    rw [openAs_removePending, openedIn_concat, reflects.opened]
    simp

theorem Reflects.take (reflects : Reflects history s) (aliasName : String) :
    Reflects (history ++ [.taken aliasName]) (s.takePending aliasName).2 where
  tidy := reflects.tidy.takePending aliasName
  single := fun entry member => reflects.single entry (List.mem_filter.mp member).1
  waits := by
    intro other c
    rw [waits_takePending, outstanding_concat, reflects.waits, and_comm]
    simp [Deed.Adds, Deed.Ends, eq_comm]
  opened := by
    intro other part
    rw [openAs_takePending, openedIn_concat, reflects.opened]
    simp [eq_comm]

theorem Reflects.await (reflects : Reflects history s) (aliasName : String)
    (conditions : List Condition) :
    Reflects (history ++ conditions.map (.added s.part aliasName))
      (s.await aliasName conditions) := by
  induction conditions generalizing history s with
  | nil => simpa [PlanState.await] using reflects
  | cons c rest ih =>
    have later := ih (reflects.add aliasName c)
    rwa [List.append_assoc] at later

theorem Reflects.call (reflects : Reflects history s) (c : Call) :
    Reflects (history ++ s.deeds s.part c) (s.call c) := by
  cases c with
  | setPart part =>
    rw [deeds, List.append_nil]
    exact reflects.of_pending rfl
  | add aliasName c => exact reflects.add aliasName c
  | remove aliasName c => exact reflects.remove aliasName c
  | take aliasName => exact reflects.take aliasName
  | bind bindings pattern =>
    rcases s.tryBind_cases bindings pattern with ⟨-, same⟩ | ⟨p, -, -, same⟩
    · simp only [deeds, PlanState.call, same, List.append_nil]
      exact reflects
    · simp only [deeds, PlanState.call, same]
      have given : Reflects history { s with
          aliases := { s.aliases with issued := s.aliases.issued ++ [p] }
          planned := s.planned ++ [pattern.folded] } := reflects.of_pending rfl
      exact given.await _ _

theorem call_part (s : PlanState) (c : Call) : (s.call c).part = c.partAfter s.part := by
  cases c with
  | bind bindings pattern =>
    rcases s.tryBind_cases bindings pattern with ⟨-, same⟩ | ⟨p, -, -, same⟩
    · simp [call, same, Call.partAfter]
    · simp [call, same, Call.partAfter, settle]
  | _ => rfl

theorem Reflects.run (reflects : Reflects history s) (calls : List Call) :
    Reflects (history ++ s.history s.part calls) (s.run calls) := by
  induction calls generalizing history s with
  | nil => simpa [PlanState.history, PlanState.run] using reflects
  | cons c rest ih =>
    have later := ih (reflects.call c)
    rwa [call_part, List.append_assoc] at later

end steps

def rows (s : PlanState) : List (String × Part × Condition) :=
  s.pending.flatMap fun entry => entry.conditions.map fun c => (entry.aliasName, entry.part, c)

section rows

variable {history : List Deed} {s : PlanState}

theorem drainPending_eq_rows (s : PlanState) : s.drainPending.1 = s.rows.map (·.2) := by
  simp [drainPending, rows, List.map_flatMap, Function.comp_def]

theorem mem_rows {aliasName : String} {part : Part} {c : Condition} :
    (aliasName, part, c) ∈ s.rows ↔
      ∃ entry ∈ s.pending, entry.aliasName = aliasName ∧ entry.part = part ∧
        c ∈ entry.conditions := by
  simp only [rows, List.mem_flatMap, List.mem_map, Prod.mk.injEq]
  refine exists_congr fun entry => and_congr_right fun _ => ?_
  constructor
  · rintro ⟨_, held, named, same, rfl⟩
    exact ⟨named, same, held⟩
  · rintro ⟨named, same, held⟩
    exact ⟨c, held, named, same, rfl⟩

theorem Reflects.nodup_rows (reflects : Reflects history s) :
    (s.rows.map fun row => (row.1, row.2.2)).Nodup := by
  have tidy := reflects.tidy
  have single := reflects.single
  unfold Tidy at tidy
  unfold rows
  generalize s.pending = pending at tidy single
  induction pending with
  | nil => exact List.nodup_nil
  | cons entry rest ih =>
    obtain ⟨apart, tidy⟩ := List.nodup_cons.mp tidy
    have later := ih tidy fun other member => single other (List.mem_cons_of_mem _ member)
    rw [List.flatMap_cons, List.map_append, List.map_map]
    refine List.nodup_append.mpr ⟨?_, later, ?_⟩
    · refine (single entry List.mem_cons_self).map ?_
      intro one two same
      exact (Prod.mk.inj same).2
    · rintro row first _ second rfl
      obtain ⟨c, -, rfl⟩ := List.mem_map.mp first
      obtain ⟨other, member, same⟩ := List.mem_map.mp second
      obtain ⟨held, present, member⟩ := List.mem_flatMap.mp member
      obtain ⟨d, -, rfl⟩ := List.mem_map.mp member
      exact apart (List.mem_map.mpr ⟨held, present, (Prod.mk.inj same).1⟩)

theorem Reflects.mem_rows_iff (reflects : Reflects history s) {aliasName : String} {part : Part}
    {c : Condition} :
    (aliasName, part, c) ∈ s.rows ↔
      Outstanding history aliasName c ∧ OpenedIn history aliasName part := by
  rw [mem_rows, ← reflects.waits, ← reflects.opened]
  constructor
  · rintro ⟨entry, member, named, same, held⟩
    exact ⟨⟨entry, member, named, held⟩, entry, member, named, same⟩
  · rintro ⟨⟨entry, member, rfl, held⟩, other, present, named, same⟩
    cases List.inj_on_of_nodup_map reflects.tidy present member named
    exact ⟨entry, member, rfl, same, held⟩

end rows

-- After any calls, those that fail included, the outstanding conditions are given out, each once
-- for every alias under which it waits. It has the part in which the alias was opened. This is the
-- part in which it was added itself, for all conditions, exactly if no alias that was opened in one
-- part has an outstanding condition from the other.
theorem drained_as_opened (tables : TableMap) (calls : List Call) :
    ∃ rows : List (String × Part × Condition),
      ((fresh tables).run calls).drainPending.1 = rows.map (·.2) ∧
        (rows.map fun row => (row.1, row.2.2)).Nodup ∧
        (∀ aliasName part c, (aliasName, part, c) ∈ rows ↔
          Outstanding ((fresh tables).history .required calls) aliasName c ∧
            OpenedIn ((fresh tables).history .required calls) aliasName part) ∧
        ((∀ aliasName part c, (aliasName, part, c) ∈ rows ↔
            AddedIn ((fresh tables).history .required calls) aliasName c part) ↔
          ∀ aliasName c part opened,
            AddedIn ((fresh tables).history .required calls) aliasName c part →
            OpenedIn ((fresh tables).history .required calls) aliasName opened →
            part = opened) := by
  have reflects : Reflects ((fresh tables).history .required calls) ((fresh tables).run calls) :=
    (reflects_fresh tables).run calls
  refine ⟨((fresh tables).run calls).rows, drainPending_eq_rows _, reflects.nodup_rows,
    fun _ _ _ => reflects.mem_rows_iff, ?_⟩
  simp only [reflects.mem_rows_iff]
  constructor
  · intro faithful aliasName c part opened added before
    exact ((faithful aliasName part c).mpr added).2.unique before
  · intro constant aliasName part c
    constructor
    · rintro ⟨outstanding, opened⟩
      obtain ⟨other, added⟩ := outstanding_iff.mp outstanding
      cases constant aliasName c other part added opened
      exact added
    · intro added
      have outstanding := outstanding_iff.mpr ⟨part, added⟩
      obtain ⟨opened, before⟩ := outstanding.opened
      cases constant aliasName c part opened added before
      exact ⟨outstanding, before⟩

end PlanState

-- The second condition is added in the optional part, under an alias that was opened in the
-- required one.
namespace Wicket

def north : Condition := .equal (.column ⟨"wicket", .subject⟩) (.value "north")

def shut : Condition := .equal (.column ⟨"wicket", .object⟩) (.value "shut")

def calls : List PlanState.Call := [.add "wicket" north, .setPart .optional, .add "wicket" shut]

theorem added_shut :
    PlanState.AddedIn ((PlanState.fresh []).history .required calls) "wicket" shut .optional := by
  refine ⟨[.added .required "wicket" north], [], rfl, ⟨.optional, rfl⟩, by simp, ?_⟩
  rintro ⟨before, one, after, split, ⟨part, rfl⟩, -⟩
  have member : PlanState.Deed.added part "wicket" shut ∈
      [PlanState.Deed.added .required "wicket" north] := by
    rw [split]
    simp
  cases List.mem_singleton.mp member

end Wicket

theorem PlanState.not_drained_as_added :
    ((fresh []).run Wicket.calls).drainPending.1 =
        [(.required, Wicket.north), (.required, Wicket.shut)] ∧
      ¬ ∃ rows : List (String × Part × Condition),
        ((fresh []).run Wicket.calls).drainPending.1 = rows.map (·.2) ∧
          (rows.map fun row => (row.1, row.2.2)).Nodup ∧
          ∀ aliasName part c, (aliasName, part, c) ∈ rows ↔
            AddedIn ((fresh []).history .required Wicket.calls) aliasName c part := by
  have drained : ((fresh []).run Wicket.calls).drainPending.1 =
      [(.required, Wicket.north), (.required, Wicket.shut)] := by decide
  refine ⟨drained, ?_⟩
  rintro ⟨rows, same, -, faithful⟩
  have row := (faithful "wicket" .optional Wicket.shut).mpr Wicket.added_shut
  have given : (Part.optional, Wicket.shut) ∈ rows.map (·.2) := List.mem_map_of_mem row
  rw [← same, drained] at given
  revert given
  decide

end GraphSql
