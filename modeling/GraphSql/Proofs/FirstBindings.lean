import GraphSql.Proofs.Planning.Telling

namespace GraphSql
open Sql

-- What the bindings hold after any triples have been bound, whether they were given tables or not:
-- for each variable the first column that holds it.

namespace PlanState

def tryBind (s : PlanState) (bindings : Bindings) (pattern : TriplePattern) :
    Option Relation × PlanState × Bindings :=
  match (s.bind bindings pattern).outcome with
  | .ok answer => answer
  | .error _ => (none, s, bindings)

theorem tryBind_cases (s : PlanState) (bindings : Bindings) (pattern : TriplePattern) :
    ((pattern.folded ∈ s.planned ∨ pattern.predicate.isVariable = true) ∧
        s.tryBind bindings pattern = (none, s, bindings)) ∨
      ∃ p, pattern.predicate = .iri p ∧ pattern.folded ∉ s.planned ∧
        s.tryBind bindings pattern =
          (some (s.aliases.relation p), s.settle bindings p pattern,
            Plan.addBindings bindings
              (JoinTree.leafVariables (s.aliases.relation p, pattern))) := by
  unfold tryBind
  rw [bind_outcome]
  by_cases known : pattern.folded ∈ s.planned
  · exact .inl ⟨.inl known, by simp [known]⟩
  · cases mapped : pattern.predicate with
    | «variable» v => exact .inl ⟨.inr rfl, by simp [known]⟩
    | iri p => exact .inr ⟨p, rfl, known, by simp [known]⟩

end PlanState

theorem prefix_addBindings (bindings more : Bindings) :
    bindings <+: Plan.addBindings bindings more := by
  unfold Plan.addBindings
  induction more generalizing bindings with
  | nil => exact List.prefix_refl bindings
  | cons entry rest ih =>
    rw [List.foldl_cons]
    split
    next => exact ih bindings
    next => exact (List.prefix_append bindings [entry]).trans (ih _)

theorem lookup_of_prefix {bindings more : Bindings} (within : bindings <+: more) {name : String}
    {column : Column} (held : bindings.lookup name = some column) :
    more.lookup name = some column := by
  obtain ⟨rest, rfl⟩ := within
  rw [List.lookup_append, held, Option.some_or]

theorem nodup_addBindings {bindings : Bindings} (more : Bindings)
    (keyed : (bindings.map (·.1)).Nodup) : ((Plan.addBindings bindings more).map (·.1)).Nodup := by
  unfold Plan.addBindings
  induction more generalizing bindings with
  | nil => exact keyed
  | cons entry rest ih =>
    rw [List.foldl_cons]
    apply ih
    split
    next => exact keyed
    next fresh =>
      rw [List.map_append]
      refine List.nodup_append.mpr ⟨keyed, by simp, ?_⟩
      intro name old other new same
      cases List.mem_singleton.mp new
      obtain ⟨held, member, rfl⟩ := List.mem_map.mp old
      apply fresh
      rw [← show held.1 = entry.1 from same, lookup_isSome_iff]
      exact ⟨held.2, member⟩

namespace Sql.JoinTree

def FirstAt (given : List (Relation × TriplePattern)) (name : String) (column : Column) : Prop :=
  ∃ before leaf after side, given = before ++ leaf :: after ∧
    (∀ earlier ∈ before, name ∉ earlier.2.names) ∧ name ∈ (nodeAt leaf side).names ∧
    (side = .object → name ∉ leaf.2.subject.names) ∧ column = leaf.1.column side

theorem lookup_leafVariables (leaf : Relation × TriplePattern) (name : String) :
    (leafVariables leaf).lookup name =
      if name ∈ leaf.2.subject.names then some (leaf.1.column .subject)
      else if name ∈ leaf.2.object.names then some (leaf.1.column .object) else none := by
  unfold leafVariables
  cases leaf.2.subject <;> cases leaf.2.object <;>
    simp [NodePattern.asVariable, NodePattern.names, lookup_first]

theorem firstAt_cons {leaf : Relation × TriplePattern} {given : List (Relation × TriplePattern)}
    {name : String} {column : Column} :
    FirstAt (leaf :: given) name column ↔
      (leafVariables leaf).lookup name = some column ∨
        name ∉ leaf.2.names ∧ FirstAt given name column := by
  rw [lookup_leafVariables]
  constructor
  · rintro ⟨before, found, after, side, order, earlier, named, first, rfl⟩
    cases before with
    | nil =>
      cases order
      left
      cases side with
      | subject => exact if_pos named
      | object =>
        rw [if_neg (first rfl)]
        exact if_pos named
    | cons head before =>
      cases order
      exact .inr ⟨earlier leaf List.mem_cons_self, before, found, after, side, rfl,
        fun other member => earlier other (List.mem_cons_of_mem _ member), named, first, rfl⟩
  · rintro (here | ⟨absent, before, found, after, side, rfl, earlier, rest⟩)
    · split at here
      next named =>
        cases here
        exact ⟨[], leaf, given, .subject, rfl, by simp, named, by simp, rfl⟩
      next unnamed =>
        obtain ⟨named, same⟩ := Option.ite_none_right_eq_some.mp here
        exact ⟨[], leaf, given, .object, rfl, by simp, named, fun _ => unnamed,
          (Option.some.inj same).symm⟩
    · refine ⟨leaf :: before, found, after, side, rfl, ?_, rest⟩
      intro other member
      rcases List.mem_cons.mp member with rfl | later
      · exact absent
      · exact earlier other later

theorem lookup_leafVariables_eq_none {leaf : Relation × TriplePattern} {name : String} :
    (leafVariables leaf).lookup name = none ↔ name ∉ leaf.2.names := by
  rw [lookup_leafVariables, TriplePattern.names, List.mem_append]
  by_cases subject : name ∈ leaf.2.subject.names <;> simp [subject]

theorem lookup_eq_some_iff_firstAt {given : List (Relation × TriplePattern)} {name : String}
    {column : Column} :
    (given.flatMap leafVariables).lookup name = some column ↔ FirstAt given name column := by
  induction given with
  | nil => simp [FirstAt]
  | cons leaf rest ih =>
    rw [List.flatMap_cons, List.lookup_append, firstAt_cons, Option.or_eq_some_iff, ih,
      lookup_leafVariables_eq_none]

end Sql.JoinTree

structure Record (given : List (Relation × TriplePattern)) (bindings : Bindings) : Prop where
  keyed : (bindings.map (·.1)).Nodup
  injective : ∀ one two column, bindings.lookup one = some column →
    bindings.lookup two = some column → one = two
  -- The column of a variable is in the only table with its alias, on a side where the triple of
  -- that table has the variable.
  sound : ∀ name aliasName side, bindings.lookup name = some ⟨aliasName, side⟩ →
    ∃ leaf ∈ given, leaf.1.aliasName = aliasName ∧ name ∈ (JoinTree.nodeAt leaf side).names ∧
      ∀ other ∈ given, other.1.aliasName = aliasName → other = leaf
  first : ∀ leaf ∈ given, ∀ name ∈ leaf.2.names,
    ∃ column, bindings.lookup name = some column ∧ JoinTree.FirstAt given name column

theorem record_addBindings {given : List (Relation × TriplePattern)}
    (apart : (given.map (·.1.aliasName)).Nodup) :
    Record given (Plan.addBindings [] (given.flatMap JoinTree.leafVariables)) := by
  have lookup : ∀ name, (Plan.addBindings [] (given.flatMap JoinTree.leafVariables)).lookup name =
      (given.flatMap JoinTree.leafVariables).lookup name := by
    intro name
    rw [lookup_addBindings, List.lookup_nil, Option.none_or]
  refine ⟨nodup_addBindings _ List.nodup_nil, ?_, ?_, ?_⟩
  · intro one two column first second
    rw [lookup] at first second
    exact name_of_column apart (mem_of_lookup first) (mem_of_lookup second)
  · intro name aliasName side held
    rw [lookup, JoinTree.lookup_eq_some_iff_firstAt] at held
    obtain ⟨before, leaf, after, other, rfl, -, named, -, same⟩ := held
    cases same
    have present : leaf ∈ before ++ leaf :: after := by simp
    exact ⟨leaf, present, rfl, named, fun other member equal =>
      List.inj_on_of_nodup_map apart member present equal⟩
  · intro leaf member name named
    obtain ⟨column, held⟩ := JoinTree.exists_held_iff.mpr ⟨leaf, member, named⟩
    obtain ⟨column, held⟩ := Option.isSome_iff_exists.mp ((lookup_isSome_iff _ _).mpr ⟨_, held⟩)
    exact ⟨column, (lookup name).trans held, JoinTree.lookup_eq_some_iff_firstAt.mp held⟩

structure Binder where
  state : PlanState
  bindings : Bindings
  given : List (Relation × TriplePattern)

namespace Binder

variable {b : Binder} {tables : TableMap} {done : List TriplePattern}

def fresh (tables : TableMap) : Binder := ⟨.fresh tables, [], []⟩

def bind (b : Binder) (t : TriplePattern) : Binder :=
  let (found, s, bindings) := b.state.tryBind b.bindings t
  ⟨s, bindings, b.given ++ (found.map (·, t)).toList⟩

def bindEach (b : Binder) (triples : List TriplePattern) : Binder := triples.foldl bind b

theorem bind_cases (b : Binder) (t : TriplePattern) :
    ((t.folded ∈ b.state.planned ∨ t.predicate.isVariable = true) ∧ b.bind t = b) ∨
      ∃ p, t.folded ∉ b.state.planned ∧
        b.bind t = ⟨b.state.settle b.bindings p t,
          Plan.addBindings b.bindings (JoinTree.leafVariables (b.state.aliases.relation p, t)),
          b.given ++ [(b.state.aliases.relation p, t)]⟩ := by
  unfold bind
  rcases b.state.tryBind_cases b.bindings t with ⟨refused, same⟩ | ⟨p, -, new, same⟩
  · exact .inl ⟨refused, by simp [same]⟩
  · exact .inr ⟨p, new, by simp [same]⟩

theorem bind_prefix (b : Binder) (t : TriplePattern) : b.bindings <+: (b.bind t).bindings := by
  rcases b.bind_cases t with ⟨-, same⟩ | ⟨p, -, same⟩
  · exact ⟨[], by rw [same, List.append_nil]⟩
  · rw [same]
    exact prefix_addBindings _ _

structure Follows (done : List TriplePattern) (b : Binder) : Prop where
  bound : b.bindings = Plan.addBindings [] (b.given.flatMap JoinTree.leafVariables)
  planned : b.state.planned = b.given.map (·.2.folded)
  among : ∀ leaf ∈ b.given, leaf.2 ∈ done
  -- Only a triple with a variable for its predicate has no table.
  covers : ∀ t ∈ done, t.predicate.isVariable = false → t.folded ∈ b.state.planned

theorem follows_fresh : Follows [] (fresh tables) := ⟨rfl, rfl, by simp [fresh], by simp⟩

theorem Follows.bind (follows : Follows done b) (t : TriplePattern) :
    Follows (done ++ [t]) (b.bind t) := by
  rcases b.bind_cases t with ⟨refused, same⟩ | ⟨p, -, same⟩
  · rw [same]
    refine ⟨follows.bound, follows.planned, ?_, List.forall_mem_append.mpr ⟨follows.covers, ?_⟩⟩
    · intro leaf member
      exact List.mem_append_left _ (follows.among leaf member)
    · intro u new mapped
      cases List.mem_singleton.mp new
      rcases refused with known | unmapped
      · exact known
      · rw [mapped] at unmapped
        cases unmapped
  · have planned : (b.state.settle b.bindings p t).planned = b.state.planned ++ [t.folded] := by
      simp [PlanState.settle]
    rw [same]
    refine ⟨?_, ?_, List.forall_mem_append.mpr ⟨?_, by simp⟩, ?_⟩
    · simp only [follows.bound, List.flatMap_append, List.flatMap_singleton,
        PlanState.addBindings_append]
    · simp only [planned, follows.planned, List.map_append, List.map_singleton]
    · intro leaf old
      exact List.mem_append_left _ (follows.among leaf old)
    · rw [planned]
      refine List.forall_mem_append.mpr ⟨?_, by simp⟩
      intro u old mapped
      exact List.mem_append_left _ (follows.covers u old mapped)

theorem Follows.bindEach (follows : Follows done b) (triples : List TriplePattern) :
    Follows (done ++ triples) (b.bindEach triples) := by
  induction triples generalizing done b with
  | nil => simpa [Binder.bindEach] using follows
  | cons t rest ih =>
    have later := ih (follows.bind t)
    rwa [List.append_assoc] at later

end Binder

-- Whatever triples are bound in turn, as long as their tables have different aliases: a call only
-- adds bindings, and in the end each variable of a triple with a table is bound to the first column
-- that holds it, and no other variable is bound to that one.
theorem first_bindings_recorded (tables : TableMap) (triples : List TriplePattern)
    (apart : (((Binder.fresh tables).bindEach triples).given.map (·.1.aliasName)).Nodup) :
    Record ((Binder.fresh tables).bindEach triples).given
        ((Binder.fresh tables).bindEach triples).bindings ∧
      (∀ before t after, triples = before ++ t :: after →
        ((Binder.fresh tables).bindEach before).bindings <+:
            ((Binder.fresh tables).bindEach (before ++ [t])).bindings ∧
          ∀ name column,
            ((Binder.fresh tables).bindEach before).bindings.lookup name = some column →
            ((Binder.fresh tables).bindEach (before ++ [t])).bindings.lookup name = some column) ∧
      (∀ leaf ∈ ((Binder.fresh tables).bindEach triples).given, leaf.2 ∈ triples) ∧
      ∀ t ∈ triples, t.predicate.isVariable = false →
        ∃ leaf ∈ ((Binder.fresh tables).bindEach triples).given, leaf.2.Same t := by
  have follows : Binder.Follows triples ((Binder.fresh tables).bindEach triples) :=
    Binder.follows_fresh.bindEach triples
  refine ⟨?_, ?_, follows.among, ?_⟩
  · rw [follows.bound]
    exact record_addBindings apart
  · intro before t after _
    have grows : ((Binder.fresh tables).bindEach before).bindings <+:
        ((Binder.fresh tables).bindEach (before ++ [t])).bindings := by
      rw [Binder.bindEach, Binder.bindEach, List.foldl_append]
      exact Binder.bind_prefix _ t
    exact ⟨grows, fun name column => lookup_of_prefix grows⟩
  · intro t member mapped
    have covered := follows.covers t member mapped
    rw [follows.planned] at covered
    exact List.mem_map.mp covered

namespace Orchard

def bears : Iri := ⟨"urn:orchard:bears", by decide +kernel⟩

def costs : Iri := ⟨"urn:orchard:costs", by decide +kernel⟩

def grafts : Iri := ⟨"urn:orchard:grafts", by decide +kernel⟩

def tables : TableMap := [(bears, "bears"), (costs, "costs")]

def tree : Variable := ⟨"tree", by decide +kernel⟩

def fruit : Variable := ⟨"fruit", by decide +kernel⟩

def pence : Variable := ⟨"pence", by decide +kernel⟩

def link : Variable := ⟨"link", by decide +kernel⟩

-- The second has a variable for its predicate, the third is the first again, and the last two have
-- one variable twice.
def triples : List TriplePattern :=
  [⟨.variable tree, .iri bears, .variable fruit⟩,
    ⟨.variable fruit, .variable link, .variable link⟩,
    ⟨.variable tree, .iri bears, .variable fruit⟩,
    ⟨.node (.iri grafts), .iri costs, .variable pence⟩,
    ⟨.variable fruit, .iri bears, .variable fruit⟩,
    ⟨.variable pence, .iri grafts, .variable pence⟩]

theorem apart : (((Binder.fresh tables).bindEach triples).given.map (·.1.aliasName)).Nodup := by
  decide +kernel

end Orchard

theorem first_bindings_recorded_orchard :
    (((Binder.fresh Orchard.tables).bindEach Orchard.triples).given.map (·.1.aliasName)).Nodup ∧
      ((Binder.fresh Orchard.tables).bindEach Orchard.triples).bindings =
        [("tree", ⟨"bears", .subject⟩), ("fruit", ⟨"bears", .object⟩),
          ("pence", ⟨"costs", .object⟩)] ∧
      Record ((Binder.fresh Orchard.tables).bindEach Orchard.triples).given
        ((Binder.fresh Orchard.tables).bindEach Orchard.triples).bindings :=
  ⟨Orchard.apart, by decide +kernel,
    (first_bindings_recorded Orchard.tables Orchard.triples Orchard.apart).1⟩

end GraphSql
