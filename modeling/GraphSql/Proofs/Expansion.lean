import GraphSql.Proofs.Basic
import GraphSql.Settings

namespace GraphSql.Expansion
open Text

-- Expansion is one substitution from left to right: a text is cut in exactly one way into
-- references and single characters, and the values of the references take their places.

inductive Segment where
  | literal (c : Char)
  | bare (name : List Char)
  | braced (name : List Char) (closed : Bool)

namespace Segment

def source : Segment → List Char
  | literal c => [c]
  | bare name => '$' :: name
  | braced name closed => '$' :: '\x7b' :: (name ++ if closed then ['\x7d'] else [])

def piece : Segment → Piece
  | literal c => .literal c
  | bare name => .reference (String.ofList name)
  | braced name _ => .reference (String.ofList name)

-- A text is cut after a segment when the segment is as long as it can be. A dollar sign stands for
-- itself only where no reference starts, and a brace is missing only at the end.
def Fits (rest : List Char) : Segment → Prop
  | literal c => c = '$' → ∀ next, rest.head? = some next → next ≠ '\x7b' ∧ isNameChar next = false
  | bare name => name ≠ [] ∧ (∀ c ∈ name, isNameChar c = true) ∧
      ∀ next, rest.head? = some next → isNameChar next = false
  | braced name closed => '\x7d' ∉ name ∧ (closed = false → rest = [])

end Segment

inductive Cut : List Char → List Segment → Prop where
  | nil : Cut [] []
  | cons {segment : Segment} {rest : List Char} {segments : List Segment}
      (fits : segment.Fits rest) (later : Cut rest segments) :
      Cut (segment.source ++ rest) (segment :: segments)

namespace Piece

def name? : Piece → Option String
  | literal _ => none
  | reference name => some name

def written (value : String → Option String) : Piece → List Char
  | literal c => [c]
  | reference name => ((value name).getD "").toList

end Piece

theorem exists_braced (cs : List Char) : ∃ name closed rest,
    (Segment.braced name closed).Fits rest ∧
      '$' :: '\x7b' :: cs = (Segment.braced name closed).source ++ rest := by
  by_cases closes : '\x7d' ∈ cs
  · obtain ⟨name, rest, rfl, outside⟩ := List.eq_append_cons_of_mem closes
    exact ⟨name, true, rest, ⟨outside, by simp⟩, by simp [Segment.source]⟩
  · exact ⟨cs, false, [], ⟨closes, fun _ => rfl⟩, by simp [Segment.source]⟩

theorem braced_run {name rest : List Char} {closed : Bool}
    (fits : (Segment.braced name closed).Fits rest) :
    (name ++ (if closed then ['\x7d'] else []) ++ rest).takeWhile (· != '\x7d') = name ∧
      ((name ++ (if closed then ['\x7d'] else []) ++ rest).dropWhile (· != '\x7d')).drop 1 =
        rest := by
  obtain ⟨outside, missing⟩ := fits
  have inside : ∀ c ∈ name, (c != '\x7d') = true := by
    intro c member
    apply bne_iff_ne.mpr
    intro same
    exact outside (same ▸ member)
  have stop : ∀ c, ((if closed then ['\x7d'] else []) ++ rest).head? = some c →
      (c != '\x7d') = false := by
    cases closed with
    | true => simp
    | false => simp [missing rfl]
  rw [List.append_assoc]
  obtain ⟨taken, left⟩ := takeWhile_run inside stop
  refine ⟨taken, ?_⟩
  rw [left]
  cases closed with
  | true => rfl
  | false => simp [missing rfl]

theorem braced_closed {name rest : List Char} {closed : Bool}
    (fits : (Segment.braced name closed).Fits rest) :
    closed = true ↔ '\x7d' ∈ name ++ (if closed then ['\x7d'] else []) ++ rest := by
  cases closed with
  | true => simp
  | false => simp [fits.1, fits.2 rfl]

theorem exists_first (c : Char) (cs : List Char) :
    ∃ segment rest, Segment.Fits rest segment ∧ c :: cs = segment.source ++ rest := by
  by_cases dollar : c = '$'
  · subst dollar
    by_cases brace : cs.head? = some '\x7b'
    · obtain ⟨tail, rfl⟩ := List.head?_eq_some_iff.mp brace
      obtain ⟨name, closed, rest, fits, same⟩ := exists_braced tail
      exact ⟨_, rest, fits, same⟩
    · by_cases named : cs.takeWhile isNameChar = []
      · refine ⟨.literal '$', cs, ?_, rfl⟩
        intro _ next first
        obtain ⟨tail, rfl⟩ := List.head?_eq_some_iff.mp first
        refine ⟨fun same => brace (by rw [same]; rfl), ?_⟩
        cases accepted : isNameChar next with
        | false => rfl
        | true => simp [accepted] at named
      · refine ⟨.bare (cs.takeWhile isNameChar), cs.dropWhile isNameChar, ⟨named, ?_, ?_⟩, ?_⟩
        · intro d member
          exact List.all_eq_true.mp List.all_takeWhile d member
        · intro next first
          obtain ⟨tail, left⟩ := List.head?_eq_some_iff.mp first
          exact kept_of_dropWhile isNameChar cs tail next left
        · simp [Segment.source]
  · exact ⟨.literal c, cs, fun same => absurd same dollar, rfl⟩

theorem ne_brace_of_nameChar {c : Char} (accepted : isNameChar c = true) : c ≠ '\x7b' := by
  intro same
  have refused : isNameChar '\x7b' = false := by decide +kernel
  rw [same, refused] at accepted
  cases accepted

theorem head_of_bare {name rest : List Char} (fits : (Segment.bare name).Fits rest) :
    ∃ first tail, name = first :: tail ∧ isNameChar first = true := by
  obtain ⟨nonempty, all, -⟩ := fits
  obtain ⟨first, tail, rfl⟩ := List.exists_cons_of_ne_nil nonempty
  exact ⟨first, tail, rfl, all first List.mem_cons_self⟩

theorem literal_ne_bare {c : Char} {name rest other : List Char}
    (fits : (Segment.literal c).Fits rest) (suits : (Segment.bare name).Fits other) :
    (Segment.literal c).source ++ rest ≠ (Segment.bare name).source ++ other := by
  intro same
  obtain ⟨first, tail, rfl, accepted⟩ := head_of_bare suits
  obtain ⟨dollar, rfl⟩ := List.cons.inj same
  have refused := (fits dollar first rfl).2
  rw [accepted] at refused
  cases refused

theorem literal_ne_braced {c : Char} {name rest other : List Char} {closed : Bool}
    (fits : (Segment.literal c).Fits rest) :
    (Segment.literal c).source ++ rest ≠ (Segment.braced name closed).source ++ other := by
  intro same
  obtain ⟨dollar, rfl⟩ := List.cons.inj same
  exact (fits dollar '\x7b' rfl).1 rfl

theorem bare_ne_braced {name within rest other : List Char} {closed : Bool}
    (fits : (Segment.bare name).Fits rest) :
    (Segment.bare name).source ++ rest ≠ (Segment.braced within closed).source ++ other := by
  intro same
  obtain ⟨first, tail, rfl, accepted⟩ := head_of_bare fits
  exact ne_brace_of_nameChar accepted (List.cons.inj (List.cons.inj same).2).1

theorem first_unique {segment also : Segment} {rest other : List Char}
    (fits : segment.Fits rest) (suits : also.Fits other)
    (same : segment.source ++ rest = also.source ++ other) : segment = also ∧ rest = other := by
  cases segment with
  | literal c =>
    cases also with
    | literal d =>
      obtain ⟨rfl, rfl⟩ := List.cons.inj same
      exact ⟨rfl, rfl⟩
    | bare name => exact absurd same (literal_ne_bare fits suits)
    | braced name closed => exact absurd same (literal_ne_braced fits)
  | bare name =>
    cases also with
    | literal d => exact absurd same.symm (literal_ne_bare suits fits)
    | bare later =>
      have tails : name ++ rest = later ++ other := (List.cons.inj same).2
      obtain ⟨taken, left⟩ := takeWhile_run fits.2.1 fits.2.2
      obtain ⟨again, remains⟩ := takeWhile_run suits.2.1 suits.2.2
      rw [tails] at taken left
      exact ⟨congrArg Segment.bare (taken.symm.trans again), left.symm.trans remains⟩
    | braced later closed => exact absurd same (bare_ne_braced fits)
  | braced name closed =>
    cases also with
    | literal d => exact absurd same.symm (literal_ne_braced suits)
    | bare later => exact absurd same.symm (bare_ne_braced suits)
    | braced later shut =>
      have tails : name ++ (if closed then ['\x7d'] else []) ++ rest =
          later ++ (if shut then ['\x7d'] else []) ++ other :=
        (List.cons.inj (List.cons.inj same).2).2
      -- Whether the brace is there can be told from the text, so the names end at the same place.
      have ends : closed = shut :=
        Bool.eq_iff_iff.mpr ((tails ▸ braced_closed fits).trans (braced_closed suits).symm)
      obtain ⟨taken, left⟩ := braced_run fits
      obtain ⟨again, remains⟩ := braced_run suits
      rw [tails] at taken left
      rw [ends, taken.symm.trans again]
      exact ⟨rfl, left.symm.trans remains⟩

theorem pieces_first {segment : Segment} {rest : List Char} (fits : segment.Fits rest) :
    pieces (segment.source ++ rest) = segment.piece :: pieces rest := by
  cases segment with
  | literal c =>
    rw [Segment.source, List.singleton_append, pieces, Segment.piece]
    by_cases dollar : c = '$'
    · have brace : rest.head? ≠ some '\x7b' := fun first => (fits dollar _ first).1 rfl
      have none : ∀ d ∈ ([] : List Char), isNameChar d = true := by simp
      have unnamed : rest.takeWhile isNameChar = [] :=
        (takeWhile_run none fun next first => (fits dollar next first).2).1
      rw [if_pos dollar, if_neg brace, unnamed, List.isEmpty_nil, if_pos rfl]
    · rw [if_neg dollar]
  | bare name =>
    obtain ⟨taken, left⟩ := takeWhile_run fits.2.1 fits.2.2
    obtain ⟨first, tail, same, accepted⟩ := head_of_bare fits
    have brace : (name ++ rest).head? ≠ some '\x7b' := by
      simpa [same] using ne_brace_of_nameChar accepted
    rw [Segment.source, List.cons_append, pieces, if_pos rfl, if_neg brace, taken, left,
      List.isEmpty_eq_false_iff.mpr fits.1, if_neg Bool.false_ne_true, Segment.piece]
  | braced name closed =>
    obtain ⟨taken, left⟩ := braced_run fits
    rw [Segment.source, List.cons_append, List.cons_append, pieces, if_pos rfl, List.head?_cons,
      if_pos rfl, List.tail_cons, taken, left, Segment.piece]

theorem exists_cut (cs : List Char) : ∃ segments, Cut cs segments := by
  induction size : cs.length using Nat.strongRecOn generalizing cs with
  | ind n ih =>
    cases cs with
    | nil => exact ⟨[], .nil⟩
    | cons c cs =>
      obtain ⟨segment, rest, fits, same⟩ := exists_first c cs
      have shorter : rest.length < n := by
        have first : 0 < segment.source.length := by cases segment <;> simp [Segment.source]
        rw [← size, same, List.length_append]
        omega
      obtain ⟨segments, later⟩ := ih rest.length shorter rest rfl
      rw [same]
      exact ⟨segment :: segments, .cons fits later⟩

theorem Cut.unique {cs : List Char} {segments others : List Segment} (cut : Cut cs segments)
    (other : Cut cs others) : others = segments := by
  induction cut generalizing others with
  | nil =>
    generalize none : ([] : List Char) = cs at other
    cases other with
    | nil => rfl
    | @cons segment rest _ fits later => cases segment <;> simp [Segment.source] at none
  | @cons segment rest _ fits later ih =>
    generalize same : segment.source ++ rest = cs at other
    cases other with
    | nil => cases segment <;> simp [Segment.source] at same
    | cons suits further =>
      obtain ⟨rfl, rfl⟩ := first_unique fits suits same
      rw [ih further]

theorem Cut.pieces {cs : List Char} {segments : List Segment} (cut : Cut cs segments) :
    pieces cs = segments.map Segment.piece := by
  induction cut with
  | nil => rw [Expansion.pieces, List.map_nil]
  | cons fits later ih => rw [pieces_first fits, ih, List.map_cons]

variable {value : String → Option String}

theorem substitute_eq (parts : List Piece) :
    substitute value parts =
      ((parts.filterMap Piece.name?).find? fun name => (value name).isNone).elim
        (.ok (parts.flatMap (Piece.written value))) .error := by
  induction parts with
  | nil => rfl
  | cons part parts ih =>
    cases part with
    | literal c =>
      simp only [substitute, ih, List.filterMap_cons, Piece.name?, List.flatMap_cons]
      cases (parts.filterMap Piece.name?).find? fun name => (value name).isNone with
      | none => rfl
      | some name => rfl
    | reference name =>
      simp only [substitute, List.filterMap_cons, Piece.name?, List.find?_cons, List.flatMap_cons,
        Piece.written]
      cases found : value name with
      | none => rfl
      | some text =>
        rw [ih]
        cases (parts.filterMap Piece.name?).find? fun name => (value name).isNone with
        | none => rfl
        | some name => rfl

theorem substitute_ok_iff {parts : List Piece} {cs : List Char} :
    substitute value parts = .ok cs ↔
      (∀ name ∈ parts.filterMap Piece.name?, value name ≠ none) ∧
        cs = parts.flatMap (Piece.written value) := by
  rw [substitute_eq]
  cases first : (parts.filterMap Piece.name?).find? fun name => (value name).isNone with
  | none =>
    have set : ∀ name ∈ parts.filterMap Piece.name?, value name ≠ none := by
      intro name member
      simpa using List.find?_eq_none.mp first name member
    constructor
    · intro same
      exact ⟨set, (Except.ok.inj same).symm⟩
    · intro whole
      rw [whole.2, Option.elim_none]
  | some name =>
    constructor
    · intro same
      cases same
    · intro whole
      have set := whole.1 name (List.mem_of_find?_eq_some first)
      have unset := List.find?_some first
      exact absurd (Option.isNone_iff_eq_none.mp unset) set

theorem substitute_error_iff {parts : List Piece} {name : String} :
    substitute value parts = .error name ↔
      ∃ before after, parts.filterMap Piece.name? = before ++ name :: after ∧
        (∀ earlier ∈ before, value earlier ≠ none) ∧ value name = none := by
  have leftmost : substitute value parts = .error name ↔
      (parts.filterMap Piece.name?).find? (fun name => (value name).isNone) = some name := by
    rw [substitute_eq]
    cases (parts.filterMap Piece.name?).find? fun name => (value name).isNone <;> simp
  rw [leftmost, List.find?_eq_some_iff_append]
  constructor
  · intro found
    obtain ⟨unset, before, after, split, set⟩ := found
    exact ⟨before, after, split, by simpa [Option.isSome_iff_ne_none] using set,
      Option.isNone_iff_eq_none.mp unset⟩
  · intro found
    obtain ⟨before, after, split, set, unset⟩ := found
    exact ⟨Option.isNone_iff_eq_none.mpr unset, before, after, split,
      by simpa [Option.isSome_iff_ne_none] using set⟩

-- Values are put in as they are: a reference within one is not looked at.
theorem expand_substitutes (value : String → Option String) (text : String) :
    ∃ segments, Cut text.toList segments ∧
      (∀ others, Cut text.toList others → others = segments) ∧
      (∀ result, (expand value text).mapError SettingsError.missingVariable = .ok result ↔
        (∀ name ∈ (segments.map Segment.piece).filterMap Piece.name?, value name ≠ none) ∧
          result.toList = (segments.map Segment.piece).flatMap (Piece.written value)) ∧
      ∀ e, (expand value text).mapError SettingsError.missingVariable = .error e ↔
        ∃ before name after,
          (segments.map Segment.piece).filterMap Piece.name? = before ++ name :: after ∧
            (∀ earlier ∈ before, value earlier ≠ none) ∧ value name = none ∧
              e = .missingVariable name := by
  obtain ⟨segments, cut⟩ := exists_cut text.toList
  refine ⟨segments, cut, fun _ other => cut.unique other, ?_, ?_⟩
  · intro result
    rw [mapError_ok, expand, cut.pieces, map_ok_iff]
    constructor
    · intro made
      obtain ⟨cs, put, rfl⟩ := made
      rw [String.toList_ofList]
      exact substitute_ok_iff.mp put
    · intro whole
      exact ⟨result.toList, substitute_ok_iff.mpr whole, String.ofList_toList⟩
  · intro e
    rw [mapError_error_iff, expand, cut.pieces]
    constructor
    · intro failed
      obtain ⟨name, missing, rfl⟩ := failed
      obtain ⟨before, after, split, set, unset⟩ :=
        substitute_error_iff.mp (map_error_iff.mp missing)
      exact ⟨before, name, after, split, set, unset, rfl⟩
    · intro found
      obtain ⟨before, name, after, split, set, unset, rfl⟩ := found
      have missing := substitute_error_iff.mpr ⟨before, after, split, set, unset⟩
      exact ⟨name, map_error_iff.mpr missing, rfl⟩

example : (expand (fun name => if name = "A" then some "$B" else none)
      "x$$A\x7d$\x7bA\x7d$-$\x7bA").toOption = some "x$$B\x7d$B$-$B" := by
  decide +kernel

end GraphSql.Expansion
