import Mathlib.Data.List.Basic
import GraphSql.Proofs.NTriples.Literals

namespace GraphSql

-- Lines: how the terms of a triple are set apart, and which triples are read again from their
-- canonical line.

namespace NTriples
open Text

theorem Suffix.chars {form : String} {tail : List Char} {n : Node} (suffix : Suffix form tail n) :
    n.chars = Node.quoted form ++ tail := by
  cases suffix with
  | plain => exact (List.append_nil _).symm
  | tagged tag => rfl
  | typed datatype => rfl

theorem chars_of_readLiteral {cs : List Char} {n : Node} (read : readLiteral cs = .ok n) :
    ∃ inner form tail, cs = '"' :: inner ++ '"' :: tail ∧ n.chars = Node.quoted form ++ tail := by
  obtain ⟨inner, tail, parts⟩ := readLiteral_ok_iff.mp read
  obtain ⟨form, -, suffix⟩ := parts.decoded
  exact ⟨inner, String.ofList form, tail, parts.whole, suffix.chars⟩

structure Gap (run : List Char) : Prop where
  nonempty : run ≠ []
  gaps : ∀ c ∈ run, isGap c = true

def Gapless (cs : List Char) : Prop := ∀ c ∈ cs, isGap c = false

theorem readPart_ok {α : Type} {read : List Char → Except ParseError α} {start length : Nat}
    {part : List Char} {a : α} : readPart read start length part = .ok a ↔ read part = .ok a :=
  mapError_ok

theorem cut_term {term gap rest : List Char} (whole : Gapless term) (between : Gap gap)
    (stop : ∀ c, rest.head? = some c → isGap c = false) :
    (term ++ (gap ++ rest)).takeWhile (!isGap ·) = term ∧
      (term ++ (gap ++ rest)).dropWhile (!isGap ·) = gap ++ rest ∧
      (gap ++ rest).dropWhile isGap = rest := by
  have inside : ∀ c ∈ term, (!isGap c) = true := by
    intro c member
    simp [whole c member]
  have start : ∀ c, (gap ++ rest).head? = some c → (!isGap c) = false := by
    intro c first
    cases gap with
    | nil => exact absurd rfl between.nonempty
    | cons d gap =>
      cases first
      simp [between.gaps c (by simp)]
  obtain ⟨taken, left⟩ := takeWhile_run inside start
  exact ⟨taken, left, (takeWhile_run between.gaps stop).2⟩

theorem exists_cut {cs : List Char} (more : cs.dropWhile (!isGap ·) ≠ []) :
    ∃ term gap rest, cs = term ++ (gap ++ rest) ∧ Gapless term ∧ Gap gap ∧
      ∀ c, rest.head? = some c → isGap c = false := by
  refine ⟨cs.takeWhile (!isGap ·), (cs.dropWhile (!isGap ·)).takeWhile isGap,
    (cs.dropWhile (!isGap ·)).dropWhile isGap, ?_, ?_, ⟨?_, ?_⟩, ?_⟩
  · rw [List.takeWhile_append_dropWhile, List.takeWhile_append_dropWhile]
  · intro c member
    simpa using List.all_eq_true.mp List.all_takeWhile c member
  · cases left : cs.dropWhile (!isGap ·) with
    | nil => exact absurd left more
    | cons c rest =>
      have gap := kept_of_dropWhile (!isGap ·) cs rest c left
      simp only [Bool.not_eq_false'] at gap
      simp [gap]
  · exact List.all_eq_true.mp List.all_takeWhile
  · intro c first
    obtain ⟨rest, left⟩ := List.head?_eq_some_iff.mp first
    exact kept_of_dropWhile isGap _ rest c left

inductive Spaced (subject predicate object : List Char) : List Char → Prop where
  | intro {first second : List Char} (subjectWhole : Gapless subject) (between : Gap first)
      (predicateWhole : Gapless predicate) (behind : Gap second) :
      Spaced subject predicate object (subject ++ (first ++ (predicate ++ (second ++ object))))

theorem head_chars (i : Iri) (rest : List Char) {c : Char}
    (first : (i.chars ++ rest).head? = some c) : isGap c = false := by
  cases first
  rfl

theorem head_of_readNode {cs : List Char} {n : Node} (read : readNode cs = .ok n) {c : Char}
    (first : cs.head? = some c) : isGap c = false := by
  unfold readNode at read
  split at read
  next => cases first; rfl
  next => cases first; rfl
  next => cases read

theorem readTerms_of_spaced {length : Nat} {object body : List Char} {t : Triple}
    (spaced : Spaced t.subject.chars t.predicate.chars object body)
    (read : readNode object = .ok t.object) : readTerms length body = .ok t := by
  obtain @⟨first, second, subjectWhole, between, predicateWhole, behind⟩ := spaced
  obtain ⟨subject, afterSubject, fromPredicate⟩ :=
    cut_term subjectWhole between fun _ => head_chars t.predicate (second ++ object)
  obtain ⟨predicate, afterPredicate, fromObject⟩ :=
    cut_term predicateWhole behind fun _ => head_of_readNode read
  simp only [readTerms, subject, afterSubject, fromPredicate, predicate, afterPredicate, fromObject]
  rw [if_neg (by simp [between.nonempty]), readPart_ok.mpr (readIri_chars _)]
  rw [ok_bind, if_neg (by simp [behind.nonempty]), readPart_ok.mpr (readIri_chars _), ok_bind,
    readPart_ok.mpr read]
  rfl

theorem spaced_of_readTerms {length : Nat} {body : List Char} {t : Triple}
    (read : readTerms length body = .ok t) :
    ∃ object, Spaced t.subject.chars t.predicate.chars object body ∧
      readNode object = .ok t.object := by
  unfold readTerms at read
  obtain ⟨more, read⟩ := of_guard read
  obtain ⟨subject, first, rest, rfl, subjectWhole, between, stop⟩ :=
    exists_cut (mt List.isEmpty_iff.mpr more)
  obtain ⟨taken, left, skipped⟩ := cut_term subjectWhole between stop
  simp only [taken, left, skipped] at read
  obtain ⟨s, readSubject, read⟩ := bind_ok_iff.mp read
  obtain ⟨further, read⟩ := of_guard read
  obtain ⟨predicate, second, object, rfl, predicateWhole, behind, stop⟩ :=
    exists_cut (mt List.isEmpty_iff.mpr further)
  obtain ⟨taken, left, skipped⟩ := cut_term predicateWhole behind stop
  simp only [taken, left, skipped] at read
  obtain ⟨p, readPredicate, read⟩ := bind_ok_iff.mp read
  obtain ⟨o, readObject, same⟩ := bind_ok_iff.mp read
  cases same
  cases eq_chars_of_readIri (readPart_ok.mp readSubject)
  cases eq_chars_of_readIri (readPart_ok.mp readPredicate)
  exact ⟨object, .intro subjectWhole between predicateWhole behind, readPart_ok.mp readObject⟩

inductive Ended (body : List Char) : List Char → Prop where
  | intro {gap run : List Char} (kept : ∀ c, body.getLast? = some c → isGap c = false)
      (before : Gap gap) (after : ∀ c ∈ run, isGap c = true) :
      Ended body (body ++ (gap ++ '.' :: run))

theorem readTriple_of_ended {body line : List Char} (ended : Ended body line) :
    readTriple line = readTerms line.length body := by
  obtain @⟨gap, run, kept, before, after⟩ := ended
  have shape : body ++ (gap ++ '.' :: run) = body ++ gap ++ ['.'] ++ run := by simp
  have upToDot : trimEnd isGap (body ++ (gap ++ '.' :: run)) = body ++ gap ++ ['.'] := by
    rw [shape, trimEnd_append _ after]
    apply trimEnd_of_last
    intro c last
    simp only [List.getLast?_concat, Option.some.injEq] at last
    cases last
    rfl
  have beforeDot : trimEnd isGap (body ++ gap) = body := by
    rw [trimEnd_append _ before.gaps, trimEnd_of_last kept]
  have shorter : body.length ≠ (body ++ gap).length := by
    have := List.length_pos_iff.mpr before.nonempty
    rw [List.length_append]
    omega
  rw [readTriple, upToDot]
  simp only [List.getLast?_concat, if_true, List.dropLast_concat, beforeDot, if_neg shorter]

theorem exists_dot {line : List Char} (dot : (trimEnd isGap line).getLast? = some '.') :
    ∃ beforeDot gap run, trimEnd isGap line = beforeDot ++ ['.'] ∧
      beforeDot = trimEnd isGap beforeDot ++ gap ∧
      line = trimEnd isGap beforeDot ++ (gap ++ '.' :: run) ∧
      (∀ c ∈ gap, isGap c = true) ∧ ∀ c ∈ run, isGap c = true := by
  obtain ⟨beforeDot, upToDot⟩ := List.getLast?_eq_some_iff.mp dot
  obtain ⟨run, whole, after⟩ := exists_trimEnd isGap line
  obtain ⟨gap, before, gaps⟩ := exists_trimEnd isGap beforeDot
  refine ⟨beforeDot, gap, run, upToDot, before, ?_, gaps, after⟩
  calc line = beforeDot ++ ['.'] ++ run := by rw [← upToDot, ← whole]
    _ = trimEnd isGap beforeDot ++ gap ++ ['.'] ++ run := by rw [← before]
    _ = trimEnd isGap beforeDot ++ (gap ++ '.' :: run) := by simp

theorem ended_of_readTriple {line : List Char} {t : Triple} (read : readTriple line = .ok t) :
    ∃ body, Ended body line ∧ readTerms line.length body = .ok t := by
  unfold readTriple at read
  simp only at read
  split at read
  next dot =>
    obtain ⟨beforeDot, gap, run, upToDot, before, whole, gaps, after⟩ := exists_dot dot
    simp only [upToDot, List.dropLast_concat] at read
    obtain ⟨different, read⟩ := of_guard read
    have nonempty : gap ≠ [] := by
      rintro rfl
      rw [List.append_nil] at before
      exact different (congrArg List.length before.symm)
    have ended : Ended _ (trimEnd isGap beforeDot ++ (gap ++ '.' :: run)) :=
      .intro (fun _ => kept_of_trimEnd) ⟨nonempty, gaps⟩ after
    exact ⟨trimEnd isGap beforeDot, whole ▸ ended, read⟩
  next => cases read

theorem readTriple_ok_iff {line : List Char} {t : Triple} :
    readTriple line = .ok t ↔ ∃ object body, Spaced t.subject.chars t.predicate.chars object body ∧
      Ended body line ∧ readNode object = .ok t.object := by
  constructor
  · intro read
    obtain ⟨body, ended, terms⟩ := ended_of_readTriple read
    obtain ⟨object, spaced, found⟩ := spaced_of_readTerms terms
    exact ⟨object, body, spaced, ended, found⟩
  · rintro ⟨object, body, spaced, ended, found⟩
    rw [readTriple_of_ended ended]
    exact readTerms_of_spaced spaced found

-- The gaps of the canonical line are all where they belong: none is inside an IRI or at the end of
-- the object.
structure Clear (t : Triple) : Prop where
  subject : Gapless t.subject.chars
  predicate : Gapless t.predicate.chars
  object : ∀ c, t.object.chars.getLast? = some c → isGap c = false

theorem gap_blank : Gap [' '] := ⟨by simp, by simp [isGap]⟩

theorem readTriple_chars {t : Triple} (clear : Clear t) : readTriple t.chars = .ok t := by
  have nonempty : t.object.chars ≠ [] := by
    cases t.object <;> simp [Node.chars, Iri.chars, Node.quoted]
  have line : t.chars = t.subject.chars ++ ([' '] ++ (t.predicate.chars ++ ([' '] ++
      t.object.chars))) ++ ([' '] ++ '.' :: []) := by
    simp [Triple.chars]
  rw [readTriple_ok_iff]
  refine ⟨t.object.chars, _, .intro clear.subject gap_blank clear.predicate gap_blank, ?_,
    readNode_chars t.object⟩
  rw [line]
  refine .intro ?_ gap_blank (by simp)
  intro c last
  simp only [← List.append_assoc, List.getLast?_append_of_ne_nil _ nonempty] at last
  exact clear.object c last

theorem ne_nil_of_readNode {cs : List Char} {n : Node} (read : readNode cs = .ok n) : cs ≠ [] := by
  intro empty
  rw [empty] at read
  cases read

inductive LineOf (t : Triple) : List Char → Prop where
  | intro (between : Gap first) (behind : Gap second) (before : Gap third)
      (after : ∀ c ∈ last, isGap c = true) (subjectWhole : Gapless subject)
      (predicateWhole : Gapless predicate) (nonempty : object ≠ [])
      (start : ∀ c, object.head? = some c → isGap c = false)
      (stop : ∀ c, object.getLast? = some c → isGap c = false)
      (readSubject : readIri subject = .ok t.subject)
      (readPredicate : readIri predicate = .ok t.predicate)
      (readObject : readNode object = .ok t.object) :
      LineOf t (subject ++ first ++ predicate ++ second ++ object ++ third ++ '.' :: last)

theorem getLast?_spaced {subject predicate object body : List Char}
    (spaced : Spaced subject predicate object body) (nonempty : object ≠ []) :
    body.getLast? = object.getLast? := by
  obtain ⟨subjectWhole, between, predicateWhole, behind⟩ := spaced
  simp only [← List.append_assoc]
  exact List.getLast?_append_of_ne_nil _ nonempty

theorem readTriple_ok_iff_lineOf {line : List Char} {t : Triple} :
    readTriple line = .ok t ↔ LineOf t line := by
  rw [readTriple_ok_iff]
  constructor
  · intro found
    obtain ⟨object, body, spaced, ended, read⟩ := found
    have nonempty := ne_nil_of_readNode read
    have last := getLast?_spaced spaced nonempty
    obtain @⟨first, second, subjectWhole, between, predicateWhole, behind⟩ := spaced
    obtain @⟨third, run, kept, before, after⟩ := ended
    have whole := LineOf.intro between behind before after subjectWhole predicateWhole nonempty
      (fun _ => head_of_readNode read) (last ▸ kept) (readIri_chars t.subject)
      (readIri_chars t.predicate) read
    simpa only [List.append_assoc] using whole
  · intro line
    obtain @⟨first, second, third, run, subject, predicate, object, between, behind, before, after,
      subjectWhole, predicateWhole, nonempty, start, stop, readSubject, readPredicate,
      readObject⟩ := line
    cases eq_chars_of_readIri readSubject
    cases eq_chars_of_readIri readPredicate
    have spaced : Spaced _ _ object _ := .intro subjectWhole between predicateWhole behind
    refine ⟨object, _, spaced, ?_, readObject⟩
    have ended := Ended.intro (getLast?_spaced spaced nonempty ▸ stop) before after
    simpa only [List.append_assoc] using ended

-- A node ends as the text from which it was read. What stands before that end in the node's own
-- text is written without control characters.
theorem exists_tail_of_readNode {cs : List Char} {n : Node} (read : readNode cs = .ok n) :
    ∃ front written tail, cs = front ++ tail ∧ n.chars = written ++ tail ∧ tail ≠ [] ∧
      ∀ c ∈ written, 0x20 ≤ c.toNat := by
  unfold readNode at read
  split at read
  next =>
    obtain ⟨inner, form, tail, whole, chars⟩ := chars_of_readLiteral read
    refine ⟨'"' :: inner, '"' :: escape form.toList, '"' :: tail, whole, ?_, by simp, ?_⟩
    · simp [chars, Node.quoted]
    · intro c member
      rcases List.mem_cons.mp member with rfl | inside
      · decide
      · exact (shape_escape inside).1
  next cs rest =>
    obtain ⟨i, found, same⟩ := map_ok_iff.mp read
    cases same
    exact ⟨[], [], i.chars, eq_chars_of_readIri found, rfl, by simp [Iri.chars], by simp⟩
  next => cases read

theorem clear_of_readTriple {line : List Char} {t : Triple} (read : readTriple line = .ok t) :
    Clear t := by
  obtain ⟨object, body, spaced, ended, found⟩ := readTriple_ok_iff.mp read
  obtain ⟨subjectWhole, between, predicateWhole, behind⟩ := spaced
  obtain ⟨kept, before, after⟩ := ended
  obtain ⟨front, written, tail, rfl, chars, nonempty, -⟩ := exists_tail_of_readNode found
  refine ⟨subjectWhole, predicateWhole, ?_⟩
  intro c last
  apply kept c
  rw [chars, List.getLast?_append_of_ne_nil _ nonempty] at last
  simp only [← List.append_assoc, List.getLast?_append_of_ne_nil _ nonempty]
  exact last

theorem mem_line_of_mem_chars {line : List Char} {t : Triple} (read : readTriple line = .ok t)
    {c : Char} (member : c ∈ t.chars) (control : c.toNat < 0x20) : c ∈ line := by
  obtain ⟨object, body, spaced, ended, found⟩ := readTriple_ok_iff.mp read
  obtain ⟨subjectWhole, between, predicateWhole, behind⟩ := spaced
  obtain ⟨kept, before, after⟩ := ended
  obtain ⟨front, written, tail, rfl, chars, -, shape⟩ := exists_tail_of_readNode found
  have blank : c ≠ ' ' := by
    rintro rfl
    exact absurd control (by decide)
  have dot : c ≠ '.' := by
    rintro rfl
    exact absurd control (by decide)
  have fresh : c ∉ written := by
    intro inside
    have := shape c inside
    omega
  simp only [Triple.chars, chars, List.mem_append, List.mem_cons, blank, dot, fresh,
    List.not_mem_nil, or_false, false_or] at member ⊢
  rcases member with (inSubject | inPredicate) | inTail
  · exact .inl (.inl inSubject)
  · exact .inl (.inr (.inr (.inl inPredicate)))
  · exact .inl (.inr (.inr (.inr (.inr (.inr inTail)))))

theorem gapless_chars {i : Iri} (whole : Gapless i.text.toList) : Gapless i.chars := by
  intro c member
  rcases List.mem_append.mp member with front | last
  · rcases List.mem_cons.mp front with rfl | inside
    · rfl
    · exact whole c inside
  · cases List.mem_singleton.mp last
    rfl

-- Only a language tag can bring a gap to the end of a node's text.
theorem kept_of_chars {n : Node} (tagged : ∀ form tag, n = .tagged form tag →
      ∀ c, tag.text.toList.getLast? = some c → isGap c = false)
    {c : Char} (last : n.chars.getLast? = some c) : isGap c = false := by
  cases n with
  | iri i =>
    rw [Node.chars, Iri.chars, List.getLast?_concat] at last
    cases last
    rfl
  | plain form =>
    rw [Node.chars, Node.quoted, List.getLast?_concat] at last
    cases last
    rfl
  | tagged form tag =>
    have nonempty : tag.text.toList ≠ [] := by
      intro empty
      exact tag.nonempty (String.toList_eq_nil_iff.mp empty)
    rw [Node.chars, List.getLast?_append_of_ne_nil _ (by simp),
      List.getLast?_cons_of_ne_nil nonempty] at last
    exact tagged form tag rfl c last
  | typed form datatype =>
    rw [Node.chars, Iri.chars, ← List.cons_append, ← List.cons_append, ← List.append_assoc,
      List.getLast?_concat] at last
    cases last
    rfl

theorem readTriple_grammar :
    (∀ (line : List Char) (t : Triple), readTriple line = .ok t ↔ LineOf t line) ∧
      ∀ t : Triple, Gapless t.subject.text.toList → Gapless t.predicate.text.toList →
        (∀ form tag, t.object = .tagged form tag →
          ∀ c, tag.text.toList.getLast? = some c → isGap c = false) →
        readTriple t.display.toList = .ok t := by
  refine ⟨fun _ _ => readTriple_ok_iff_lineOf, ?_⟩
  intro t subject predicate tagged
  rw [Triple.display, String.toList_ofList]
  apply readTriple_chars
  refine ⟨gapless_chars subject, gapless_chars predicate, ?_⟩
  intro c last
  exact kept_of_chars tagged last

namespace Tide

def lightship : Iri := ⟨"urn:tide:lightship", by decide +kernel⟩

def reports : Iri := ⟨"urn:tide:reports", by decide +kernel⟩

def entry : Triple := ⟨lightship, reports, .tagged "ebb \t. \"slack\"@en ." ⟨"en\tGB", by decide⟩⟩

theorem gapless : Gapless lightship.text.toList ∧ Gapless reports.text.toList := by
  have first : lightship.text.toList.all (!isGap ·) = true := by decide +kernel
  have second : reports.text.toList.all (!isGap ·) = true := by decide +kernel
  constructor
  · intro c member
    simpa using List.all_eq_true.mp first c member
  · intro c member
    simpa using List.all_eq_true.mp second c member

theorem tag_kept (form : String) (tag : LanguageTag) (same : entry.object = .tagged form tag) :
    ∀ c, tag.text.toList.getLast? = some c → isGap c = false := by
  cases same
  intro c last
  cases (by decide +kernel : "en\tGB".toList.getLast? = some 'B').symm.trans last
  rfl

end Tide

theorem readTriple_grammar_tide :
    Gapless Tide.entry.subject.text.toList ∧ Gapless Tide.entry.predicate.text.toList ∧
      (∀ form tag, Tide.entry.object = .tagged form tag →
        ∀ c, tag.text.toList.getLast? = some c → isGap c = false) ∧
      readTriple Tide.entry.display.toList = .ok Tide.entry :=
  ⟨Tide.gapless.1, Tide.gapless.2, Tide.tag_kept,
    readTriple_grammar.2 Tide.entry Tide.gapless.1 Tide.gapless.2 Tide.tag_kept⟩

end NTriples

end GraphSql
