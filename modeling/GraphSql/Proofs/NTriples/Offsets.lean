import GraphSql.Proofs.NTriples.Lines

namespace GraphSql.NTriples

-- Offsets of errors: they stay inside the text that was given to the outermost reader and point at
-- the cause there, however deep the failing part was nested.

def Points (cs : List Char) (e : ParseError) : Prop :=
  match e.cause with
  | .unescapedBackslash | .incompleteEscape | .illegalEscape => cs[e.offset]? = some '\\'
  | .nonAscii => ∃ c, cs[e.offset]? = some c ∧ isAscii c = false
  | .absoluteIri => ∃ before, e.offset = before + 1 ∧ cs[before]? = some '<'
  | .openAngle => cs = [] ∨ ∃ c, cs[e.offset]? = some c ∧ c ≠ '<'
  | _ => True

structure Faithful (cs : List Char) (e : ParseError) : Prop where
  inside : e.offset < max 1 cs.length
  points : Points cs e

theorem faithful_within {cs : List Char} {cause : Cause} {offset : Nat}
    (points : Points cs (.within cs.length cause offset)) :
    Faithful cs (.within cs.length cause offset) := by
  refine ⟨?_, points⟩
  simp only [ParseError.within]
  omega

theorem getElem?_part {front part back : List Char} {k : Nat} (inside : k < part.length) :
    (front ++ part ++ back)[k + front.length]? = part[k]? := by
  rw [List.getElem?_append_left (by rw [List.length_append]; omega),
    List.getElem?_append_right (by omega), Nat.add_sub_cancel]

theorem Faithful.shift {cs front part back : List Char} {e : ParseError} (inner : Faithful part e)
    (whole : cs = front ++ part ++ back)
    (empty : part = [] → Points cs (e.shift front.length cs.length)) :
    Faithful cs (e.shift front.length cs.length) := by
  apply faithful_within
  by_cases nothing : part = []
  · exact empty nothing
  · have positive := List.length_pos_iff.mpr nothing
    have inside : e.offset < part.length := by
      have := inner.inside
      omega
    have total : cs.length = front.length + part.length + back.length := by
      rw [whole, List.length_append, List.length_append]
    have here : min (e.offset + front.length) (cs.length - 1) = e.offset + front.length := by
      omega
    have look : ∀ k, k < part.length → cs[k + front.length]? = part[k]? := by
      intro k small
      rw [whole]
      exact getElem?_part small
    have points := inner.points
    obtain ⟨cause, offset⟩ := e
    simp only [ParseError.within, here]
    cases cause with
    | unescapedBackslash => exact (look offset inside).trans points
    | incompleteEscape => exact (look offset inside).trans points
    | illegalEscape => exact (look offset inside).trans points
    | nonAscii =>
      obtain ⟨c, found, beyond⟩ := points
      exact ⟨c, (look offset inside).trans found, beyond⟩
    | absoluteIri =>
      obtain ⟨before, next, found⟩ := points
      have next : offset = before + 1 := next
      refine ⟨before + front.length, by simp only; omega, ?_⟩
      exact (look before (by simp only at inside; omega)).trans found
    | openAngle =>
      obtain ⟨c, found, other⟩ := points.resolve_left nothing
      exact .inr ⟨c, (look offset inside).trans found, other⟩
    | closeAngle | quote | caret | suffixOrEnd | quoteOrAngle | gap | dot | languageTag => trivial

theorem faithful_of_unescape {cs : List Char} {e : ParseError} (failed : unescape cs = .error e) :
    Faithful cs e := by
  cases violation_of_unescape failed with
  | nonAscii first =>
    obtain @⟨front, c, before, beyond, rest⟩ := first
    refine ⟨?_, c, ?_, beyond⟩
    · simp only [List.length_append, List.length_cons]
      omega
    · simp
  | @escape words lead rest ascii whole leads stuck =>
    have here : cs[(spelling words ++ lead).length]? = some '\\' := by
      rw [whole, ← List.append_assoc]
      simp
    have inside : (spelling words ++ lead).length < cs.length :=
      (List.getElem?_eq_some_iff.mp here).1
    refine ⟨?_, ?_⟩
    · simp only
      omega
    · rcases blame_cases rest with cause | cause | cause
      · rw [cause]
        exact here
      · rw [cause]
        exact here
      · rw [cause]
        exact here

theorem faithful_of_readIri {cs : List Char} {e : ParseError} (failed : readIri cs = .error e) :
    Faithful cs e := by
  unfold readIri at failed
  split at failed
  next rest =>
    split at failed
    next closed =>
      split at failed
      next => cases failed
      next =>
        cases failed
        obtain ⟨front, rfl⟩ := List.getLast?_eq_some_iff.mp closed
        refine ⟨?_, 0, rfl, rfl⟩
        simp only [List.length_cons, List.length_append]
        omega
    next =>
      cases failed
      refine ⟨?_, trivial⟩
      simp only
      omega
  next other =>
    cases failed
    refine ⟨by simp only; omega, ?_⟩
    cases cs with
    | nil => exact .inl rfl
    | cons c rest =>
      refine .inr ⟨c, rfl, ?_⟩
      rintro rfl
      exact other rest rfl

theorem faithful_at {cs : List Char} {cause : Cause} {offset : Nat} (inside : offset < cs.length)
    (points : Points cs ⟨cause, offset⟩) : Faithful cs ⟨cause, offset⟩ := by
  refine ⟨?_, points⟩
  simp only
  omega

theorem faithful_of_readSuffix {cs body tail : List Char} {form : String} {e : ParseError}
    (whole : cs = '"' :: body ++ '"' :: tail)
    (failed : readSuffix form (body.length + 2) cs.length tail = .error e) : Faithful cs e := by
  have total : cs.length = body.length + 2 + tail.length := by
    rw [whole]
    simp only [List.length_append, List.length_cons]
    omega
  unfold readSuffix at failed
  split at failed
  next => cases failed
  next tag =>
    split at failed
    next => cases failed
    next =>
      cases failed
      refine faithful_at ?_ trivial
      rw [total, List.length_cons]
      omega
  next datatype =>
    split at failed
    next => cases failed
    next inner found =>
      cases failed
      have shape : cs = ('"' :: body ++ ['"', '^', '^']) ++ datatype ++ [] := by
        rw [whole]
        simp
      have base : body.length + 2 + 2 = ('"' :: body ++ ['"', '^', '^']).length := by simp
      rw [base]
      apply (faithful_of_readIri found).shift shape
      intro nothing
      subst nothing
      cases found
      -- There is no datatype; the last character of the literal is the second caret.
      have last : cs = ('"' :: body ++ ['"', '^']) ++ ['^'] := by
        rw [whole]
        simp
      have here : (ParseError.shift ('"' :: body ++ ['"', '^', '^']).length cs.length
          ⟨.openAngle, 0⟩).offset = ('"' :: body ++ ['"', '^']).length := by
        simp [ParseError.shift, ParseError.within, total]
      refine .inr ⟨'^', ?_, by decide⟩
      rw [here, last, List.getElem?_concat_length]
  next =>
    cases failed
    exact faithful_within trivial
  next nonempty _ _ _ =>
    cases failed
    refine faithful_at ?_ trivial
    have := List.length_pos_iff.mpr nonempty
    omega

theorem faithful_of_readLiteral {cs : List Char} {e : ParseError}
    (failed : readLiteral cs = .error e) : Faithful cs e := by
  unfold readLiteral at failed
  split at failed
  next rest =>
    split at failed
    next =>
      cases failed
      exact faithful_within trivial
    next body tail cut =>
      obtain ⟨rfl, -⟩ := cutQuoted?_eq_some_iff.mp cut
      split at failed
      next inner found =>
        cases failed
        have shape : '"' :: (body ++ '"' :: tail) = ['"'] ++ body ++ '"' :: tail := rfl
        apply (faithful_of_unescape found).shift shape
        intro nothing
        subst nothing
        cases (unescape_spelling []).symm.trans found
      next => exact faithful_of_readSuffix rfl failed
  next =>
    cases failed
    exact ⟨by simp only; omega, trivial⟩

theorem faithful_of_readNode {cs : List Char} {e : ParseError} (failed : readNode cs = .error e) :
    Faithful cs e := by
  unfold readNode at failed
  split at failed
  next => exact faithful_of_readLiteral failed
  next rest =>
    cases read : readIri ('<' :: rest) with
    | ok i =>
      rw [read] at failed
      cases failed
    | error found =>
      rw [read] at failed
      cases failed
      exact faithful_of_readIri read
  next =>
    cases failed
    exact ⟨by simp only; omega, trivial⟩

theorem faithful_of_readPart {α : Type} {read : List Char → Except ParseError α}
    {cs front part back : List Char} {e : ParseError}
    (reader : ∀ inner, read part = .error inner → Faithful part inner)
    (whole : cs = front ++ part ++ back)
    (empty : part = [] → ∀ inner, read part = .error inner →
      Points cs (inner.shift front.length cs.length))
    (failed : readPart read front.length cs.length part = .error e) : Faithful cs e := by
  obtain ⟨inner, found, rfl⟩ := mapError_error_iff.mp failed
  apply (reader inner found).shift whole
  intro nothing
  exact empty nothing inner found

theorem Gap.exists_cons {run : List Char} (gap : Gap run) :
    ∃ c rest, run = c :: rest ∧ isGap c = true := by
  cases run with
  | nil => exact absurd rfl gap.nonempty
  | cons c rest => exact ⟨c, rest, rfl, gap.gaps c List.mem_cons_self⟩

theorem faithful_of_readTerms {line body behind : List Char} {e : ParseError}
    (whole : line = body ++ behind) (failed : readTerms line.length body = .error e) :
    Faithful line e := by
  unfold readTerms at failed
  simp only at failed
  split at failed
  next =>
    cases failed
    exact faithful_within trivial
  next more =>
    obtain ⟨subject, first, rest, rfl, subjectWhole, between, stop⟩ :=
      exists_cut (mt List.isEmpty_iff.mpr more)
    obtain ⟨taken, left, skipped⟩ := cut_term subjectWhole between stop
    simp only [taken, left, skipped] at failed
    rcases bind_error_iff.mp failed with failed | ⟨s, readSubject, failed⟩
    · have shape : line = [] ++ subject ++ (first ++ rest ++ behind) := by
        rw [whole]
        simp
      apply faithful_of_readPart (fun _ => faithful_of_readIri) shape ?_ failed
      intro nothing inner found
      subst nothing
      cases found
      -- The line begins with a gap.
      obtain ⟨c, run, rfl, gap⟩ := between.exists_cons
      refine .inr ⟨c, ?_, ?_⟩
      · rw [shape]
        simp [ParseError.shift, ParseError.within]
      · rintro rfl
        cases gap
    · split at failed
      next =>
        cases failed
        exact faithful_within trivial
      next further =>
        obtain ⟨predicate, second, object, rfl, predicateWhole, after, halt⟩ :=
          exists_cut (mt List.isEmpty_iff.mpr further)
        obtain ⟨taken, left, skipped⟩ := cut_term predicateWhole after halt
        simp only [taken, left, skipped] at failed
        rcases bind_error_iff.mp failed with failed | ⟨p, readPredicate, failed⟩
        · have shape : line = (subject ++ first) ++ predicate ++ (second ++ object ++ behind) := by
            rw [whole]
            simp
          have base : (subject ++ (first ++ (predicate ++ (second ++ object)))).length -
              (predicate ++ (second ++ object)).length = (subject ++ first).length := by
            simp only [List.length_append]
            omega
          rw [base] at failed
          apply faithful_of_readPart (fun _ => faithful_of_readIri) shape ?_ failed
          intro nothing
          subst nothing
          obtain ⟨c, run, rfl, gap⟩ := after.exists_cons
          cases gap.symm.trans (stop c rfl)
        · rcases bind_error_iff.mp failed with failed | ⟨o, readObject, failed⟩
          · have shape : line = (subject ++ first ++ predicate ++ second) ++ object ++ behind := by
              rw [whole]
              simp
            have base : (subject ++ (first ++ (predicate ++ (second ++ object)))).length -
                object.length = (subject ++ first ++ predicate ++ second).length := by
              simp only [List.length_append]
              omega
            rw [base] at failed
            apply faithful_of_readPart (fun _ => faithful_of_readNode) shape ?_ failed
            intro nothing inner found
            subst nothing
            cases found
            trivial
          · cases failed

theorem faithful_of_readTriple {line : List Char} {e : ParseError}
    (failed : readTriple line = .error e) : Faithful line e := by
  unfold readTriple at failed
  simp only at failed
  split at failed
  next dot =>
    obtain ⟨beforeDot, gap, run, upToDot, before, whole, -, -⟩ := exists_dot dot
    simp only [upToDot, List.dropLast_concat] at failed
    split at failed
    next =>
      cases failed
      refine faithful_at ?_ trivial
      rw [whole, ← List.append_assoc, ← before]
      simp
    next => exact faithful_of_readTerms whole failed
  next =>
    cases failed
    exact faithful_within trivial

theorem errors_faithful (cs : List Char) (e : ParseError) :
    (readIri cs = .error e → Faithful cs e) ∧ (readLiteral cs = .error e → Faithful cs e) ∧
      (readNode cs = .error e → Faithful cs e) ∧ (readTriple cs = .error e → Faithful cs e) ∧
      (unescape cs = .error e → Faithful cs e) :=
  ⟨faithful_of_readIri, faithful_of_readLiteral, faithful_of_readNode, faithful_of_readTriple,
    faithful_of_unescape⟩

theorem errors_faithful_datatype :
    readTriple "<urn:pump> <urn:flow> \"2 \\u006C\"^^<litre> . ".toList = .error ⟨.absoluteIri, 35⟩ ∧
      Faithful "<urn:pump> <urn:flow> \"2 \\u006C\"^^<litre> . ".toList ⟨.absoluteIri, 35⟩ := by
  have failed : readTriple "<urn:pump> <urn:flow> \"2 \\u006C\"^^<litre> . ".toList =
      .error ⟨.absoluteIri, 35⟩ := by
    decide +kernel
  exact ⟨failed, (errors_faithful _ _).2.2.2.1 failed⟩

end GraphSql.NTriples
