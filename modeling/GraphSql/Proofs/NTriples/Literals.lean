import GraphSql.Proofs.NTriples.Codec

namespace GraphSql.NTriples

-- The grammar of literals. The closing quote is found before the text in front of it is decoded;
-- the two agree on which backslashes begin an escape.

theorem paired_taken_iff {c : Char} {rest : List Char} :
    Paired ('\\' :: c :: rest) ↔ Paired rest := by
  constructor
  · intro paired
    cases paired with
    | taken c rest => exact rest
    | plain quote backslash rest => exact absurd rfl backslash
  · exact .taken c

theorem paired_plain_iff {c : Char} {rest : List Char} (backslash : c ≠ '\\') :
    Paired (c :: rest) ↔ c ≠ '"' ∧ Paired rest := by
  constructor
  · intro paired
    cases paired with
    | taken d rest => exact absurd rfl backslash
    | plain quote backslash rest => exact ⟨quote, rest⟩
  · intro both
    exact .plain both.1 backslash both.2

theorem Paired.append_iff {front : List Char} (first : Paired front) (back : List Char) :
    Paired (front ++ back) ↔ Paired back := by
  induction first with
  | nil => rfl
  | taken c rest ih => exact paired_taken_iff.trans ih
  | plain quote backslash rest ih =>
    rw [List.cons_append, paired_plain_iff backslash, ih]
    exact and_iff_right quote

theorem Denotes.shape {text : List Char} {c : Char} (denotes : Denotes text c) :
    (text = [c] ∧ c ≠ '\\') ∨
      ∃ letter more, text = '\\' :: letter :: more ∧ Paired more ∧ '"' ∉ more := by
  have digits : ∀ {width n digits}, Text.Numeral width digits n → Paired digits ∧ '"' ∉ digits := by
    intro width n digits code
    refine ⟨paired_of_plain fun d member => ?_, fun member => ?_⟩
    · exact ⟨(code.plain member).1, (code.plain member).2.1⟩
    · exact (code.plain member).1 rfl
  cases denotes with
  | plain ascii backslash => exact .inl ⟨rfl, backslash⟩
  | short known => exact .inr ⟨_, [], rfl, .nil, List.not_mem_nil⟩
  | narrow code => exact .inr ⟨_, _, rfl, digits code⟩
  | wide code => exact .inr ⟨_, _, rfl, digits code⟩
  | pair first isHigh second isLow joined =>
    refine .inr ⟨_, _, rfl, (digits first).1.append (.taken _ (digits second).1), ?_⟩
    simp [(digits first).2, (digits second).2]

theorem Denotes.paired_append_iff {text : List Char} {c : Char} (denotes : Denotes text c)
    (rest : List Char) : Paired (text ++ rest) ↔ text ≠ ['"'] ∧ Paired rest := by
  rcases denotes.shape with ⟨rfl, backslash⟩ | ⟨letter, more, rfl, paired, -⟩
  · rw [List.singleton_append, paired_plain_iff backslash]
    simp
  · rw [List.cons_append, List.cons_append, paired_taken_iff, paired.append_iff]
    simp

theorem paired_spelling_iff (words : List Codeword) :
    Paired (spelling words) ↔ ∀ word ∈ words, word.text ≠ ['"'] := by
  induction words with
  | nil => simp [spelling, Paired.nil]
  | cons word words ih =>
    rw [List.forall_mem_cons, ← ih]
    exact word.denotes.paired_append_iff (spelling words)

def Guarded (cs : List Char) : Prop :=
  ∀ front back, cs = front ++ '"' :: back → ∃ words, front = spelling words ++ ['\\']

theorem Guarded.head {cs : List Char} (guarded : Guarded cs) (rest : List Char) :
    cs ≠ '"' :: rest := by
  intro same
  obtain ⟨words, front⟩ := guarded [] rest same
  simp at front

theorem Denotes.append_ne {text rest : List Char} {c : Char} (denotes : Denotes text c) :
    text ++ rest ≠ ['\\'] := by
  rcases denotes.shape with ⟨rfl, backslash⟩ | ⟨letter, more, rfl, -, -⟩
  · intro same
    exact backslash (List.cons.inj same).1
  · simp

theorem Denotes.quote {text front back : List Char} {c : Char} (denotes : Denotes text c)
    (same : text = front ++ '"' :: back) : text = ['"'] ∨ front = ['\\'] := by
  rcases denotes.shape with ⟨rfl, -⟩ | ⟨letter, more, rfl, -, fresh⟩
  · cases front with
    | nil => exact .inl (by rw [(List.cons.inj same).1])
    | cons d front => simp at same
  · cases front with
    | nil => exact absurd (List.cons.inj same).1 (by decide)
    | cons d front =>
      obtain ⟨rfl, below⟩ := List.cons.inj same
      cases front with
      | nil => exact .inr rfl
      | cons d front =>
        rw [(List.cons.inj below).2] at fresh
        exact absurd (List.mem_append_right _ List.mem_cons_self) fresh

theorem Denotes.guarded_append_iff {text : List Char} {c : Char} (denotes : Denotes text c)
    (rest : List Char) : Guarded (text ++ rest) ↔ text ≠ ['"'] ∧ Guarded rest := by
  constructor
  · intro guarded
    constructor
    · intro quote
      exact guarded.head rest (by rw [quote]; rfl)
    · intro front back same
      obtain ⟨words, whole⟩ := guarded (text ++ front) back (by rw [same, List.append_assoc])
      cases words with
      | nil => exact absurd whole denotes.append_ne
      | cons word words =>
        rw [spelling_cons, List.append_assoc] at whole
        exact ⟨words, (denotes.append_inj word.denotes whole).2.2⟩
  · intro both front back same
    obtain ⟨bare, guarded⟩ := both
    rcases List.append_eq_append_iff.mp same with ⟨inner, shape, later⟩ | ⟨inner, shape, later⟩
    · obtain ⟨words, found⟩ := guarded inner back later
      refine ⟨⟨text, c, denotes⟩ :: words, ?_⟩
      rw [shape, found, ← List.append_assoc]
      rfl
    · cases inner with
      | nil => exact absurd later.symm (guarded.head back)
      | cons d inner =>
        rw [← (List.cons.inj later).1] at shape
        exact ⟨[], (denotes.quote shape).resolve_left bare⟩

theorem guarded_spelling_iff (words : List Codeword) :
    Guarded (spelling words) ↔ ∀ word ∈ words, word.text ≠ ['"'] := by
  induction words with
  | nil => simp [spelling, Guarded]
  | cons word words ih =>
    rw [List.forall_mem_cons, ← ih]
    exact word.denotes.guarded_append_iff (spelling words)

-- In text that can be decoded, a quote that closes the literal is one that no escape has taken.
theorem guarded_iff_paired {body decoded : List Char} (read : unescape body = .ok decoded) :
    Guarded body ↔ Paired body := by
  obtain ⟨words, rfl, -⟩ := unescape_ok_iff.mp read
  rw [guarded_spelling_iff, paired_spelling_iff]

inductive Suffix (form : String) : List Char → Node → Prop where
  | plain : Suffix form [] (.plain form)
  | tagged (tag : LanguageTag) : Suffix form ('@' :: tag.text.toList) (.tagged form tag)
  | typed (datatype : Iri) :
      Suffix form ('^' :: '^' :: '<' :: datatype.text.toList ++ ['>']) (.typed form datatype)

theorem readSuffix_ok_iff {form : String} {start length : Nat} {tail : List Char} {n : Node} :
    readSuffix form start length tail = .ok n ↔ Suffix form tail n := by
  constructor
  · intro read
    unfold readSuffix at read
    split at read
    next =>
      cases read
      exact .plain
    next tag =>
      unfold LanguageTag.ofText at read
      split at read
      next built =>
        split at built
        next => cases built
        next nonempty =>
          cases built
          cases read
          have suffix : Suffix form ('@' :: (String.ofList tag).toList) _ :=
            .tagged ⟨String.ofList tag, nonempty⟩
          rwa [String.toList_ofList] at suffix
      next => cases read
    next datatype =>
      split at read
      next iri built =>
        cases read
        rw [eq_chars_of_readIri built]
        exact .typed iri
      next => cases read
    next => cases read
    next => cases read
  · intro suffix
    cases suffix with
    | plain => rfl
    | tagged tag => simp [readSuffix, LanguageTag.ofText, tag.nonempty]
    | typed datatype =>
      change readSuffix form start length ('^' :: '^' :: datatype.chars) = _
      simp only [readSuffix, readIri_chars]

structure LiteralParts (cs body tail : List Char) (n : Node) : Prop where
  whole : cs = '"' :: body ++ '"' :: tail
  guarded : Guarded body
  decoded : ∃ form, unescape body = .ok form ∧ Suffix (String.ofList form) tail n

theorem LiteralParts.cut {cs body tail : List Char} {n : Node}
    (parts : LiteralParts cs body tail n) :
    ∃ rest, cs = '"' :: rest ∧ cutQuoted? rest = some (body, tail) := by
  obtain ⟨form, read, -⟩ := parts.decoded
  refine ⟨body ++ '"' :: tail, parts.whole, ?_⟩
  exact cutQuoted?_eq_some_iff.mpr ⟨rfl, (guarded_iff_paired read).mp parts.guarded⟩

theorem readLiteral_ok_iff {cs : List Char} {n : Node} :
    readLiteral cs = .ok n ↔ ∃ body tail, LiteralParts cs body tail n := by
  constructor
  · intro read
    unfold readLiteral at read
    split at read
    next rest =>
      split at read
      next => cases read
      next body tail cut =>
        split at read
        next => cases read
        next form decoded =>
          obtain ⟨rfl, paired⟩ := cutQuoted?_eq_some_iff.mp cut
          have suffix := readSuffix_ok_iff.mp read
          exact ⟨body, tail, rfl, (guarded_iff_paired decoded).mpr paired, form, decoded, suffix⟩
    next => cases read
  · intro found
    obtain ⟨body, tail, parts⟩ := found
    obtain ⟨rest, rfl, cut⟩ := parts.cut
    obtain ⟨form, decoded, suffix⟩ := parts.decoded
    simp only [readLiteral, cut, decoded]
    exact readSuffix_ok_iff.mpr suffix

theorem readLiteral_grammar (cs : List Char) :
    (∀ n, readLiteral cs = .ok n ↔ ∃ body tail, LiteralParts cs body tail n) ∧
      ∀ body tail n otherBody otherTail m, LiteralParts cs body tail n →
        LiteralParts cs otherBody otherTail m → body = otherBody ∧ tail = otherTail ∧ n = m := by
  refine ⟨fun _ => readLiteral_ok_iff, ?_⟩
  intro body tail n otherBody otherTail m first second
  obtain ⟨rest, rfl, cut⟩ := first.cut
  obtain ⟨other, same, otherCut⟩ := second.cut
  cases same
  rw [cut] at otherCut
  cases otherCut
  have read := readLiteral_ok_iff.mpr ⟨body, tail, first⟩
  rw [readLiteral_ok_iff.mpr ⟨body, tail, second⟩] at read
  exact ⟨rfl, rfl, (Except.ok.inj read).symm⟩

theorem readLiteral_grammar_quotes :
    readLiteral "\"say \\\\\\\"\"@x\"y".toList = .ok (.tagged "say \\\"" ⟨"x\"y", by decide⟩) ∧
      ∃ body tail, LiteralParts "\"say \\\\\\\"\"@x\"y".toList body tail
        (.tagged "say \\\"" ⟨"x\"y", by decide⟩) := by
  have read : readLiteral "\"say \\\\\\\"\"@x\"y".toList =
      .ok (.tagged "say \\\"" ⟨"x\"y", by decide⟩) := by
    decide +kernel
  exact ⟨read, ((readLiteral_grammar _).1 _).mp read⟩

end GraphSql.NTriples
