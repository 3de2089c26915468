import GraphSql.NTriples
import GraphSql.Proofs.Basic

namespace GraphSql

-- Escaped text as a sequence of codewords, each of which stands for one character. Decoding accepts
-- exactly such sequences, a text is divided into codewords in one way only, and a text that cannot
-- be divided is rejected where the division ends.

namespace NTriples
open Text

theorem readCode_ok_iff {start width n : Nat} {cs : List Char} :
    readCode start width cs = .ok n ↔ Numeral width (cs.take width) n := by
  unfold readCode
  split
  next few =>
    constructor
    · intro read
      cases read
    · intro numeral
      exact absurd numeral.length few.ne
  next enough =>
    have length : (cs.take width).length = width := by
      have := List.length_take_le width cs
      omega
    constructor
    · intro read
      split at read
      next => cases read
      next found =>
        cases read
        exact ⟨length, readHex_eq_some_iff.mp found⟩
    · intro numeral
      rw [readHex_eq_some_iff.mpr numeral.spells]

theorem readCode_error {start width : Nat} {cs : List Char} {e : ParseError}
    (failed : readCode start width cs = .error e) :
    e = ⟨if cs.length < width then .incompleteEscape else .illegalEscape, start⟩ := by
  unfold readCode at failed
  rw [List.length_take] at failed
  split at failed
  next few =>
    cases failed
    rw [if_pos (by omega)]
  next enough =>
    split at failed
    next =>
      cases failed
      rw [if_neg (by omega)]
    next => cases failed

def shortEscapes : List (Char × Char) :=
  [('t', '\t'), ('r', '\r'), ('n', '\n'), ('"', '"'), ('\\', '\\')]

inductive Denotes : List Char → Char → Prop where
  | plain (ascii : isAscii c = true) (backslash : c ≠ '\\') : Denotes [c] c
  | short (known : (letter, c) ∈ shortEscapes) : Denotes ['\\', letter] c
  | narrow (code : Numeral 4 digits c.toNat) : Denotes ('\\' :: 'u' :: digits) c
  | wide (code : Numeral 8 digits c.toNat) : Denotes ('\\' :: 'U' :: digits) c
  | pair (first : Numeral 4 upper high) (isHigh : isHighHalf high = true)
      (second : Numeral 4 lower low) (isLow : isLowHalf low = true)
      (joined : c.toNat = 0x10000 + (high - 0xD800) * 0x400 + (low - 0xDC00)) :
      Denotes ('\\' :: 'u' :: upper ++ '\\' :: 'u' :: lower) c

@[ext] structure Codeword where
  text : List Char
  value : Char
  denotes : Denotes text value

def spelling (words : List Codeword) : List Char := words.flatMap Codeword.text

def values (words : List Codeword) : List Char := words.map Codeword.value

theorem spelling_cons (word : Codeword) (words : List Codeword) :
    spelling (word :: words) = word.text ++ spelling words := rfl

theorem readCode_append {start width n : Nat} {digits : List Char} (code : Numeral width digits n)
    (rest : List Char) : readCode start width (digits ++ rest) = .ok n := by
  rw [readCode_ok_iff, List.take_left' code.length]
  exact code

theorem Denotes.reads {text : List Char} {c : Char} (denotes : Denotes text c) :
    (text = [c] ∧ c ≠ '\\') ∨ ∃ tail, text = '\\' :: tail ∧
      ∀ start rest, readEscape start (tail ++ rest) = .ok (c, tail.length) := by
  cases denotes with
  | plain ascii backslash => exact .inl ⟨rfl, backslash⟩
  | @short letter c known =>
    refine .inr ⟨[letter], rfl, ?_⟩
    intro start rest
    simp only [shortEscapes, List.mem_cons, Prod.mk.injEq, List.not_mem_nil, or_false] at known
    rcases known with ⟨rfl, rfl⟩ | ⟨rfl, rfl⟩ | ⟨rfl, rfl⟩ | ⟨rfl, rfl⟩ | ⟨rfl, rfl⟩ <;> rfl
  | @narrow digits c code =>
    refine .inr ⟨'u' :: digits, rfl, ?_⟩
    intro start rest
    rw [List.cons_append, readEscape, readCode_append code, ok_bind, isHighHalf_toNat,
      scalar?_toNat, List.length_cons, code.length]
    rfl
  | @wide digits c code =>
    refine .inr ⟨'U' :: digits, rfl, ?_⟩
    intro start rest
    rw [List.cons_append, readEscape, readCode_append code, ok_bind, scalar?_toNat,
      List.length_cons, code.length]
  | @pair upper high lower low c first isHigh second isLow joined =>
    refine .inr ⟨'u' :: upper ++ '\\' :: 'u' :: lower, rfl, ?_⟩
    intro start rest
    have whole : 'u' :: upper ++ '\\' :: 'u' :: lower ++ rest =
        'u' :: (upper ++ '\\' :: 'u' :: (lower ++ rest)) := by simp
    have same : joinHalves high low = c := by
      rw [joinHalves, ← joined, Char.ofNat_toNat]
    rw [whole, readEscape, readCode_append first, ok_bind, if_pos isHigh,
      List.drop_left' first.length, readLowHalf, readCode_append second, ok_bind, if_pos isLow,
      same]
    simp [first.length, second.length]

theorem readLowHalf_ok {start high count : Nat} {cs : List Char} {c : Char}
    (read : readLowHalf start high cs = .ok (c, count)) :
    ∃ rest low, cs = '\\' :: 'u' :: rest ∧ Numeral 4 (rest.take 4) low ∧ isLowHalf low = true ∧
      c = joinHalves high low ∧ count = 11 := by
  unfold readLowHalf at read
  split at read
  next rest =>
    obtain ⟨low, code, found⟩ := bind_ok_iff.mp read
    split at found
    next isLow =>
      obtain ⟨value, length⟩ := Prod.mk.inj (Except.ok.inj found)
      exact ⟨rest, low, rfl, readCode_ok_iff.mp code, isLow, value.symm, length.symm⟩
    next => cases found
  next => cases read

theorem denotes_of_readEscape {start count : Nat} {cs : List Char} {c : Char}
    (read : readEscape start cs = .ok (c, count)) : Denotes ('\\' :: cs.take count) c := by
  unfold readEscape at read
  split at read
  next =>
    cases read
    exact .short (by simp [shortEscapes])
  next =>
    cases read
    exact .short (by simp [shortEscapes])
  next =>
    cases read
    exact .short (by simp [shortEscapes])
  next =>
    cases read
    exact .short (by simp [shortEscapes])
  next =>
    cases read
    exact .short (by simp [shortEscapes])
  next rest =>
    obtain ⟨code, numeral, found⟩ := bind_ok_iff.mp read
    have digits := readCode_ok_iff.mp numeral
    split at found
    next isHigh =>
      obtain ⟨behind, low, shape, second, isLow, value, length⟩ := readLowHalf_ok found
      have whole : rest.take 10 = rest.take 4 ++ '\\' :: 'u' :: behind.take 4 := by
        rw [show 10 = 4 + 6 from rfl, List.take_add, shape]
        rfl
      rw [length, List.take_succ_cons, whole, value]
      exact .pair digits isHigh second isLow (toNat_joinHalves isHigh isLow)
    next =>
      split at found
      next c scalar =>
        cases found
        exact .narrow ((scalar?_eq_some_iff.mp scalar).symm ▸ digits)
      next => cases found
  next rest =>
    obtain ⟨code, numeral, found⟩ := bind_ok_iff.mp read
    split at found
    next c scalar =>
      cases found
      exact .wide ((scalar?_eq_some_iff.mp scalar).symm ▸ readCode_ok_iff.mp numeral)
    next => cases found
  next => cases read

theorem Denotes.append_inj {text other rest more : List Char} {c d : Char}
    (first : Denotes text c) (second : Denotes other d) (same : text ++ rest = other ++ more) :
    text = other ∧ c = d ∧ rest = more := by
  rcases first.reads with ⟨rfl, plain⟩ | ⟨tail, rfl, reads⟩
  · rcases second.reads with ⟨rfl, -⟩ | ⟨behind, rfl, -⟩
    · cases same
      exact ⟨rfl, rfl, rfl⟩
    · cases same
      exact absurd rfl plain
  · rcases second.reads with ⟨rfl, plain⟩ | ⟨behind, rfl, again⟩
    · cases same
      exact absurd rfl plain
    · have below : tail ++ rest = behind ++ more := (List.cons.inj same).2
      have read := reads 0 rest
      rw [below, again 0 more] at read
      simp only [Except.ok.injEq, Prod.mk.injEq] at read
      obtain ⟨value, length⟩ := read
      obtain ⟨front, back⟩ := List.append_inj below length.symm
      exact ⟨congrArg _ front, value.symm, back⟩

theorem Denotes.ne_nil {text : List Char} {c : Char} (denotes : Denotes text c) : text ≠ [] := by
  cases denotes <;> simp

theorem spelling_injective {words others : List Codeword}
    (same : spelling words = spelling others) : words = others := by
  induction words generalizing others with
  | nil =>
    cases others with
    | nil => rfl
    | cons other others => exact absurd (List.append_eq_nil_iff.mp same.symm).1 other.denotes.ne_nil
  | cons word words ih =>
    cases others with
    | nil => exact absurd (List.append_eq_nil_iff.mp same).1 word.denotes.ne_nil
    | cons other others =>
      obtain ⟨text, value, rest⟩ := word.denotes.append_inj other.denotes same
      rw [Codeword.ext text value, ih rest]

theorem Denotes.ascii {text : List Char} {c d : Char} (denotes : Denotes text c)
    (member : d ∈ text) : isAscii d = true := by
  have digit : ∀ {width n digits}, Numeral width digits n → d ∈ digits → isAscii d = true := by
    intro width n digits code inside
    exact decide_eq_true (Nat.le_succ_of_le (code.plain inside).2.2.2)
  cases denotes with
  | plain ascii backslash =>
    cases List.mem_singleton.mp member
    exact ascii
  | short known =>
    have letters : ∀ entry ∈ shortEscapes, isAscii entry.1 = true := by decide
    rcases List.mem_cons.mp member with rfl | last
    · rfl
    · cases List.mem_singleton.mp last
      exact letters _ known
  | narrow code =>
    simp only [List.mem_cons] at member
    rcases member with rfl | rfl | inside
    · rfl
    · rfl
    · exact digit code inside
  | wide code =>
    simp only [List.mem_cons] at member
    rcases member with rfl | rfl | inside
    · rfl
    · rfl
    · exact digit code inside
  | pair first isHigh second isLow joined =>
    simp only [List.cons_append, List.mem_cons, List.mem_append] at member
    rcases member with rfl | rfl | inside | rfl | rfl | inside
    · rfl
    · rfl
    · exact digit first inside
    · rfl
    · rfl
    · exact digit second inside

theorem ascii_spelling {words : List Codeword} {d : Char} (member : d ∈ spelling words) :
    isAscii d = true := by
  obtain ⟨word, -, inside⟩ := List.mem_flatMap.mp member
  exact word.denotes.ascii inside

theorem Denotes.unescapeFrom {text : List Char} {c : Char} (denotes : Denotes text c) (start : Nat)
    (rest : List Char) :
    NTriples.unescapeFrom start (text ++ rest) =
      (NTriples.unescapeFrom (start + text.length) rest).map (c :: ·) := by
  rcases denotes.reads with ⟨rfl, plain⟩ | ⟨tail, rfl, reads⟩
  · rw [List.singleton_append, NTriples.unescapeFrom, if_neg plain]
    rfl
  · rw [List.cons_append, NTriples.unescapeFrom, if_pos rfl, reads]
    simp only [List.drop_left, List.length_cons]
    rw [Nat.add_assoc, Nat.add_comm 1]

theorem unescapeFrom_spelling (words : List Codeword) (start : Nat) (rest : List Char) :
    unescapeFrom start (spelling words ++ rest) =
      (unescapeFrom (start + (spelling words).length) rest).map (values words ++ ·) := by
  induction words generalizing start with
  | nil =>
    change unescapeFrom start rest = (unescapeFrom start rest).map id
    cases unescapeFrom start rest <;> rfl
  | cons word words ih =>
    rw [spelling_cons, List.append_assoc, word.denotes.unescapeFrom, ih, List.length_append,
      ← Nat.add_assoc]
    cases unescapeFrom (start + word.text.length + (spelling words).length) rest <;> rfl

def Stuck (cs : List Char) : Prop := ∀ word : Codeword, ¬ word.text <+: cs

theorem exists_division (cs : List Char) (ascii : ∀ c ∈ cs, isAscii c = true) :
    (∃ words, cs = spelling words) ∨
      ∃ words tail, cs = spelling words ++ '\\' :: tail ∧ Stuck ('\\' :: tail) := by
  induction length : cs.length using Nat.strongRecOn generalizing cs with
  | ind size ih =>
    by_cases stuck : Stuck cs
    · cases cs with
      | nil => exact .inl ⟨[], rfl⟩
      | cons c tail =>
        by_cases backslash : c = '\\'
        · subst backslash
          exact .inr ⟨[], tail, rfl, stuck⟩
        · exact absurd ⟨tail, rfl⟩ (stuck ⟨[c], c, .plain (ascii c List.mem_cons_self) backslash⟩)
    · simp only [Stuck, not_forall, not_not] at stuck
      obtain ⟨word, rest, rfl⟩ := stuck
      have shorter : rest.length < size := by
        have := List.length_pos_iff.mpr word.denotes.ne_nil
        rw [← length, List.length_append]
        omega
      have behind : ∀ c ∈ rest, isAscii c = true := fun c member =>
        ascii c (List.mem_append_right _ member)
      rcases ih _ shorter rest behind rfl with ⟨words, rfl⟩ | ⟨words, tail, rfl, stuck⟩
      · exact .inl ⟨word :: words, rfl⟩
      · exact .inr ⟨word :: words, tail, (List.append_assoc _ _ _).symm, stuck⟩

inductive Lead : List Char → Prop where
  | none : Lead []
  | high (code : Numeral 4 digits n) (isHigh : isHighHalf n = true) : Lead ('\\' :: 'u' :: digits)

def blame : List Char → Cause
  | 'u' :: digits => if digits.length < 4 then .incompleteEscape else .illegalEscape
  | 'U' :: digits => if digits.length < 8 then .incompleteEscape else .illegalEscape
  | _ => .unescapedBackslash

theorem readLowHalf_error {start high : Nat} {cs : List Char} {e : ParseError}
    (failed : readLowHalf start high cs = .error e) :
    e = ⟨.illegalEscape, start⟩ ∨
      ∃ rest, cs = '\\' :: 'u' :: rest ∧ e = ⟨blame ('u' :: rest), start + 6⟩ := by
  unfold readLowHalf at failed
  split at failed
  next rest =>
    cases code : readCode (start + 6) 4 rest with
    | error found =>
      rw [code, error_bind] at failed
      cases failed
      exact .inr ⟨rest, rfl, readCode_error code⟩
    | ok low =>
      rw [code, ok_bind] at failed
      split at failed
      next => cases failed
      next =>
        cases failed
        exact .inl rfl
  next =>
    cases failed
    exact .inl rfl

-- The error stands at the backslash of the escape or, where only the second half of a pair is
-- wrong, at the backslash of that.
theorem readEscape_error {start : Nat} {cs : List Char} {e : ParseError}
    (failed : readEscape start cs = .error e) :
    ∃ lead rest, '\\' :: cs = lead ++ '\\' :: rest ∧ Lead lead ∧
      e = ⟨blame rest, start + lead.length⟩ := by
  have here : e = ⟨blame cs, start⟩ → ∃ lead rest, '\\' :: cs = lead ++ '\\' :: rest ∧
      Lead lead ∧ e = ⟨blame rest, start + lead.length⟩ := by
    intro same
    exact ⟨[], cs, rfl, .none, same⟩
  unfold readEscape at failed
  split at failed
  next => cases failed
  next => cases failed
  next => cases failed
  next => cases failed
  next => cases failed
  next rest =>
    cases code : readCode start 4 rest with
    | error found =>
      rw [code, error_bind] at failed
      cases failed
      exact here (readCode_error code)
    | ok n =>
      have digits := readCode_ok_iff.mp code
      have illegal : blame ('u' :: rest) = .illegalEscape := if_neg digits.enough
      rw [code, ok_bind] at failed
      split at failed
      next isHigh =>
        rcases readLowHalf_error failed with rfl | ⟨behind, shape, rfl⟩
        · exact here (by rw [illegal])
        -- Only the second half is wrong, and the first one lies before the error.
        · refine ⟨'\\' :: 'u' :: rest.take 4, 'u' :: behind, ?_, .high digits isHigh, ?_⟩
          · rw [List.cons_append, List.cons_append, ← shape, List.take_append_drop]
          · rw [List.length_cons, List.length_cons, digits.length]
      next =>
        split at failed
        next => cases failed
        next =>
          cases failed
          exact here (by rw [illegal])
  next rest =>
    cases code : readCode start 8 rest with
    | error found =>
      rw [code, error_bind] at failed
      cases failed
      exact here (readCode_error code)
    | ok n =>
      have illegal : blame ('U' :: rest) = .illegalEscape :=
        if_neg (readCode_ok_iff.mp code).enough
      rw [code, ok_bind] at failed
      split at failed
      next => cases failed
      next =>
        cases failed
        exact here (by rw [illegal])
  next narrow wide =>
    cases failed
    apply here
    unfold blame
    split
    next => exact (narrow _ rfl).elim
    next => exact (wide _ rfl).elim
    next => rfl

theorem unescapeFrom_stuck {tail : List Char} (stuck : Stuck ('\\' :: tail)) (start : Nat) :
    ∃ lead rest, '\\' :: tail = lead ++ '\\' :: rest ∧ Lead lead ∧
      unescapeFrom start ('\\' :: tail) = .error ⟨blame rest, start + lead.length⟩ := by
  cases read : readEscape start tail with
  | ok found =>
    obtain ⟨c, count⟩ := found
    have begins : '\\' :: tail.take count <+: '\\' :: tail :=
      List.cons_prefix_cons.mpr ⟨rfl, List.take_prefix count tail⟩
    exact absurd begins (stuck ⟨_, c, denotes_of_readEscape read⟩)
  | error e =>
    obtain ⟨lead, rest, shape, leads, rfl⟩ := readEscape_error read
    refine ⟨lead, rest, shape, leads, ?_⟩
    rw [unescapeFrom, if_pos rfl, read]

inductive FirstBeyond : List Char → Nat → Prop where
  | intro (before : ∀ d ∈ front, isAscii d = true) (beyond : isAscii c = false)
      (rest : List Char) : FirstBeyond (front ++ c :: rest) front.length

theorem ascii_or_firstBeyond (cs : List Char) :
    (∀ c ∈ cs, isAscii c = true) ∨ ∃ offset, FirstBeyond cs offset := by
  cases found : cs.find? (!isAscii ·) with
  | none =>
    left
    intro c member
    simpa using List.find?_eq_none.mp found c member
  | some c =>
    obtain ⟨beyond, front, rest, rfl, before⟩ := List.find?_eq_some_iff_append.mp found
    right
    refine ⟨front.length, .intro ?_ (by simpa using beyond) rest⟩
    intro d member
    simpa using before d member

theorem unescape_of_ascii {cs : List Char} (ascii : ∀ c ∈ cs, isAscii c = true) :
    unescape cs = unescapeFrom 0 cs := by
  have none : cs.findIdx? (!isAscii ·) = none := by
    rw [List.findIdx?_eq_none_iff]
    intro c member
    simp [ascii c member]
  rw [unescape, none]

theorem unescape_of_firstBeyond {cs : List Char} {offset : Nat} (first : FirstBeyond cs offset) :
    unescape cs = .error ⟨.nonAscii, offset⟩ := by
  obtain @⟨front, c, before, beyond, rest⟩ := first
  have none : front.findIdx? (!isAscii ·) = none := by
    rw [List.findIdx?_eq_none_iff]
    intro d member
    simp [before d member]
  rw [unescape, List.findIdx?_append, none, List.findIdx?_cons]
  simp [beyond]

-- Why a text is rejected. A character beyond ASCII comes first; otherwise the text is divided into
-- codewords as far as it goes, and the error stands at the backslash that follows, or at the next
-- one if the first half of a pair lies between.
inductive Violation (cs : List Char) : ParseError → Prop where
  | nonAscii (first : FirstBeyond cs offset) : Violation cs ⟨.nonAscii, offset⟩
  | escape (ascii : ∀ c ∈ cs, isAscii c = true)
      (whole : cs = spelling words ++ (lead ++ '\\' :: rest))
      (leads : Lead lead) (stuck : Stuck (lead ++ '\\' :: rest)) :
      Violation cs ⟨blame rest, (spelling words ++ lead).length⟩

theorem unescape_spelling (words : List Codeword) :
    unescape (spelling words) = .ok (values words) := by
  have decoded := unescapeFrom_spelling words 0 []
  rw [List.append_nil, unescapeFrom] at decoded
  rw [unescape_of_ascii fun _ => ascii_spelling, decoded]
  exact congrArg Except.ok (List.append_nil _)

theorem spelled_or_violation (cs : List Char) :
    (∃ words, cs = spelling words) ∨ ∃ e, unescape cs = .error e ∧ Violation cs e := by
  rcases ascii_or_firstBeyond cs with ascii | ⟨offset, first⟩
  · rcases exists_division cs ascii with spelled | ⟨words, tail, whole, stuck⟩
    · exact .inl spelled
    · obtain ⟨lead, rest, shape, leads, failed⟩ :=
        unescapeFrom_stuck stuck (0 + (spelling words).length)
      refine .inr ⟨⟨blame rest, (spelling words ++ lead).length⟩, ?_, ?_⟩
      · rw [unescape_of_ascii ascii, whole, unescapeFrom_spelling, failed, Nat.zero_add,
          List.length_append]
        rfl
      · rw [shape] at whole stuck
        exact .escape ascii whole leads stuck
  · exact .inr ⟨_, unescape_of_firstBeyond first, .nonAscii first⟩

theorem unescape_ok_iff {cs decoded : List Char} :
    unescape cs = .ok decoded ↔ ∃ words, cs = spelling words ∧ decoded = values words := by
  constructor
  · intro read
    rcases spelled_or_violation cs with ⟨words, rfl⟩ | ⟨e, failed, -⟩
    · rw [unescape_spelling] at read
      exact ⟨words, rfl, (Except.ok.inj read).symm⟩
    · rw [failed] at read
      cases read
  · intro spelled
    obtain ⟨words, rfl, rfl⟩ := spelled
    exact unescape_spelling words

theorem violation_of_unescape {cs : List Char} {e : ParseError} (failed : unescape cs = .error e) :
    Violation cs e := by
  rcases spelled_or_violation cs with ⟨words, rfl⟩ | ⟨found, same, violation⟩
  · rw [unescape_spelling] at failed
    cases failed
  · rw [failed] at same
    cases same
    exact violation

theorem blame_cases (rest : List Char) : blame rest = .unescapedBackslash ∨
    blame rest = .incompleteEscape ∨ blame rest = .illegalEscape := by
  unfold blame
  split
  next => split <;> simp
  next => split <;> simp
  next => simp

-- Decoding accepts exactly the sequences of codewords and gives the characters that they stand for;
-- the codewords of a text are determined by it, so that texts can be decoded one after the other.
-- Every other text is rejected at its leftmost violation, which is the first character beyond ASCII
-- exactly if there is one.
theorem unescape_grammar (cs : List Char) :
    (∀ decoded, unescape cs = .ok decoded ↔ ∃ words, cs = spelling words ∧ decoded = values words) ∧
      (∀ words others, cs = spelling words → cs = spelling others → words = others) ∧
      (∀ front back first second, cs = front ++ back → unescape front = .ok first →
        unescape back = .ok second → unescape cs = .ok (first ++ second)) ∧
      ((¬ ∃ words, cs = spelling words) → ∃ e, unescape cs = .error e ∧ Violation cs e) ∧
      ∀ offset, unescape cs = .error ⟨.nonAscii, offset⟩ ↔ FirstBeyond cs offset := by
  refine ⟨fun _ => unescape_ok_iff, ?_, ?_, ?_, ?_⟩
  · intro words others first second
    exact spelling_injective (first.symm.trans second)
  · intro front back first second whole readFront readBack
    obtain ⟨words, rfl, rfl⟩ := unescape_ok_iff.mp readFront
    obtain ⟨others, rfl, rfl⟩ := unescape_ok_iff.mp readBack
    apply unescape_ok_iff.mpr
    exact ⟨words ++ others, by simp [whole, spelling], by simp [values]⟩
  · intro other
    exact (spelled_or_violation cs).resolve_left other
  · intro offset
    constructor
    · intro failed
      generalize error : (⟨.nonAscii, offset⟩ : ParseError) = e at failed
      cases violation_of_unescape failed with
      | nonAscii first =>
        cases error
        exact first
      | @escape words lead rest ascii whole leads stuck =>
        have cause : blame rest = .nonAscii := (congrArg ParseError.cause error).symm
        have cases := blame_cases rest
        simp [cause] at cases
    · exact unescape_of_firstBeyond

theorem unescape_grammar_halves :
    unescape "a\\uD83D\\u00G1".toList = .error ⟨.illegalEscape, 7⟩ ∧
      Violation "a\\uD83D\\u00G1".toList ⟨.illegalEscape, 7⟩ := by
  have failed : unescape "a\\uD83D\\u00G1".toList = .error ⟨.illegalEscape, 7⟩ := by decide +kernel
  obtain ⟨accepts, -, -, rejects, -⟩ := unescape_grammar "a\\uD83D\\u00G1".toList
  have other : ¬ ∃ words, "a\\uD83D\\u00G1".toList = spelling words := by
    intro spelled
    obtain ⟨words, whole⟩ := spelled
    cases failed.symm.trans ((accepts _).mpr ⟨words, whole, rfl⟩)
  obtain ⟨e, found, violation⟩ := rejects other
  cases failed.symm.trans found
  exact ⟨failed, violation⟩

end NTriples

end GraphSql
