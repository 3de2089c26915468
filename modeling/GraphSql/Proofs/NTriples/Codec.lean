import GraphSql.NTriples
import GraphSql.Proofs.NTriples.Codewords

namespace GraphSql

-- What is written can be read again: hexadecimal numbers, escaped text, IRIs and nodes.

namespace NTriples
open Text

inductive Escaped (c : Char) : List Char → Prop where
  | plain (shape : 0x20 ≤ c.toNat ∧ c.toNat ≤ 0x7E) (quote : c ≠ '"') (backslash : c ≠ '\\') :
      Escaped c [c]
  | short (letter : Char) (ascii : 0x20 ≤ letter.toNat ∧ letter.toNat ≤ 0x7E)
      (read : ∀ start rest, readEscape start (letter :: rest) = .ok (c, 1)) :
      Escaped c ['\\', letter]
  | narrow (fits : c.toNat ≤ 0xFFFF) : Escaped c ('\\' :: 'u' :: writeHex 4 c.toNat)
  | wide : Escaped c ('\\' :: 'U' :: writeHex 8 c.toNat)

theorem escaped_escapeChar (c : Char) : Escaped c (escapeChar c) := by
  unfold escapeChar
  split
  next same => exact same ▸ .short '\\' (by decide) fun _ _ => rfl
  next backslash =>
    split
    next same => exact same ▸ .short '"' (by decide) fun _ _ => rfl
    next quote =>
      split
      next same => exact same ▸ .short 'n' (by decide) fun _ _ => rfl
      next =>
        split
        next same => exact same ▸ .short 'r' (by decide) fun _ _ => rfl
        next =>
          split
          next same => exact same ▸ .short 't' (by decide) fun _ _ => rfl
          next =>
            split
            next code => exact .narrow (by omega)
            next shaped =>
              split
              next code => exact .wide
              next small => exact .plain (by omega) quote backslash

theorem Escaped.denotes {c : Char} {text : List Char} (escaped : Escaped c text) :
    Denotes text c := by
  have code : ∀ width, c.toNat < Nat.pow 16 width →
      Numeral width (writeHex width c.toNat) c.toNat := by
    intro width fits
    exact ⟨length_writeHex width _, readHex_eq_some_iff.mp (readHex_writeHex fits)⟩
  cases escaped with
  | plain shape quote backslash =>
    refine .plain ?_ backslash
    apply decide_eq_true
    omega
  | short letter ascii read => exact denotes_of_readEscape (read 0 [])
  | narrow fits => exact .narrow (code 4 (Nat.lt_succ_of_le fits))
  | wide =>
    refine .wide (code 8 ?_)
    have valid : c.toNat.isValidChar := c.valid
    have bound : Nat.pow 16 8 = 0x100000000 := rfl
    simp only [Nat.isValidChar] at valid
    omega

theorem exists_spelling_escape (cs : List Char) :
    ∃ words, escape cs = spelling words ∧ values words = cs := by
  induction cs with
  | nil => exact ⟨[], rfl, rfl⟩
  | cons c rest ih =>
    obtain ⟨words, spelled, decoded⟩ := ih
    refine ⟨⟨_, c, (escaped_escapeChar c).denotes⟩ :: words, ?_, congrArg (c :: ·) decoded⟩
    exact congrArg (escapeChar c ++ ·) spelled

theorem Escaped.shape {c d : Char} {text : List Char} (escaped : Escaped c text)
    (member : d ∈ text) : 0x20 ≤ d.toNat ∧ d.toNat ≤ 0x7E := by
  cases escaped with
  | plain shape quote backslash =>
    cases List.mem_singleton.mp member
    exact shape
  | short letter ascii read =>
    rcases List.mem_cons.mp member with rfl | last
    · decide
    · cases List.mem_singleton.mp last
      exact ascii
  | narrow fits =>
    rcases List.mem_cons.mp member with rfl | later
    · decide
    · rcases List.mem_cons.mp later with rfl | digit
      · decide
      · exact (writeHex_plain digit).2.2
  | wide =>
    rcases List.mem_cons.mp member with rfl | later
    · decide
    · rcases List.mem_cons.mp later with rfl | digit
      · decide
      · exact (writeHex_plain digit).2.2

theorem shape_escape {cs : List Char} {d : Char} (member : d ∈ escape cs) :
    0x20 ≤ d.toNat ∧ d.toNat ≤ 0x7E := by
  obtain ⟨c, _, inside⟩ := List.mem_flatMap.mp member
  exact (escaped_escapeChar c).shape inside

theorem unescape_escape (cs : List Char) : unescape (escape cs) = .ok cs := by
  obtain ⟨words, spelled, decoded⟩ := exists_spelling_escape cs
  rw [spelled, unescape_spelling, decoded]

-- Text that can stand between quotes: every backslash takes the character behind it, and no other
-- quote is met on the way.
inductive Paired : List Char → Prop where
  | nil : Paired []
  | taken (c : Char) (rest : Paired cs) : Paired ('\\' :: c :: cs)
  | plain (quote : c ≠ '"') (backslash : c ≠ '\\') (rest : Paired cs) : Paired (c :: cs)

theorem Paired.append {front back : List Char} (first : Paired front) (second : Paired back) :
    Paired (front ++ back) := by
  induction first with
  | nil => exact second
  | taken c rest ih => exact .taken c ih
  | plain quote backslash rest ih => exact .plain quote backslash ih

theorem paired_of_plain {cs : List Char} (plain : ∀ c ∈ cs, c ≠ '"' ∧ c ≠ '\\') : Paired cs := by
  induction cs with
  | nil => exact .nil
  | cons c rest ih =>
    obtain ⟨quote, backslash⟩ := plain c List.mem_cons_self
    exact .plain quote backslash (ih fun d member => plain d (List.mem_cons_of_mem _ member))

theorem cutQuoted?_eq_some_iff {cs inner tail : List Char} :
    cutQuoted? cs = some (inner, tail) ↔ cs = inner ++ '"' :: tail ∧ Paired inner := by
  constructor
  · intro cut
    fun_induction cutQuoted? cs generalizing inner with
    | case1 => cases cut
    | case2 =>
      cases cut
      exact ⟨rfl, .nil⟩
    | case3 c rest ih =>
      obtain ⟨⟨first, last⟩, found, same⟩ := Option.map_eq_some_iff.mp cut
      cases same
      obtain ⟨rfl, paired⟩ := ih found
      exact ⟨rfl, .taken c paired⟩
    | case4 c rest quote backslash ih =>
      obtain ⟨⟨first, last⟩, found, same⟩ := Option.map_eq_some_iff.mp cut
      cases same
      obtain ⟨rfl, paired⟩ := ih found
      refine ⟨rfl, .plain quote ?_ paired⟩
      rintro rfl
      cases first <;> exact backslash _ _ rfl rfl
  · rintro ⟨rfl, paired⟩
    induction paired with
    | nil => rfl
    | taken c rest ih =>
      rw [List.cons_append, List.cons_append, cutQuoted?, ih]
      rfl
    | plain quote backslash rest ih =>
      rw [List.cons_append, cutQuoted?, ih]
      · rfl
      · exact quote
      · intro d rest same
        exact absurd same backslash

theorem Escaped.paired {c : Char} {text : List Char} (escaped : Escaped c text) : Paired text := by
  have digits : ∀ width, Paired (writeHex width c.toNat) := by
    intro width
    apply paired_of_plain
    intro d member
    exact ⟨(writeHex_plain member).1, (writeHex_plain member).2.1⟩
  cases escaped with
  | plain shape quote backslash => exact .plain quote backslash .nil
  | short letter ascii read => exact .taken letter .nil
  | narrow fits => exact .taken 'u' (digits 4)
  | wide => exact .taken 'U' (digits 8)

theorem paired_escape (cs : List Char) : Paired (escape cs) := by
  induction cs with
  | nil => exact .nil
  | cons c rest ih => exact (escaped_escapeChar c).paired.append ih

theorem cutQuoted?_escape (cs tail : List Char) :
    cutQuoted? (escape cs ++ '"' :: tail) = some (escape cs, tail) :=
  cutQuoted?_eq_some_iff.mpr ⟨rfl, paired_escape cs⟩

theorem escape_quotable (cs : List Char) :
    unescape (escape cs) = .ok cs ∧
      (∀ c ∈ escape cs, 0x20 ≤ c.toNat ∧ c.toNat ≤ 0x7E) ∧
      Paired (escape cs) ∧
      ∀ tail inner rest : List Char, Paired inner →
        (escape cs ++ '"' :: tail = inner ++ '"' :: rest ↔ inner = escape cs ∧ rest = tail) := by
  refine ⟨unescape_escape cs, fun c member => shape_escape member, paired_escape cs, ?_⟩
  intro tail inner rest paired
  constructor
  · intro same
    have found := cutQuoted?_escape cs tail
    rw [cutQuoted?_eq_some_iff.mpr ⟨same, paired⟩] at found
    cases found
    exact ⟨rfl, rfl⟩
  · rintro ⟨rfl, rfl⟩
    rfl

theorem readIri_chars (i : Iri) : readIri i.chars = .ok i := by
  have last : (i.text.toList ++ ['>']).getLast? = some '>' := by simp
  have built : Iri.ofText i.text = .ok i := by
    rw [Iri.ofText, dif_pos i.absolute]
  simp [Iri.chars, readIri, last, built]

theorem eq_chars_of_readIri {cs : List Char} {i : Iri} (read : readIri cs = .ok i) :
    cs = i.chars := by
  unfold readIri at read
  split at read
  next rest =>
    split at read
    next closed =>
      split at read
      next built =>
        cases read
        unfold Iri.ofText at built
        split at built
        next =>
          cases built
          obtain ⟨front, rfl⟩ := List.getLast?_eq_some_iff.mp closed
          simp [Iri.chars]
        next => cases built
      next => cases read
    next => cases read
  next => cases read

theorem readLiteral_quoted (form : String) (tail : List Char) :
    readLiteral (Node.quoted form ++ tail) =
      readSuffix form ((escape form.toList).length + 2) (Node.quoted form ++ tail).length tail := by
  have shape : Node.quoted form ++ tail = '"' :: (escape form.toList ++ '"' :: tail) := by
    simp [Node.quoted]
  rw [shape]
  simp only [readLiteral, cutQuoted?_escape, unescape_escape, String.ofList_toList]

theorem readNode_chars (n : Node) : readNode n.chars = .ok n := by
  have literal : ∀ form tail,
      readNode (Node.quoted form ++ tail) = readLiteral (Node.quoted form ++ tail) := by
    intro form tail
    simp [Node.quoted, readNode]
  cases n with
  | iri i =>
    have read := readIri_chars i
    rw [Iri.chars, List.cons_append] at read
    rw [Node.chars, Iri.chars, List.cons_append, readNode, read]
    rfl
  | plain form =>
    rw [Node.chars, ← List.append_nil (Node.quoted form), literal, readLiteral_quoted]
    rfl
  | tagged form tag =>
    rw [Node.chars, literal, readLiteral_quoted]
    simp [readSuffix, LanguageTag.ofText, tag.nonempty]
  | typed form datatype =>
    rw [Node.chars, literal, readLiteral_quoted]
    simp [readSuffix, readIri_chars]

theorem readIri_display (i : Iri) : readIri i.display.toList = .ok i := by
  rw [Iri.display, String.toList_ofList]
  exact readIri_chars i

theorem readNode_display (n : Node) : readNode n.display.toList = .ok n := by
  rw [Node.display, String.toList_ofList]
  exact readNode_chars n

end NTriples

theorem Node.eq_of_display {n m : Node} (same : n.display = m.display) : n = m := by
  have read := NTriples.readNode_display n
  rw [same, NTriples.readNode_display m] at read
  exact (Except.ok.inj read).symm

-- The text of a node says which kind it is, its lexical form, its IRI and the exact case of its
-- language tag: it is read as that node, and no other node has the same text.
theorem Node.display_lossless (n : Node) :
    NTriples.readNode n.display.toList = .ok n ∧ ∀ m : Node, m.display = n.display ↔ m = n := by
  refine ⟨NTriples.readNode_display n, ?_⟩
  intro m
  constructor
  · exact eq_of_display
  · rintro rfl
    rfl

end GraphSql
