import Mathlib.Data.List.Induction
import Mathlib.Data.Nat.Digits.Defs
import GraphSql.Text.Basic

-- What readers are made of: steps that can fail, runs of one kind of character, and hexadecimal
-- numerals.

namespace GraphSql

section results

variable {ε δ α β : Type}

@[simp] theorem mapError_of_ok (f : ε → δ) (a : α) :
    (Except.ok a : Except ε α).mapError f = .ok a := rfl

@[simp] theorem mapError_of_error (f : ε → δ) (e : ε) :
    (Except.error e : Except ε α).mapError f = .error (f e) := rfl

@[simp] theorem ok_bind (a : α) (f : α → Except ε β) : (Except.ok a >>= f) = f a := rfl

@[simp] theorem error_bind (e : ε) (f : α → Except ε β) : (Except.error e >>= f) = .error e := rfl

theorem mapError_ok {f : ε → δ} {x : Except ε α} {a : α} : x.mapError f = .ok a ↔ x = .ok a := by
  cases x <;> simp

theorem bind_ok_iff {x : Except ε α} {f : α → Except ε β} {b : β} :
    (x >>= f) = .ok b ↔ ∃ a, x = .ok a ∧ f a = .ok b := by
  cases x <;> simp

theorem map_ok_iff {x : Except ε α} {f : α → β} {b : β} :
    x.map f = .ok b ↔ ∃ a, x = .ok a ∧ f a = b := by
  cases x <;> simp [Except.map]

theorem map_error_iff {x : Except ε α} {f : α → β} {e : ε} :
    x.map f = .error e ↔ x = .error e := by
  cases x <;> simp [Except.map]

theorem mapError_error_iff {f : ε → δ} {x : Except ε α} {d : δ} :
    x.mapError f = .error d ↔ ∃ e, x = .error e ∧ f e = d := by
  cases x <;> simp

theorem bind_error_iff {x : Except ε α} {f : α → Except ε β} {e : ε} :
    (x >>= f) = .error e ↔ x = .error e ∨ ∃ a, x = .ok a ∧ f a = .error e := by
  cases x <;> simp

theorem of_guard {fails : Prop} [Decidable fails] {e : ε} {x : Except ε α} {a : α}
    (passed : (if fails then .error e else x) = .ok a) : ¬ fails ∧ x = .ok a := by
  split at passed
  next => cases passed
  next held => exact ⟨held, passed⟩

end results

namespace Text

section runs

variable {drop : Char → Bool}

theorem exists_trimEnd (drop : Char → Bool) (cs : List Char) :
    ∃ run, cs = trimEnd drop cs ++ run ∧ ∀ c ∈ run, drop c = true := by
  refine ⟨(cs.reverse.takeWhile drop).reverse, ?_, ?_⟩
  · rw [trimEnd, ← List.reverse_append, List.takeWhile_append_dropWhile, List.reverse_reverse]
  · intro c member
    exact List.all_eq_true.mp List.all_takeWhile c (List.mem_reverse.mp member)

theorem trimEnd_append {run : List Char} (cs : List Char) (gone : ∀ c ∈ run, drop c = true) :
    trimEnd drop (cs ++ run) = trimEnd drop cs := by
  rw [trimEnd, List.reverse_append, List.dropWhile_append_of_pos, trimEnd]
  intro c member
  exact gone c (List.mem_reverse.mp member)

theorem takeWhile_run {kind : Char → Bool} {run rest : List Char} (all : ∀ c ∈ run, kind c = true)
    (stop : ∀ c, rest.head? = some c → kind c = false) :
    (run ++ rest).takeWhile kind = run ∧ (run ++ rest).dropWhile kind = rest := by
  rw [List.takeWhile_append_of_pos all, List.dropWhile_append_of_pos all]
  cases rest with
  | nil => simp
  | cons c rest => simp [stop c rfl]

end runs

structure Numeral (width : Nat) (digits : List Char) (n : Nat) : Prop where
  length : digits.length = width
  spells : ∃ values : List Nat,
    digits.map hexValue? = values.map some ∧ Nat.ofDigits 16 values.reverse = n

theorem readHex_concat (digits : List Char) (last : Char) :
    readHex (digits ++ [last]) =
      (readHex digits).bind fun value => (hexValue? last).map (value * 16 + ·) := by
  simp [readHex, List.foldlM_append]

theorem readHex_eq_some_iff {digits : List Char} {n : Nat} :
    readHex digits = some n ↔ ∃ values : List Nat,
      digits.map hexValue? = values.map some ∧ Nat.ofDigits 16 values.reverse = n := by
  induction digits using List.reverseRecOn generalizing n with
  | nil =>
    constructor
    · intro read
      exact ⟨[], rfl, Option.some.inj read⟩
    · intro spelled
      obtain ⟨values, known, sum⟩ := spelled
      cases List.map_eq_nil_iff.mp known.symm
      exact congrArg some sum
  | append_singleton digits last ih =>
    rw [readHex_concat, Option.bind_eq_some_iff]
    constructor
    · intro read
      obtain ⟨upper, front, rest⟩ := read
      obtain ⟨value, digit, total⟩ := Option.map_eq_some_iff.mp rest
      obtain ⟨values, known, sum⟩ := ih.mp front
      refine ⟨values ++ [value], by simp [known, digit], ?_⟩
      rw [List.reverse_concat, Nat.ofDigits_cons, sum, ← total]
      omega
    · intro spelled
      obtain ⟨values, known, sum⟩ := spelled
      induction values using List.reverseRecOn with
      | nil => simp at known
      | append_singleton front value =>
        rw [List.map_append, List.map_append] at known
        obtain ⟨first, digit⟩ := List.append_inj' known rfl
        refine ⟨_, ih.mpr ⟨front, first, rfl⟩, ?_⟩
        rw [List.reverse_concat, Nat.ofDigits_cons] at sum
        rw [(List.cons.inj digit).1, Option.map_some, ← sum, Option.some.injEq]
        omega

theorem hexValue?_plain {c : Char} {n : Nat} (digit : hexValue? c = some n) :
    c ≠ '"' ∧ c ≠ '\\' ∧ 0x20 ≤ c.toNat ∧ c.toNat ≤ 0x7E := by
  refine ⟨?_, ?_, ?_⟩
  · rintro rfl
    cases digit
  · rintro rfl
    cases digit
  · simp only [hexValue?, Char.le_def, UInt32.le_iff_toNat_le] at digit
    split at digit
    next range => exact ⟨Nat.le_trans (by decide) range.1, range.2.trans (by decide)⟩
    next =>
      split at digit
      next range => exact ⟨Nat.le_trans (by decide) range.1, range.2.trans (by decide)⟩
      next =>
        split at digit
        next range => exact ⟨Nat.le_trans (by decide) range.1, range.2.trans (by decide)⟩
        next => cases digit

theorem Numeral.plain {width n : Nat} {digits : List Char} (numeral : Numeral width digits n)
    {c : Char} (member : c ∈ digits) :
    c ≠ '"' ∧ c ≠ '\\' ∧ 0x20 ≤ c.toNat ∧ c.toNat ≤ 0x7E := by
  obtain ⟨values, known, -⟩ := numeral.spells
  have digit : hexValue? c ∈ values.map some := known ▸ List.mem_map_of_mem member
  obtain ⟨value, -, found⟩ := List.mem_map.mp digit
  exact hexValue?_plain found.symm

theorem Numeral.enough {width n : Nat} {cs : List Char} (code : Numeral width (cs.take width) n) :
    ¬ cs.length < width := by
  have := code.length
  rw [List.length_take] at this
  omega

theorem hexValue?_hexDigit {n : Nat} (small : n < 16) : hexValue? (hexDigit n) = some n := by
  have all : ∀ n : Fin 16, hexValue? (hexDigit n) = some n.val := by decide
  exact all ⟨n, small⟩

theorem length_writeHex (width n : Nat) : (writeHex width n).length = width := by
  induction width generalizing n with
  | zero => rfl
  | succ width ih => simp [writeHex, ih]

theorem readHex_writeHex {width n : Nat} (fits : n < Nat.pow 16 width) :
    readHex (writeHex width n) = some n := by
  induction width generalizing n with
  | zero =>
    cases Nat.lt_one_iff.mp fits
    rfl
  | succ width ih =>
    have upper : n / 16 < Nat.pow 16 width :=
      Nat.div_lt_of_lt_mul (Nat.mul_comm _ _ ▸ fits)
    rw [writeHex, readHex_concat, ih upper, hexValue?_hexDigit (Nat.mod_lt _ (by decide))]
    simp only [Option.bind_some, Option.map_some, Option.some.injEq]
    omega

theorem writeHex_plain {width n : Nat} {c : Char} (member : c ∈ writeHex width n) :
    c ≠ '"' ∧ c ≠ '\\' ∧ 0x20 ≤ c.toNat ∧ c.toNat ≤ 0x7E := by
  induction width generalizing n with
  | zero => cases member
  | succ width ih =>
    rcases List.mem_append.mp member with upper | last
    · exact ih upper
    · rw [List.mem_singleton.mp last]
      exact hexValue?_plain (hexValue?_hexDigit (Nat.mod_lt _ (by decide)))

theorem scalar?_toNat (c : Char) : scalar? c.toNat = some c := by
  have valid : c.toNat.isValidChar := c.valid
  rw [scalar?, if_pos valid, Char.ofNat_toNat]

theorem isHighHalf_toNat (c : Char) : isHighHalf c.toNat = false := by
  have valid : c.toNat.isValidChar := c.valid
  simp only [Nat.isValidChar] at valid
  simp only [isHighHalf, Bool.and_eq_false_iff, decide_eq_false_iff_not]
  omega

theorem scalar?_eq_some_iff {n : Nat} {c : Char} : scalar? n = some c ↔ c.toNat = n := by
  constructor
  · intro found
    unfold scalar? at found
    split at found
    next valid =>
      cases found
      rw [Char.ofNat, dif_pos valid]
      rfl
    next => cases found
  · intro code
    rw [← code, scalar?_toNat]

theorem toNat_joinHalves {high low : Nat} (upper : isHighHalf high = true)
    (lower : isLowHalf low = true) :
    (joinHalves high low).toNat = 0x10000 + (high - 0xD800) * 0x400 + (low - 0xDC00) := by
  simp only [isHighHalf, isLowHalf, Bool.and_eq_true, decide_eq_true_eq] at upper lower
  apply scalar?_eq_some_iff.mp
  apply if_pos
  right
  omega

end Text

end GraphSql
