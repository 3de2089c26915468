namespace GraphSql.Text

-- Case folding of the letters A to Z. All other characters, letters of other scripts included,
-- stay.

def foldCase (s : String) : String := String.ofList (s.toList.map Char.toLower)

theorem foldCase_ne_empty (s : String) (nonempty : s ≠ "") : foldCase s ≠ "" := by
  intro folded
  apply nonempty
  have chars : s.toList.map Char.toLower = [] := by
    have := congrArg String.toList folded
    simpa [foldCase] using this
  exact String.toList_inj.mp (by simpa using chars)

-- Blank characters: the Unicode `White_Space` property, and cutting them off both ends of a text.

def isBlank (c : Char) : Bool :=
  let n := c.toNat
  (0x09 ≤ n && n ≤ 0x0D) || n == 0x20 || n == 0x85 || n == 0xA0 || n == 0x1680 ||
    (0x2000 ≤ n && n ≤ 0x200A) || n == 0x2028 || n == 0x2029 || n == 0x202F || n == 0x205F ||
    n == 0x3000

def trimEnd (drop : Char → Bool) (cs : List Char) : List Char :=
  (cs.reverse.dropWhile drop).reverse

def trimChars (cs : List Char) : List Char := trimEnd isBlank (cs.dropWhile isBlank)

def trim (s : String) : String := String.ofList (trimChars s.toList)

theorem trimEnd_cons (drop : Char → Bool) (c : Char) (rest : List Char) (kept : drop c = false) :
    trimEnd drop (c :: rest) = c :: trimEnd drop rest := by
  rw [trimEnd, List.reverse_cons, List.dropWhile_append]
  split
  case isTrue none =>
    have empty : rest.reverse.dropWhile drop = [] := by simpa using none
    simp [trimEnd, empty, kept]
  case isFalse => simp [trimEnd]

theorem kept_of_dropWhile (drop : Char → Bool) (cs rest : List Char) (c : Char)
    (left : cs.dropWhile drop = c :: rest) : drop c = false := by
  have first := List.head?_dropWhile_not drop cs
  rw [left] at first
  exact first

theorem kept_of_trimEnd {drop : Char → Bool} {cs : List Char} {c : Char}
    (last : (trimEnd drop cs).getLast? = some c) :
    drop c = false := by
  rw [trimEnd, List.getLast?_reverse] at last
  obtain ⟨rest, left⟩ := List.head?_eq_some_iff.mp last
  exact kept_of_dropWhile drop cs.reverse rest c left

theorem trimEnd_of_last {drop : Char → Bool} {cs : List Char}
    (kept : ∀ c, cs.getLast? = some c → drop c = false) :
    trimEnd drop cs = cs := by
  rcases List.eq_nil_or_concat cs with rfl | ⟨front, last, rfl⟩
  · rfl
  · have stays := kept last (by simp)
    simp [trimEnd, stays]

theorem trimEnd_trimEnd (drop : Char → Bool) (cs : List Char) :
    trimEnd drop (trimEnd drop cs) = trimEnd drop cs :=
  trimEnd_of_last fun _ => kept_of_trimEnd

theorem mem_of_mem_trimChars {cs : List Char} {c : Char} (member : c ∈ trimChars cs) : c ∈ cs := by
  rw [trimChars, trimEnd, List.mem_reverse] at member
  have inner := (List.dropWhile_sublist _).subset member
  rw [List.mem_reverse] at inner
  exact (List.dropWhile_sublist _).subset inner

theorem trimChars_trimChars (cs : List Char) : trimChars (trimChars cs) = trimChars cs := by
  unfold trimChars
  cases left : cs.dropWhile isBlank with
  | nil => simp [trimEnd]
  | cons c rest =>
    have kept := kept_of_dropWhile isBlank cs rest c left
    rw [trimEnd_cons isBlank c rest kept, List.dropWhile_cons_of_neg (by simp [kept]),
      ← trimEnd_cons isBlank c rest kept, trimEnd_trimEnd]

theorem trim_trim (s : String) : trim (trim s) = trim s := by
  simp [trim, trimChars_trimChars]

def cutAt? (c : Char) (cs : List Char) : Option (List Char × List Char) :=
  match cs.dropWhile (· != c) with
  | [] => none
  | _ :: after => some (cs.takeWhile (· != c), after)

def splitAt (c : Char) : List Char → List (List Char)
  | [] => [[]]
  | d :: rest =>
    if d = c then [] :: splitAt c rest
    else
      match splitAt c rest with
      | [] => [[d]]
      | part :: parts => (d :: part) :: parts

def readDecimal (digits : List Char) : Nat :=
  Nat.ofDigitChars 10 digits 0

def writeDecimal (width n : Nat) : List Char :=
  let digits := Nat.toDigits 10 n
  List.replicate (width - digits.length) '0' ++ digits

def hexValue? (c : Char) : Option Nat :=
  if '0' ≤ c ∧ c ≤ '9' then some (c.toNat - 0x30)
  else if 'a' ≤ c ∧ c ≤ 'f' then some (c.toNat - 0x61 + 10)
  else if 'A' ≤ c ∧ c ≤ 'F' then some (c.toNat - 0x41 + 10)
  else none

def isHexDigit (c : Char) : Bool := (hexValue? c).isSome

def readHex (digits : List Char) : Option Nat :=
  digits.foldlM (fun value c => (hexValue? c).map (value * 16 + ·)) 0

def hexDigit (n : Nat) : Char := Char.ofNat (if n < 10 then 0x30 + n else 0x41 + (n - 10))

def writeHex : Nat → Nat → List Char
  | 0, _ => []
  | width + 1, n => writeHex width (n / 16) ++ [hexDigit (n % 16)]

def scalar? (n : Nat) : Option Char := if n.isValidChar then some (Char.ofNat n) else none

-- Surrogates: the codes that stand for one character only in pairs, a high one before a low one.

def isHighHalf (code : Nat) : Bool := 0xD800 ≤ code && code ≤ 0xDBFF

def isLowHalf (code : Nat) : Bool := 0xDC00 ≤ code && code ≤ 0xDFFF

def joinHalves (high low : Nat) : Char :=
  Char.ofNat (0x10000 + (high - 0xD800) * 0x400 + (low - 0xDC00))

end GraphSql.Text
