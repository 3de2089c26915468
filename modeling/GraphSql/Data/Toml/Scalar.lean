import GraphSql.Data
import GraphSql.Text.Basic

namespace GraphSql.Data.Toml
open Text

-- Numbers of a TOML document. A reader checks how a number is written and leaves its value to
-- whoever looks at the number, so there are texts that pass for a number and have no value.

def isSeparated (isDigit : Char → Bool) (cs : List Char) : Bool :=
  let parts := splitAt '_' cs
  parts.tail.all (fun part => part.head?.any isDigit) &&
    parts.dropLast.all fun part => part.getLast?.any isDigit

def dropSeparators (cs : List Char) : List Char := cs.filter (· != '_')

def cutSign (cs : List Char) : Bool × List Char :=
  match cs with
  | '+' :: rest => (false, rest)
  | '-' :: rest => (true, rest)
  | _ => (false, cs)

def integerInRange (negative : Bool) (value : Nat) : Bool :=
  if negative then value ≤ Nat.pow 2 127 else value < Nat.pow 2 128

def digitValue? (base : Nat) (c : Char) : Option Nat := (hexValue? c).filter (· < base)

def integerValue? (base : Nat) (cs : List Char) : Option Nat :=
  if cs.isEmpty then none
  else cs.foldlM (fun value c => (digitValue? base c).map (value * base + ·)) 0

def integer (base : Nat) (negative : Bool) (cs : List Char) : Data :=
  .number ((integerValue? base (dropSeparators cs)).any (integerInRange negative))

def based? (base : Nat) (cs : List Char) : Option Data :=
  if isSeparated isHexDigit cs && (dropSeparators cs).all fun c => (digitValue? base c).isSome
  then some (integer base false cs)
  else none

-- A decimal integer, without a leading zero. From the first underscore on, only the characters
-- beside an underscore are checked, and any hexadecimal digit will do there; but there is no space.
def decimal? (cs : List Char) : Option Data :=
  let (negative, size) := cutSign cs
  match size, size.dropWhile Char.isDigit with
  | [], _ => none
  | ['0'], _ => some (integer 10 negative size)
  | '0' :: _, _ => none
  | _, [] => some (integer 10 negative size)
  | _, '_' :: _ =>
    if isSeparated isHexDigit cs && !cs.contains ' ' then some (integer 10 negative size) else none
  | _, _ => none

def overflow : Nat := Nat.pow 2 1024 - Nat.pow 2 970

def floatInRange (value : Nat) (exponent : Int) : Bool :=
  let size : Int := (Nat.toDigits 10 value).length + exponent
  if value = 0 ∨ size ≤ 308 then true
  else if size ≥ 310 then false
  else if exponent ≥ 0 then value * Nat.pow 10 exponent.toNat < overflow
  else value < overflow * Nat.pow 10 (-exponent).toNat

def digits? (cs : List Char) : Option (List Char) :=
  let digits := dropSeparators cs
  if !digits.isEmpty && digits.all Char.isDigit then some digits else none

def whole? (cs : List Char) : Option (List Char) := do
  let digits ← digits? cs
  if digits.length > 1 ∧ cs.head? = some '0' then none else some digits

def exponent? (cs : List Char) : Option Int := do
  let (negative, rest) := cutSign cs
  let size : Int := readDecimal (← digits? rest)
  return if negative then -size else size

def mantissa? (cs : List Char) : Option (List Char × List Char) :=
  match cutAt? '.' cs with
  | some (whole, fraction) => do return (← whole? whole, ← digits? fraction)
  | none => (whole? cs).map (·, [])

def isExponentMark (c : Char) : Bool := c == 'e' || c == 'E'

def float? (cs : List Char) : Option Data := do
  guard (isSeparated Char.isDigit cs)
  let (_, size) := cutSign cs
  let mantissa := size.takeWhile (!isExponentMark ·)
  let mark := size.dropWhile (!isExponentMark ·)
  let exponent ← if mark.isEmpty then some 0 else exponent? mark.tail
  let (whole, fraction) ← mantissa? mantissa
  return .number (floatInRange (readDecimal (whole ++ fraction)) (exponent - fraction.length))

def number? (cs : List Char) : Option Data :=
  match cs with
  | '0' :: 'x' :: rest => based? 16 rest
  | '0' :: 'o' :: rest => based? 8 rest
  | '0' :: 'b' :: rest => based? 2 rest
  | _ => if cs.any (fun c => c == '.' || isExponentMark c) then float? cs else decimal? cs

-- Dates and times of a TOML document, and their text: a `T` between date and time, seconds always
-- given, and a fraction of at most nine digits without zeros at its end.

structure Date where
  year : Nat
  month : Nat
  day : Nat
deriving DecidableEq

structure Time where
  hours : Nat
  minutes : Nat
  seconds : Nat
  fraction : List Char
deriving DecidableEq

inductive Zone where
  | universal
  | offset (minutes : Int)
deriving DecidableEq

inductive Moment where
  | date (date : Date)
  | time (time : Time)
  | both (date : Date) (time : Time) (zone : Option Zone)
deriving DecidableEq

def counted? (width low high : Nat) (cs : List Char) : Option Nat :=
  if cs.length = width ∧ cs.all Char.isDigit = true ∧ low ≤ readDecimal cs ∧ readDecimal cs ≤ high
  then some (readDecimal cs)
  else none

def daysIn (year month : Nat) : Nat :=
  if month = 2 then
    if year % 4 = 0 ∧ (year % 100 ≠ 0 ∨ year % 400 = 0) then 29 else 28
  else if month = 4 ∨ month = 6 ∨ month = 9 ∨ month = 11 then 30 else 31

namespace Date

def ofChars? (cs : List Char) : Option Date :=
  match splitAt '-' cs with
  | [year, month, day] => do
    let year ← counted? 4 0 9999 year
    let month ← counted? 2 1 12 month
    let day ← counted? 2 1 (daysIn year month) day
    return ⟨year, month, day⟩
  | _ => none

def chars (d : Date) : List Char :=
  writeDecimal 4 d.year ++ '-' :: writeDecimal 2 d.month ++ '-' :: writeDecimal 2 d.day

end Date

namespace Time

-- Digits beyond the ninth do not count.
def fraction? (cs : List Char) : Option (List Char) :=
  if !cs.isEmpty && cs.all Char.isDigit then some (trimEnd (· == '0') (cs.take 9)) else none

def seconds? (cs : List Char) : Option (Nat × List Char) :=
  match cutAt? '.' cs with
  | none => (counted? 2 0 60 cs).map (·, [])
  | some (seconds, fraction) => do
    let seconds ← counted? 2 0 60 seconds
    let fraction ← fraction? fraction
    return (seconds, fraction)

def ofChars? (cs : List Char) : Option Time :=
  match splitAt ':' cs with
  | [hours, minutes] => do
    let hours ← counted? 2 0 23 hours
    let minutes ← counted? 2 0 59 minutes
    return ⟨hours, minutes, 0, []⟩
  | [hours, minutes, seconds] => do
    let hours ← counted? 2 0 23 hours
    let minutes ← counted? 2 0 59 minutes
    let (seconds, fraction) ← seconds? seconds
    return ⟨hours, minutes, seconds, fraction⟩
  | _ => none

def chars (t : Time) : List Char :=
  writeDecimal 2 t.hours ++ ':' :: writeDecimal 2 t.minutes ++ ':' :: writeDecimal 2 t.seconds ++
    if t.fraction.isEmpty then [] else '.' :: t.fraction

end Time

namespace Zone

def offset? (behind : Bool) (cs : List Char) : Option Zone :=
  match splitAt ':' cs with
  | [hours, minutes] => do
    let hours ← counted? 2 0 23 hours
    let minutes ← counted? 2 0 59 minutes
    let distance : Int := hours * 60 + minutes
    return .offset (if behind then -distance else distance)
  | _ => none

def chars : Zone → List Char
  | .universal => ['Z']
  | .offset minutes =>
    (if minutes < 0 then '-' else '+') :: writeDecimal 2 (minutes.natAbs / 60) ++
      ':' :: writeDecimal 2 (minutes.natAbs % 60)

end Zone

namespace Moment

def zonedTime? (cs : List Char) : Option (Time × Option Zone) :=
  let isSign (c : Char) : Bool := c == '+' || c == '-'
  let time := cs.takeWhile (!isSign ·)
  match cs.dropWhile (!isSign ·) with
  | sign :: distance => do
    let time ← Time.ofChars? time
    let zone ← Zone.offset? (sign == '-') distance
    return (time, some zone)
  | [] =>
    if cs.getLast? = some 'Z' ∨ cs.getLast? = some 'z' then
      (Time.ofChars? cs.dropLast).map (·, some .universal)
    else (Time.ofChars? cs).map (·, none)

def ofChars? (cs : List Char) : Option Moment :=
  match Date.ofChars? cs, Time.ofChars? cs with
  | some d, _ => some (.date d)
  | none, some t => some (.time t)
  | none, none => do
    let d ← Date.ofChars? (cs.take 10)
    match cs.drop 10 with
    | divider :: rest =>
      if divider = 'T' ∨ divider = 't' ∨ divider = ' ' then
        (zonedTime? rest).map fun (t, zone) => .both d t zone
      else none
    | [] => none

def chars : Moment → List Char
  | .date d => d.chars
  | .time t => t.chars
  | .both d t zone => d.chars ++ 'T' :: t.chars ++ (zone.map Zone.chars).getD []

def text (m : Moment) : String := String.ofList m.chars

end Moment

def bareScalar? (cs : List Char) : Option Data :=
  if cs = "true".toList then some (.flag true)
  else if cs = "false".toList then some (.flag false)
  else if (["inf", "nan"].map (·.toList)).contains (cutSign cs).2 then some (.number true)
  else
    match Moment.ofChars? cs with
    | some m => some (.moment m.text)
    | none => number? cs

end GraphSql.Data.Toml
