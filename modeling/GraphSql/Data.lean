namespace GraphSql

inductive FileState where
  | missing (reason : String)
  | unreadable (reason : String)
  | content (text : String)
deriving DecidableEq

namespace FileState

def absent : FileState := .missing "No such file or directory (os error 2)"

def blocked : FileState := .missing "Not a directory (os error 20)"

def directory : FileState := .unreadable "Is a directory (os error 21)"

def extension? (path : String) : Option String :=
  let name := (path.toList.reverse.takeWhile (· != '/')).reverse
  match name.reverse.dropWhile (· != '.') with
  | '.' :: _ :: _ => some (String.ofList (name.reverse.takeWhile (· != '.')).reverse)
  | _ => none

end FileState

inductive Data where
  | null
  | flag (value : Bool)
  -- Whether it has a value within the format's range; the value itself is not kept.
  | number (hasValue : Bool)
  | moment (content : String)
  -- None if it is written with half of a surrogate pair: it can be skipped, but not used.
  | text (content : Option String)
  | list (items : List Data)
  | table (entries : List (Option String × Data))

namespace Data

mutual

def isSkippable : Data → Bool
  | .number hasValue => hasValue
  | .list items => areSkippable items
  | .table entries => valuesAreSkippable entries
  | _ => true

def areSkippable : List Data → Bool
  | [] => true
  | item :: rest => item.isSkippable && areSkippable rest

def valuesAreSkippable : List (Option String × Data) → Bool
  | [] => true
  | (_, value) :: rest => value.isSkippable && valuesAreSkippable rest

end

def text? : Data → Option String
  | .text content => content
  | _ => none

def flag? : Data → Option Bool
  | .flag value => some value
  | _ => none

def list? {α : Type} (read : Data → Option α) : Data → Option (List α)
  | .list items => items.mapM read
  | _ => none

def momentKey : String := "$__toml_private_datetime"

def entries? : Data → Option (List (String × Data))
  | .moment content => some [(momentKey, .text (some content))]
  | .table entries => entries.mapM fun (key, value) => key.map (·, value)
  | _ => none

-- A record is a table, in which a field is given at most once and unknown keys are skipped, or a
-- list of the first fields in order. Items beyond the last field are an error unless `surplus`
-- allows them, and then nobody looks at them.
def record? (surplus : Bool) (names : List String) (data : Data) : Option (List (Option Data)) :=
  match data with
  | .list items =>
    if items.length ≤ names.length ∨ surplus = true then
      some ((List.range names.length).map (items[·]?))
    else none
  | _ => do
    let entries ← data.entries?
    let known := entries.filter fun entry => names.contains entry.1
    let unknown := entries.filter fun entry => !names.contains entry.1
    let keys : List String := known.map (·.1)
    if keys.Nodup ∧ unknown.all (fun entry => entry.2.isSkippable) = true then
      some (names.map fun name => known.lookup name)
    else none

def field? {α : Type} (fallback : α) (read : Data → Option α) : Option Data → Option α
  | none => some fallback
  | some data => read data

end Data

end GraphSql

namespace GraphSql.Data

abbrev Reader (α : Type) := List Char → Option (α × List Char)

variable {α : Type}

structure SeriesRules where
  close : Char
  skip : List Char → Option (List Char)
  trailing : Bool

-- Each item takes at least a comma, so that the text's length is limit enough.
def readItems (rules : SeriesRules) (item : Reader α) : Nat → Reader (List α)
  | 0, _ => none
  | limit + 1, cs => do
    let (first, cs) ← item cs
    let cs ← rules.skip cs
    match cs with
    | ',' :: rest => do
      let cs ← rules.skip rest
      if rules.trailing && cs.head? == some rules.close then return ([first], cs.tail)
      else
        let (others, cs) ← readItems rules item limit cs
        return (first :: others, cs)
    | c :: rest => if c = rules.close then some ([first], rest) else none
    | [] => none

def readSeries (rules : SeriesRules) (item : Reader α) : Reader (List α) := fun cs => do
  let cs ← rules.skip cs
  if cs.head? == some rules.close then return ([], cs.tail)
  else readItems rules item (cs.length + 1) cs

end GraphSql.Data
