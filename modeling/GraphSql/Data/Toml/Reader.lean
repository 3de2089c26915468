import GraphSql.Data
import GraphSql.Data.Toml.Scalar
import GraphSql.Data.Toml.Text

namespace GraphSql.Data.Toml

-- A table is defined once. Keys with dots open tables of their own, which only keys with dots
-- extend; headers open the tables on their way, which one header may define later; an inline table
-- is closed.

inductive Origin where
  | header
  | path
  | dotted
  | inline
deriving DecidableEq

inductive Item where
  | value (data : Data)
  | table (origin : Origin) (entries : List (String × Item))
  | tables (front : List (List (String × Item))) (last : List (String × Item))

abbrev Entries := List (String × Item)

def alter? (change : Option Item → Option Item) (key : String) : Entries → Option Entries
  | [] => do
    let item ← change none
    return [(key, item)]
  | (name, item) :: rest =>
    if name = key then do
      let item ← change (some item)
      return (key, item) :: rest
    else do
      let rest ← alter? change key rest
      return (name, item) :: rest

-- Follows a path and changes the table at its end. Tables that are missing on the way are opened as
-- `missing`. A key with dots does not pass through a table that a header has defined.
def follow? (missing : Origin) (change : Origin → Entries → Option Entries) :
    List String → Origin → Entries → Option Entries
  | [], origin, entries => change origin entries
  | key :: path, _, entries =>
    alter? (fun
      | none => do
        let inner ← follow? missing change path missing []
        return .table missing inner
      | some (.value _) => none
      | some (.table .inline _) => none
      | some (.table origin inner) =>
        if missing = .dotted ∧ origin = .header then none
        else do
          let inner ← follow? missing change path origin inner
          return .table origin inner
      | some (.tables front last) => do
        let last ← follow? missing change path .header last
        return .tables front last) key entries

def insert? (parents : List String) (key : String) (item : Item) (entries : Entries) :
    Option Entries :=
  follow? .dotted (fun origin entries =>
    if (origin == .dotted) == parents.isEmpty then none
    else
      alter? (fun
        | none => some item
        | some _ => none) key entries) parents .header entries

def define? (parents : List String) (key : String) (entries : Entries) : Option Entries :=
  follow? .path (fun _ entries =>
    alter? (fun
      | none => some (.table .header [])
      | some (.table .path inner) => some (.table .header inner)
      | some _ => none) key entries) parents .header entries

def append? (parents : List String) (key : String) (entries : Entries) : Option Entries :=
  follow? .path (fun _ entries =>
    alter? (fun
      | none => some (.tables [] [])
      | some (.tables front last) => some (.tables (front ++ [last]) [])
      | some _ => none) key entries) parents .header entries

def within? (header : List String) (change : Entries → Option Entries) (entries : Entries) :
    Option Entries :=
  follow? .path (fun _ entries => change entries) header .header entries

mutual

def Item.data : Item → Data
  | .value data => data
  | .table _ entries => .table (entriesData entries)
  | .tables front last => .list (tablesData front ++ [.table (entriesData last)])

def entriesData : List (String × Item) → List (Option String × Data)
  | [] => []
  | (key, item) :: rest => (some key, item.data) :: entriesData rest

def tablesData : List (List (String × Item)) → List Data
  | [] => []
  | entries :: rest => .table (entriesData entries) :: tablesData rest

end

open Text

-- Reading TOML documents. Inline tables may have line ends, comments and a trailing comma, as
-- arrays may.

mutual

def skipFiller : List Char → Option (List Char)
  | [] => some []
  | '\r' :: '\n' :: rest => skipFiller rest
  | '#' :: rest => skipRemark rest
  | c :: rest => if isGap c || c == '\n' then skipFiller rest else some (c :: rest)

def skipRemark : List Char → Option (List Char)
  | [] => some []
  | '\n' :: rest => skipFiller rest
  | '\r' :: '\n' :: rest => skipFiller rest
  | c :: rest => if isControl c then none else skipRemark rest

end

def skipGap (cs : List Char) : List Char := cs.dropWhile isGap

def isBareChar (c : Char) : Bool := c.isAlphanum || c == '_' || c == '-'

def readKey : Reader String := fun cs =>
  match readShort cs with
  | some found => some found
  | none =>
    let bare := cs.takeWhile isBareChar
    if bare.isEmpty then none else some (String.ofList bare, cs.dropWhile isBareChar)

def maxKeys : Nat := 80

def readPath : Nat → Reader (List String × String)
  | 0, _ => none
  | limit + 1, cs => do
    let (key, rest) ← readKey (skipGap cs)
    match skipGap rest with
    | '.' :: rest => do
      let ((parents, last), rest) ← readPath limit rest
      return ((key :: parents, last), rest)
    | rest => return (([], key), rest)

def endsScalar (c : Char) : Bool := ['\n', '\r', '#', ',', '=', '[', ']', '\x7b', '\x7d'].contains c

-- The text of a bare scalar and what follows it. The text is a word, or several words with blanks
-- between them; a later word does not begin with a quote. The blanks before the next word are held
-- in `gap`, last one first.
def cutScalar (gap : List Char) : List Char → List Char × List Char
  | [] => ([], gap.reverse)
  | c :: rest =>
    if isGap c then cutScalar (c :: gap) rest
    else if endsScalar c || (!gap.isEmpty && (c == '"' || c == '\'')) then
      ([], gap.reverse ++ c :: rest)
    else
      let (more, rest) := cutScalar [] rest
      (gap.reverse ++ c :: more, rest)

def readScalar : Reader Data := fun cs =>
  let (scalar, rest) := cutScalar [] cs
  (bareScalar? scalar).map (·, rest)

def rules (close : Char) : SeriesRules := ⟨close, skipFiller, true⟩

def readEntry (skip : List Char → Option (List Char)) (value : Reader Item) :
    Reader ((List String × String) × Item) := fun cs => do
  let (path, rest) ← readPath maxKeys cs
  match ← skip rest with
  | '=' :: rest => do
    let rest ← skip rest
    let (item, rest) ← value rest
    return ((path, item), rest)
  | _ => none

def inlineTable? (entries : List ((List String × String) × Item)) : Option Item := do
  let entries ←
    entries.foldlM (fun found ((parents, key), item) => insert? parents key item found) []
  return .table .inline entries

def readValue : Nat → Reader Item
  | depth, cs =>
    match cs with
    | '[' :: rest =>
      match depth with
      | 0 => none
      | depth + 1 =>
        (readSeries (rules ']') (readValue depth) rest).map fun (items, rest) =>
          (.value (.list (items.map (·.data))), rest)
    | '\x7b' :: rest =>
      match depth with
      | 0 => none
      | depth + 1 => do
        let (entries, rest) ←
          readSeries (rules '\x7d') (readEntry skipFiller (readValue depth)) rest
        let table ← inlineTable? entries
        return (table, rest)
    | '"' :: _ | '\'' :: _ => (readText cs).map fun (s, rest) => (.value (.text (some s)), rest)
    | _ => (readScalar cs).map fun (data, rest) => (.value data, rest)

def maxDepth : Nat := 80

def endsStatement (cs : List Char) : Bool :=
  match skipGap cs with
  | [] | '\n' :: _ | '\r' :: '\n' :: _ | '#' :: _ => true
  | _ => false

inductive Statement where
  | entry (parents : List String) (key : String) (item : Item)
  | header (parents : List String) (key : String)
  | repeated (parents : List String) (key : String)

def readHeader (close : List Char) : Reader (List String × String) := fun cs => do
  let (path, rest) ← readPath maxKeys cs
  if close.isPrefixOf rest then some (path, rest.drop close.length) else none

def readStatement : Reader Statement := fun cs =>
  match cs with
  | '[' :: '[' :: rest =>
    (readHeader [']', ']'] rest).map fun ((parents, key), rest) => (.repeated parents key, rest)
  | '[' :: rest =>
    (readHeader [']'] rest).map fun ((parents, key), rest) => (.header parents key, rest)
  | _ =>
    (readEntry (some ∘ skipGap) (readValue maxDepth) cs).map fun (((parents, key), item), rest) =>
      (.entry parents key item, rest)

def readStatements : Nat → List Char → Option (List Statement)
  | 0, _ => none
  | limit + 1, cs => do
    let cs ← skipFiller cs
    if cs.isEmpty then return []
    else
      let (statement, rest) ← readStatement cs
      if endsStatement rest then
        let others ← readStatements limit rest
        return statement :: others
      else none

def carryOut (header : List String) (entries : Entries) : List Statement → Option Entries
  | [] => some entries
  | .entry parents key item :: rest => do
    let entries ← within? header (insert? parents key item) entries
    carryOut header entries rest
  | .header parents key :: rest => do
    let entries ← define? parents key entries
    carryOut (parents ++ [key]) entries rest
  | .repeated parents key :: rest => do
    let entries ← append? parents key entries
    carryOut (parents ++ [key]) entries rest

def skipMark (cs : List Char) : List Char :=
  match cs with
  | '\uFEFF' :: rest => rest
  | _ => cs

def read? (text : String) : Option Data := do
  let cs := skipMark text.toList
  let statements ← readStatements (cs.length + 1) cs
  let entries ← carryOut [] [] statements
  return .table (entriesData entries)

end GraphSql.Data.Toml
