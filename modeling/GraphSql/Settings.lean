import GraphSql.Data
import GraphSql.Data.Toml.Reader
import GraphSql.Plan.Alias
import GraphSql.Sql.Condition
import GraphSql.Text.Characters

namespace GraphSql

-- An environment has one text for each variable: name, equals sign, value. A name is looked up by
-- what such a text starts with, so that one with an equals sign in it leads into a value.

abbrev Environment := List (String × String)

namespace Environment

def behind? (front cs : List Char) : Option (List Char) :=
  if front.isPrefixOf cs then some (cs.drop front.length) else none

def value? (env : Environment) (name : String) : Option String :=
  if name = "" then none
  else
    env.findSome? fun (key, value) =>
      (behind? (name.toList ++ ['=']) (key.toList ++ '=' :: value.toList)).map String.ofList

end Environment

end GraphSql

namespace GraphSql.Expansion

-- Values take the places of `$NAME` and `${NAME}` as they are; what a value holds is not looked at.

inductive Piece where
  | literal (c : Char)
  | reference (name : String)
deriving DecidableEq

-- A name in braces ends at the closing brace, or with the text. A name without braces is as long as
-- it can be; a dollar sign without a name stands for itself.
def pieces : List Char → List Piece
  | [] => []
  | c :: rest =>
    if c = '$' then
      if rest.head? = some '\x7b' then
        .reference (String.ofList (rest.tail.takeWhile (· != '\x7d'))) ::
          pieces ((rest.tail.dropWhile (· != '\x7d')).drop 1)
      else if (rest.takeWhile Text.isNameChar).isEmpty then .literal c :: pieces rest
      else
        .reference (String.ofList (rest.takeWhile Text.isNameChar)) ::
          pieces (rest.dropWhile Text.isNameChar)
    else .literal c :: pieces rest
termination_by cs => cs.length
decreasing_by
  · have shorter := (List.dropWhile_suffix (p := (· != '\x7d')) (l := rest.tail)).length_le
    simp only [List.length_drop, List.length_cons, List.length_tail] at shorter ⊢
    omega
  · simp
  · have shorter := (List.dropWhile_suffix (p := Text.isNameChar) (l := rest)).length_le
    simp only [List.length_cons]
    omega
  · simp

def references (text : String) : List String :=
  (pieces text.toList).filterMap fun
    | .reference name => some name
    | .literal _ => none

def substitute (value : String → Option String) : List Piece → Except String (List Char)
  | [] => .ok []
  | .literal c :: rest => (substitute value rest).map (c :: ·)
  | .reference name :: rest =>
    match value name with
    | none => .error name
    | some text => (substitute value rest).map (text.toList ++ ·)

def expand (value : String → Option String) (text : String) : Except String String :=
  (substitute value (pieces text.toList)).map String.ofList

end GraphSql.Expansion

namespace GraphSql
open Sql

structure Settings where
  dialectName : String
  predicates : List (String × String)
deriving DecidableEq

inductive SettingsError where
  | missing (path : String)
  | unreadable (reason : String)
  | malformed
  | missingVariable (name : String)
  | unsupportedDialect (name : String)
  | invalidPredicate (key : String) (error : TermError)
deriving DecidableEq

def SettingsError.message : SettingsError → String
  | .missing path => "Config file not found: " ++ path
  | .unreadable reason => "Failed to read config file: " ++ reason
  | .malformed => "Failed to parse config file: malformed document"
  | .missingVariable name => "Missing environment variable: " ++ name
  | .unsupportedDialect name => "Unsupported dialect: " ++ name
  | .invalidPredicate key error => "Invalid predicate " ++ key ++ ": " ++ error.message

namespace Settings

def standard : Settings := ⟨(default : Dialect).name, []⟩

def predicates? (data : Data) : Option (List (String × String)) := do
  let entries ← data.entries?
  entries.mapM fun (key, table) => table.text?.map (key, ·)

def ofData? (data : Data) : Option Settings := do
  match ← data.record? true ["dialect", "predicates"] with
  | [dialect, predicates] =>
    let dialect ← Data.field? standard.dialectName Data.text? dialect
    let predicates ← Data.field? [] predicates? predicates
    return ⟨dialect, predicates⟩
  | _ => none

def ofText (text : String) : Except SettingsError Settings :=
  match (Data.Toml.read? text).bind ofData? with
  | some settings => .ok settings
  | none => .error .malformed

def ofFile (path : String) : FileState → Except SettingsError Settings
  | .missing _ => .error (.missing path)
  | .unreadable reason => .error (.unreadable reason)
  | .content text => ofText text

def dialect (s : Settings) : Except SettingsError Dialect :=
  (Dialect.ofName s.dialectName).mapError fun _ => .unsupportedDialect s.dialectName

def bareKey (key : String) : String :=
  match key.toList with
  | '<' :: rest => if rest.getLast? = some '>' then String.ofList rest.dropLast else key
  | _ => key

def references (s : Settings) : List String :=
  s.predicates.flatMap fun entry => Expansion.references entry.2

def readEntry (value : String → Option String) (entry : String × String) :
    Except SettingsError (Iri × String) := do
  let predicate ← (Iri.ofText (bareKey entry.1)).mapError (.invalidPredicate entry.1)
  let table ← (Expansion.expand value entry.2).mapError .missingVariable
  return (predicate, table)

def tableMap (s : Settings) (value : String → Option String) : Except SettingsError TableMap := do
  let entries ← s.predicates.mapM (readEntry value)
  return .ofEntries entries

end Settings

end GraphSql
