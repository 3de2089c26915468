import GraphSql.CommandLine.Arguments
import GraphSql.Document
import GraphSql.Session
import GraphSql.Settings

namespace GraphSql.CommandLine

def jsonChar (c : Char) : List Char :=
  if c = '"' then ['\\', '"']
  else if c = '\\' then ['\\', '\\']
  else if c = '\n' then ['\\', 'n']
  else if c = '\r' then ['\\', 'r']
  else if c = '\t' then ['\\', 't']
  else if c = '\x08' then ['\\', 'b']
  else if c = '\x0c' then ['\\', 'f']
  else if c.toNat < 0x20 then "\\u00".toList ++ (Text.writeHex 2 c.toNat).map Char.toLower
  else [c]

def jsonString (text : String) : String :=
  String.ofList ('"' :: text.toList.flatMap jsonChar ++ ['"'])

def jsonStrings : List String → String
  | [] => "[]"
  | texts => "[\n" ++ ",\n".intercalate (texts.map ("    " ++ jsonString ·)) ++ "\n  ]"

def pretty (c : Compiled) : String :=
  "\x7b\n  \"sql\": " ++ jsonStrings c.statements ++ ",\n  \"targets\": " ++
    jsonStrings c.targets ++ ",\n  \"dialect\": " ++ jsonString c.dialect.name ++ "\n\x7d"

open Sql

-- Where a command runs. What is wrong with a statement is for the host's parser of SQL to say, and
-- the wording of the manual and of complaints about a command line is the host's too.
structure Host (m : Type → Type) where
  file : String → m FileState
  setting : String → m (Option String)
  fault? : String → Option String
  manual : Topic → Bool → String
  complaint : List String → String

-- What a command leaves behind: an exit code, the text of its output, the lines of its errors, and
-- the log, of which `verbose` says how much is shown.
structure Report where
  code : Nat
  output : String
  errors : List String
  verbose : Bool
  events : List Event

namespace Report

def success (output : String) : Report := ⟨0, output, [], false, []⟩

def failure (error : String) : Report := ⟨1, "", [error], false, []⟩

def refusal (complaint : String) : Report := ⟨2, "", [complaint], false, []⟩

def log (r : Report) : List String :=
  (r.events.filter fun e => r.verbose || e.level == .warn).map (·.line)

end Report

def versionText : String := "mptsql 0.1.0\n"

def configVariable : String := "MPTSQL_CONFIG"

def configFile : String := "mptsql.toml"

def endLines (lines : List String) : String := String.join (lines.map (· ++ "\n"))

-- The lines of a text. A text that ends with a line end has no line after it.
def linesOf (text : List Char) : List (List Char) :=
  match (Text.splitAt '\n' text).reverse with
  | [] :: front => front.reverse
  | lines => lines.reverse

def readLine (line : List Char) : Option (Except NTriples.ParseError Triple) :=
  match Text.trimChars line with
  | [] => none
  | '#' :: _ => none
  | trimmed => some (NTriples.readTriple trimmed)

def canonical (file : String) (text : String) : Report :=
  let found := (linesOf text.toList).zipIdx.filterMap fun (line, index) =>
    (readLine line).map fun result => (index + 1, result)
  let triples := found.filterMap fun (_, result) => result.toOption.map (·.display)
  let errors := found.filterMap fun (number, result) =>
    match result with
    | .ok _ => none
    | .error e => some (file ++ ":" ++ number.repr ++ ": " ++ e.message)
  { code := if errors.isEmpty then 0 else 1
    output := endLines triples
    errors := errors
    verbose := false
    events := [] }

def parseFile (file : String) : FileState → Report
  | .content text => canonical file text
  | .missing reason | .unreadable reason =>
    .failure ("Error reading file '" ++ file ++ "': " ++ reason)

def printed (output : OutputFormat) (c : Compiled) : String :=
  match output with
  | .sql => endLines c.statements
  | .json => pretty c ++ "\n"

def unparsable? (fault? : String → Option String) (check : Bool) (statements : List String) :
    Option String :=
  if check then
    statements.findSome? fun sql =>
      (fault? sql).map ("Generated SQL does not parse: " ++ · ++ "\n" ++ sql)
  else none

def compileDocument (fault? : String → Option String) (options : CompileOptions)
    (dialect : Dialect) (tables : TableMap) (state : FileState) : Report :=
  match Document.ofFile options.file state with
  | .error e => .failure ("Error reading query '" ++ options.file ++ "': " ++ e.message)
  | .ok document =>
    match document.toQuery with
    | .error e => .failure ("Invalid query '" ++ options.file ++ "': " ++ e.message)
    | .ok query =>
      let compiled := Session.compile tables query document.targets document.ordering dialect
      match compiled.outcome with
      | .error e => { Report.failure ("Compilation error: " ++ e.message) with
          events := compiled.events }
      | .ok c =>
        match unparsable? fault? options.check c.statements with
        | some error => { Report.failure error with events := compiled.events }
        | none => { Report.success (printed options.output c) with events := compiled.events }

section
variable {m : Type → Type} [Monad m]

def loadSettings (host : Host m) (config : Option String) : m (Except SettingsError Settings) := do
  match config with
  | some path => return Settings.ofFile path (← host.file path)
  | none =>
    match ← host.setting configVariable with
    | some path => return Settings.ofFile path (← host.file path)
    | none =>
      match ← host.file configFile with
      | .missing _ => return .ok .standard
      | state => return Settings.ofFile configFile state

def readSettings (host : Host m) (names : List String) : m (List (String × Option String)) :=
  names.mapM fun name => do return (name, ← host.setting name)

def prepare (options : CompileOptions) (settings : Settings) (value : String → Option String) :
    Except SettingsError (Dialect × TableMap) := do
  let dialect ← match options.dialect with
    | some dialect => .ok dialect
    | none => settings.dialect
  let tables ← settings.tableMap value
  return (dialect, tables)

def configurationFailure (e : SettingsError) : Report :=
  .failure ("Configuration error: " ++ e.message)

def compileFile (host : Host m) (options : CompileOptions) : m Report := do
  match ← loadSettings host options.config with
  | .error e => return configurationFailure e
  | .ok settings =>
    let values ← readSettings host settings.references
    match prepare options settings fun name => (values.lookup name).join with
    | .error e => return configurationFailure e
    | .ok (dialect, tables) =>
      return compileDocument host.fault? options dialect tables (← host.file options.file)

def run (host : Host m) (args : List String) : m Report := do
  match Request.ofArguments? args with
  | none => return .refusal (host.complaint args)
  | some .version => return .success versionText
  | some (.help topic long) => return .success (host.manual topic long)
  | some (.run verbose (.compile options)) =>
    return { ← compileFile host options with verbose := verbose }
  | some (.run verbose (.parse file)) =>
    return { parseFile file (← host.file file) with verbose := verbose }

end

end GraphSql.CommandLine
