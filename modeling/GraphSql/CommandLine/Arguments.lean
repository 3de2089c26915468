import GraphSql.Sql.Condition

namespace GraphSql.CommandLine
open Sql

-- An option's value follows it, behind an equals sign or as the next argument; a short option's
-- value may also follow it directly, and short flags may share a dash. No option is given twice to
-- one command. After `--` everything is a file.

inductive OutputFormat where
  | sql
  | json
deriving DecidableEq

structure CompileOptions where
  file : String
  config : Option String
  dialect : Option Dialect
  output : OutputFormat
  check : Bool
deriving DecidableEq

inductive Command where
  | compile (options : CompileOptions)
  | parse (file : String)
deriving DecidableEq

inductive Topic where
  | program
  | compile
  | parse
  | help
deriving DecidableEq

inductive Request where
  | version
  | help (topic : Topic) (long : Bool)
  | run (verbose : Bool) (command : Command)
deriving DecidableEq

inductive Switch where
  | verbose
  | config
  | dialect
  | output
  | check
deriving DecidableEq

namespace Switch

def takesValue : Switch → Bool
  | .config | .dialect | .output => true
  | .verbose | .check => false

def ofLong? : String → Option Switch
  | "verbose" => some .verbose
  | "config" => some .config
  | "dialect" => some .dialect
  | "output" => some .output
  | "check" => some .check
  | _ => none

def ofShort? : Char → Option Switch
  | 'v' => some .verbose
  | 'c' => some .config
  | 'd' => some .dialect
  | 'o' => some .output
  | _ => none

end Switch

inductive Argument where
  | separator
  | long (name : String) (value : Option String)
  | short (letters : List Char)
  | positional (text : String)
deriving DecidableEq

def Argument.ofText (text : String) : Argument :=
  match text.toList with
  | ['-', '-'] => .separator
  | '-' :: '-' :: rest =>
    let name := String.ofList (rest.takeWhile (· != '='))
    match rest.dropWhile (· != '=') with
    | [] => .long name none
    | _ :: value => .long name (some (String.ofList value))
  | '-' :: c :: rest => .short (c :: rest)
  | _ => .positional text

def path? (text : String) : Option String := if text = "" then none else some text

def format? : String → Option OutputFormat
  | "sql" => some .sql
  | "json" => some .json
  | _ => none

structure Given where
  verbose : Bool
  config : Option String
  dialect : Option Dialect
  output : Option OutputFormat
  check : Bool
  file : Option String
deriving DecidableEq

def fill? {α : Type} (held found : Option α) : Option (Option α) :=
  if held.isSome || found.isNone then none else some found

namespace Given

def start : Given := ⟨false, none, none, none, false, none⟩

def set? (g : Given) (value : String) : Switch → Option Given
  | .verbose => if g.verbose then none else some { g with verbose := true }
  | .check => if g.check then none else some { g with check := true }
  | .config => (fill? g.config (path? value)).map ({ g with config := · })
  | .dialect => (fill? g.dialect (Dialect.ofName value).toOption).map ({ g with dialect := · })
  | .output => (fill? g.output (format? value)).map ({ g with output := · })

def addFile? (g : Given) (text : String) : Option Given :=
  (fill? g.file (path? text)).map ({ g with file := · })

end Given

inductive Cluster where
  | flags (g : Given)
  | awaiting (g : Given) (switch : Switch) (value : List Char)
  | help

def readLetters (allowed : List Switch) (g : Given) : List Char → Option Cluster
  | [] => some (.flags g)
  | 'h' :: _ => some .help
  | c :: rest => do
    let switch ← Switch.ofShort? c
    if switch ∉ allowed then none
    else if switch.takesValue then some (.awaiting g switch rest)
    else readLetters allowed (← g.set? "" switch) rest

def attached? : List Char → Option String
  | [] => none
  | '=' :: value => some (String.ofList value)
  | value => some (String.ofList value)

def asValue? (text : String) : Option String :=
  match Argument.ofText text with
  | .positional value => some value
  | _ => none

-- What the arguments of a command come to. A page of the manual is asked for if nothing before is
-- wrong; nobody looks at what comes after.
inductive Reading where
  | given (g : Given)
  | help (long : Bool)

def readGiven (allowed : List Switch) (awaiting : Option Switch) (g : Given) :
    List String → Option Reading
  | [] => if awaiting.isSome then none else some (.given g)
  | text :: rest =>
    match awaiting with
    | some switch => do readGiven allowed none (← g.set? (← asValue? text) switch) rest
    | none =>
      match Argument.ofText text with
      | .separator => (rest.foldlM Given.addFile? g).map .given
      | .positional file => do readGiven allowed none (← g.addFile? file) rest
      | .long "help" none => some (.help true)
      | .long name value => do
        let switch ← Switch.ofLong? name
        if switch ∉ allowed then none
        else
          match switch.takesValue, value with
          | true, some value => readGiven allowed none (← g.set? value switch) rest
          | true, none => readGiven allowed (some switch) g rest
          | false, none => readGiven allowed none (← g.set? "" switch) rest
          | false, some _ => none
      | .short letters => do
        match ← readLetters allowed g letters with
        | .help => some (.help false)
        | .flags g => readGiven allowed none g rest
        | .awaiting g switch tail =>
          match attached? tail with
          | some value => readGiven allowed none (← g.set? value switch) rest
          | none => readGiven allowed (some switch) g rest

def Given.compile? (g : Given) : Option Command :=
  g.file.map fun file => .compile ⟨file, g.config, g.dialect, g.output.getD .sql, g.check⟩

def Given.parse? (g : Given) : Option Command := g.file.map .parse

def Reading.request? (topic : Topic) (verbose : Bool) (make? : Given → Option Command) :
    Reading → Option Request
  | .help long => some (.help topic long)
  | .given g => (make? g).map (.run (verbose || g.verbose))

def topic? : List String → Option Topic
  | [] => some .program
  | ["compile"] => some .compile
  | ["parse"] => some .parse
  | ["help"] => some .help
  | _ => none

def command? (verbose : Bool) (name : String) (args : List String) : Option Request :=
  match name with
  | "compile" => do
    let reading ← readGiven [.verbose, .config, .dialect, .output, .check] none .start args
    reading.request? .compile verbose Given.compile?
  | "parse" => do
    let reading ← readGiven [.verbose] none .start args
    reading.request? .parse verbose Given.parse?
  | "help" => (topic? args).map (.help · true)
  | _ => none

def readFlags (verbose : Bool) : List Char → Option (Except Request Bool)
  | [] => some (.ok verbose)
  | 'V' :: _ => some (.error .version)
  | 'h' :: _ => some (.error (.help .program false))
  | 'v' :: rest => if verbose then none else readFlags true rest
  | _ => none

def readFrom (verbose : Bool) : List String → Option Request
  | [] => none
  | text :: rest =>
    match Argument.ofText text with
    | .separator => none
    | .long "version" none => some .version
    | .long "help" none => some (.help .program true)
    | .long "verbose" none => if verbose then none else readFrom true rest
    | .long _ _ => none
    | .short letters =>
      match readFlags verbose letters with
      | none => none
      | some (.error request) => some request
      | some (.ok verbose) => readFrom verbose rest
    | .positional name => command? verbose name rest

def Request.ofArguments? (args : List String) : Option Request := readFrom false args

end GraphSql.CommandLine
