import GraphSql.CommandLine.Run

namespace GraphSql.CommandLine

def programPage : List String :=
  ["mptsql - Compile RDF graph queries to SQL over predicate tables",
    "",
    "Usage: mptsql [OPTIONS] <COMMAND>",
    "",
    "Commands:",
    "  compile  Compile a query document to SQL",
    "  parse    Parse an N-Triples file and print each triple in canonical form",
    "  help     Print this message or the help of the given subcommand(s)",
    "",
    "Options:",
    "  -v, --verbose  Log planner decisions to stderr",
    "  -h, --help     Print help",
    "  -V, --version  Print version"]

def compilePage : List String :=
  ["Compile a query document to SQL",
    "",
    "Usage: mptsql compile [OPTIONS] <FILE>",
    "",
    "Arguments:",
    "  <FILE>  Path to the query document (.toml or .json)",
    "",
    "Options:",
    "  -c, --config <CONFIG>    Path to the predicate mapping (defaults to $MPTSQL_CONFIG or",
    "                           ./mptsql.toml)",
    "  -v, --verbose            Log planner decisions to stderr",
    "  -d, --dialect <DIALECT>  SQL dialect to generate (overrides the config file)",
    "  -o, --output <OUTPUT>    Output format [default: sql] [possible values: sql, json]",
    "      --check              Check that the generated SQL parses",
    "  -h, --help               Print help (see more with '--help')"]

def longCompilePage : List String :=
  ["Compile a query document to SQL",
    "",
    "Usage: mptsql compile [OPTIONS] <FILE>",
    "",
    "Arguments:",
    "  <FILE>",
    "          Path to the query document (.toml or .json)",
    "",
    "Options:",
    "  -c, --config <CONFIG>",
    "          Path to the predicate mapping (defaults to $MPTSQL_CONFIG or ./mptsql.toml)",
    "",
    "  -v, --verbose",
    "          Log planner decisions to stderr",
    "",
    "  -d, --dialect <DIALECT>",
    "          SQL dialect to generate (overrides the config file)",
    "",
    "  -o, --output <OUTPUT>",
    "          Output format",
    "",
    "          [default: sql]",
    "",
    "          Possible values:",
    "          - sql:  Output SQL only",
    "          - json: Output SQL, targets and dialect as JSON",
    "",
    "      --check",
    "          Check that the generated SQL parses",
    "",
    "  -h, --help",
    "          Print help (see a summary with '-h')"]

def parsePage : List String :=
  ["Parse an N-Triples file and print each triple in canonical form",
    "",
    "Usage: mptsql parse [OPTIONS] <FILE>",
    "",
    "Arguments:",
    "  <FILE>  Path to the .nt file",
    "",
    "Options:",
    "  -v, --verbose  Log planner decisions to stderr",
    "  -h, --help     Print help"]

def helpPage : List String :=
  ["Print this message or the help of the given subcommand(s)",
    "",
    "Usage: mptsql help [COMMAND]...",
    "",
    "Arguments:",
    "  [COMMAND]...  Print help for the subcommand(s)"]

def page : Topic → Bool → List String
  | .program, _ => programPage
  | .compile, long => if long then longCompilePage else compilePage
  | .parse, _ => parsePage
  | .help, _ => helpPage

-- The files and environment variables of the process. There is no parser of SQL here that could
-- find fault with a statement.
def processHost : Host IO where
  file path := do
    try
      return .content (← IO.FS.readFile path)
    catch
      | .noFileOrDirectory .. => return .absent
      | .inappropriateType none .. => return .directory
      | .inappropriateType (some _) .. => return .blocked
      | .userError _ => return .unreadable "stream did not contain valid UTF-8"
      | error => return .unreadable (toString error)
  setting name := IO.getEnv name
  fault? _ := none
  manual topic long := endLines (page topic long)
  complaint
    | [] => "\n".intercalate programPage
    | _ => "For more information, try '--help'."

end GraphSql.CommandLine

def main (args : List String) : IO UInt32 := do
  let report ← GraphSql.CommandLine.run GraphSql.CommandLine.processHost args
  IO.print report.output
  for line in report.log do
    IO.eprintln line
  for line in report.errors do
    IO.eprintln line
  return report.code.toUInt32
