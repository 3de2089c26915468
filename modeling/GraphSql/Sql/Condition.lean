import GraphSql.Text.Basic

namespace GraphSql.Sql

-- SQL dialects. They differ only in how a string literal is quoted: some treat a backslash inside
-- it as an escape, others do not.

inductive Dialect where
  | derby
  | h2
  | postgres
  | mysql
  | oracle
  | sql92 (backslash : Bool)
deriving DecidableEq

instance : Inhabited Dialect := ⟨.postgres⟩

structure UnknownDialect where
  name : String
deriving DecidableEq

def UnknownDialect.message (e : UnknownDialect) : String :=
  "Unknown dialect '" ++ e.name ++
    "' (expected derby, h2, postgres, mysql, oracle or sql92)"

namespace Dialect

def name : Dialect → String
  | .derby => "derby"
  | .h2 => "h2"
  | .postgres => "postgres"
  | .mysql => "mysql"
  | .oracle => "oracle"
  | .sql92 false => "sql92"
  | .sql92 true => "sql92-backslash"

def escapesBackslash : Dialect → Bool
  | .postgres | .mysql => true
  | .derby | .h2 | .oracle => false
  | .sql92 backslash => backslash

def ofName (text : String) : Except UnknownDialect Dialect :=
  match Text.foldCase text with
  | "derby" => .ok .derby
  | "h2" => .ok .h2
  | "postgres" | "postgresql" => .ok .postgres
  | "mysql" => .ok .mysql
  | "oracle" => .ok .oracle
  | "sql92" => .ok (.sql92 false)
  | "sql92-backslash" => .ok (.sql92 true)
  | _ => .error ⟨text⟩

end Dialect

def quoteInner (backslash : Bool) : List Char → List Char
  | [] => []
  | c :: rest =>
    if c = '\'' ∨ (c = '\\' ∧ backslash = true) then c :: c :: quoteInner backslash rest
    else c :: quoteInner backslash rest

def quote (backslash : Bool) (text : String) : String :=
  String.ofList ('\'' :: quoteInner backslash text.toList ++ ['\''])

inductive Keyword where
  | SELECT
  | FROM
  | WHERE
  | AND
  | AS
  | ON
  | JOIN
  | LEFT_OUTER_JOIN
  | ORDER_BY
  | ASC
  | DESC
  | UNION_ALL
deriving DecidableEq

def Keyword.text : Keyword → String
  | .SELECT => "SELECT"
  | .FROM => "FROM"
  | .WHERE => "WHERE"
  | .AND => "AND"
  | .AS => "AS"
  | .ON => "ON"
  | .JOIN => "JOIN"
  | .LEFT_OUTER_JOIN => "LEFT OUTER JOIN"
  | .ORDER_BY => "ORDER BY"
  | .ASC => "ASC"
  | .DESC => "DESC"
  | .UNION_ALL => "UNION ALL"

inductive Token where
  | keyword (word : Keyword)
  | comma
  | star
  | openParen
  | closeParen
  | equals
  | operator (text : String)
  | space
  | name (text : String)
  | column (table side : String)
  | literal (text : String)
deriving DecidableEq

namespace Token

def render (d : Dialect) : Token → String
  | .keyword word => word.text
  | .comma => ","
  | .star => "*"
  | .openParen => "("
  | .closeParen => ")"
  | .equals => "="
  | .operator text => Text.trim text
  | .space => " "
  | .name text => text
  | .column table side => table ++ "." ++ side
  | .literal text => quote d.escapesBackslash text

def renderAll (d : Dialect) (tokens : List Token) : String := String.join (tokens.map (render d))

end Token

def joinTokens (between : List Token) (parts : List (List Token)) : List Token :=
  between.intercalate parts

inductive Side where
  | subject
  | object
deriving DecidableEq

def Side.name : Side → String
  | .subject => "s"
  | .object => "o"

structure Column where
  table : String
  side : Side
deriving DecidableEq

namespace Column

def token (c : Column) : Token := .column c.table c.side.name

def display (c : Column) : String := c.table ++ "." ++ c.side.name

end Column

inductive Operand where
  | column (c : Column)
  | value (text : String)
deriving DecidableEq

def Operand.token : Operand → Token
  | .column c => c.token
  | .value text => .literal text

structure Condition where
  left : Operand
  operator : String
  right : Operand
deriving DecidableEq

namespace Condition

def compare (left : Operand) (operator : String) (right : Operand) : Condition :=
  ⟨left, Text.trim operator, right⟩

def equal (left right : Operand) : Condition := ⟨left, "=", right⟩

def tokens (c : Condition) : List Token :=
  [c.left.token, .space, if c.operator = "=" then .equals else .operator c.operator, .space,
    c.right.token]

def display (c : Condition) : String := Token.renderAll default c.tokens

def conjunction (conditions : List Condition) : List Token :=
  joinTokens [.space, .keyword .AND, .space] (conditions.map tokens)

end Condition

end GraphSql.Sql
