import GraphSql.Ordered
import GraphSql.Sql.Condition
import GraphSql.TriplePattern

namespace GraphSql.Sql

-- A join tree is a sequence of members joined from left to right. A member is a table or a nested
-- sequence; a nested sequence of one member is the same as that member.

abbrev Bindings := List (String × Column)

def Bindings.ofEntries (entries : List (String × Column)) : Bindings := collectEntries entries

structure Relation where
  name : String
  aliasName : String
deriving DecidableEq

def Relation.column (r : Relation) (side : Side) : Column := ⟨r.aliasName, side⟩

def Relation.declaration (r : Relation) : List Token :=
  if r.name = r.aliasName then [.name r.name]
  else [.name r.name, .space, .keyword .AS, .space, .name r.aliasName]

inductive JoinKind where
  | inner
  | left
deriving DecidableEq

def JoinKind.keyword : JoinKind → Keyword
  | .inner => .JOIN
  | .left => .LEFT_OUTER_JOIN

inductive JoinTree where
  | table (relation : Relation) (pattern : TriplePattern)
  -- A sequence whose first member is the sequence `first`.
  | group (first : JoinTree)
  | join (init : JoinTree) (kind : JoinKind) (last : JoinTree) (on : List Condition)
deriving DecidableEq

def onTokens (conditions : List Condition) : List Token :=
  if conditions.isEmpty then []
  else [.space, .keyword .ON, .space, .openParen] ++ Condition.conjunction conditions ++
    [.closeParen]

namespace JoinTree

def isLong : JoinTree → Bool
  | .join .. => true
  | _ => false

def parenthesized (long : Bool) (tokens : List Token) : List Token :=
  if long then .openParen :: tokens ++ [.closeParen] else tokens

def tokens : JoinTree → List Token
  | .table relation _ => relation.declaration
  | .group first => parenthesized first.isLong first.tokens
  | .join init kind last on =>
    init.tokens ++ [.space, .keyword kind.keyword, .space] ++
      parenthesized last.isLong last.tokens ++ onTokens on

def declaration (t : JoinTree) : List Token := parenthesized t.isLong t.tokens

def start (member : JoinTree) : JoinTree := if member.isLong then .group member else member

def add (t : JoinTree) (kind : JoinKind) (member : JoinTree) (on : List Condition) : JoinTree :=
  .join t kind member (distinct on)

def leaves : JoinTree → List (Relation × TriplePattern)
  | .table relation pattern => [(relation, pattern)]
  | .group first => first.leaves
  | .join init _ last _ => init.leaves ++ last.leaves

def aliases (t : JoinTree) : List String := t.leaves.map (·.1.aliasName)

def leafVariables (leaf : Relation × TriplePattern) : Bindings :=
  (leaf.2.subject.asVariable.map fun v => (v.name, leaf.1.column .subject)).toList ++
    (leaf.2.object.asVariable.map fun v => (v.name, leaf.1.column .object)).toList

def heldVariables (t : JoinTree) : Bindings := distinct (t.leaves.flatMap leafVariables)

-- The equalities that link a new member to the tree. A variable is linked only through the column
-- that `bindings` has for it, not through each of its columns.
def links (t member : JoinTree) (bindings : Bindings) : List Condition :=
  distinct <|
    (t.heldVariables.filter fun held => bindings.lookup held.1 == some held.2).flatMap fun held =>
      (member.heldVariables.filter (·.1 == held.1)).map fun own =>
        .equal (.column held.2) (.column own.2)

end JoinTree

inductive SortOrder where
  | ascending
  | descending
deriving DecidableEq

namespace SortOrder

def ofDescending (descending : Bool) : SortOrder := if descending then .descending else .ascending

def keyword : SortOrder → Keyword
  | .ascending => .ASC
  | .descending => .DESC

end SortOrder

structure Select where
  columns : List Column
  source : JoinTree
  conditions : List Condition
  order : Option (Column × SortOrder)
deriving DecidableEq

namespace Select

def orderTokens : Option (Column × SortOrder) → List Token
  | none => []
  | some (column, order) =>
    [.space, .keyword .ORDER_BY, .space, column.token, .space, .keyword order.keyword]

def whereTokens (conditions : List Condition) : List Token :=
  if conditions.isEmpty then []
  else [.space, .keyword .WHERE, .space] ++ Condition.conjunction conditions

def tokens (s : Select) : List Token :=
  [.keyword .SELECT, .space] ++ joinTokens [.comma, .space] (s.columns.map ([·.token])) ++
    [.space, .keyword .FROM, .space] ++ s.source.tokens ++ whereTokens s.conditions ++
    orderTokens s.order

def render (d : Dialect) (s : Select) : String := Token.renderAll d s.tokens

end Select

end GraphSql.Sql
