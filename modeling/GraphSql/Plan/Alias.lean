import GraphSql.Ordered
import GraphSql.Plan.Event
import GraphSql.Sql.Select
import GraphSql.Term

namespace GraphSql

abbrev TableMap := List (Iri × String)

namespace TableMap

def table? (tables : TableMap) (predicate : Iri) : Option String := tables.lookup predicate

def insert (tables : TableMap) (predicate : Iri) (table : String) : TableMap :=
  putEntry predicate table tables

def ofEntries (entries : List (Iri × String)) : TableMap := collectEntries entries

def predicates (tables : TableMap) : List Iri := tables.map (·.1)

end TableMap

-- The first use of a predicate takes its table's name as alias, later ones add `_1`, `_2` and so
-- on. The k-th predicate without a table has the aliases `np_k`, `np_k_1` and so on. Aliases of
-- different predicates can meet, and nothing here prevents that.

def emptyRelation : String := "(SELECT p AS s, p AS o FROM tMap WHERE 1=0)"

-- The aliases issued so far: one predicate of `issued` for each, in order.
structure Aliases where
  tables : TableMap
  issued : List Iri
  unions : Nat
deriving DecidableEq

namespace Aliases

def fresh (tables : TableMap) : Aliases := ⟨tables, [], 0⟩

def unmapped (a : Aliases) : List Iri :=
  distinct (a.issued.filter fun p => (a.tables.table? p).isNone)

def numbered (base : String) (uses : Nat) : String :=
  if uses = 0 then base else base ++ "_" ++ uses.repr

def relation (a : Aliases) (predicate : Iri) : Sql.Relation :=
  match a.tables.table? predicate with
  | some table => ⟨table, numbered table (a.issued.count predicate)⟩
  | none =>
    ⟨emptyRelation,
      numbered ("np_" ++ (a.unmapped.idxOf predicate).repr) (a.issued.count predicate)⟩

def event (a : Aliases) (predicate : Iri) : Event :=
  match a.tables.table? predicate with
  | some table => .predicateMapped predicate table (a.relation predicate).aliasName
  | none =>
    if predicate ∈ a.issued then .unmappedAgain predicate (a.relation predicate).aliasName
    else .unmapped predicate (a.relation predicate).aliasName

def issue (a : Aliases) (predicate : PredicatePattern) :
    Logged UsageError (Sql.Relation × Aliases) := do
  match predicate with
  | .variable v => .fail (.variablePredicate v)
  | .iri p =>
    .report (a.event p)
    return (a.relation p, { a with issued := a.issued ++ [p] })

def selectAll (table : String) : List Sql.Token :=
  [.keyword .SELECT, .space, .star, .space, .keyword .FROM, .space, .name table]

def unionOfTables (a : Aliases) : String :=
  match a.tables.predicates.filterMap a.tables.table? with
  | [] => emptyRelation
  | tables =>
    Sql.Token.renderAll default
      (.openParen ::
        Sql.joinTokens [.space, .keyword .UNION_ALL, .space] (tables.map selectAll) ++
        [.closeParen])

def issueUnion (a : Aliases) : Sql.Relation × Aliases :=
  (⟨a.unionOfTables, "ap_" ++ (a.unions + 1).repr⟩, { a with unions := a.unions + 1 })

end Aliases

end GraphSql
