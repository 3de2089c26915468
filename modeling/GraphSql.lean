import GraphSql.CommandLine.Arguments
import GraphSql.CommandLine.Run
import GraphSql.Data
import GraphSql.Data.Json
import GraphSql.Data.Toml.Reader
import GraphSql.Data.Toml.Scalar
import GraphSql.Data.Toml.Text
import GraphSql.Document
import GraphSql.Iri
import GraphSql.Main
import GraphSql.NTriples
import GraphSql.Ordered
import GraphSql.Plan
import GraphSql.Plan.Alias
import GraphSql.Plan.Event
import GraphSql.Plan.Pattern
import GraphSql.Plan.State
import GraphSql.Proofs.Aliases
import GraphSql.Proofs.BareJoins
import GraphSql.Proofs.Basic
import GraphSql.Proofs.Canonical
import GraphSql.Proofs.Conservation
import GraphSql.Proofs.Constants
import GraphSql.Proofs.Documents
import GraphSql.Proofs.EqualQueries
import GraphSql.Proofs.Expansion
import GraphSql.Proofs.Extension
import GraphSql.Proofs.Filters
import GraphSql.Proofs.FirstBindings
import GraphSql.Proofs.JoinOrder
import GraphSql.Proofs.Meaning.Assignment
import GraphSql.Proofs.Meaning.Block
import GraphSql.Proofs.Meaning.Branches
import GraphSql.Proofs.Meaning.Completions
import GraphSql.Proofs.Meaning.Joins
import GraphSql.Proofs.Meaning.Rows
import GraphSql.Proofs.Meaning.Solutions
import GraphSql.Proofs.NTriples.Codec
import GraphSql.Proofs.NTriples.Codewords
import GraphSql.Proofs.NTriples.Lines
import GraphSql.Proofs.NTriples.Literals
import GraphSql.Proofs.NTriples.Offsets
import GraphSql.Proofs.Operands
import GraphSql.Proofs.Planning.Alike
import GraphSql.Proofs.Planning.Conditions
import GraphSql.Proofs.Planning.Count
import GraphSql.Proofs.Planning.Elements
import GraphSql.Proofs.Planning.Folding
import GraphSql.Proofs.Planning.Frame
import GraphSql.Proofs.Planning.Leaves
import GraphSql.Proofs.Planning.Lockstep
import GraphSql.Proofs.Planning.Optional
import GraphSql.Proofs.Planning.Outcome
import GraphSql.Proofs.Planning.Pattern
import GraphSql.Proofs.Planning.Placement
import GraphSql.Proofs.Planning.Reach
import GraphSql.Proofs.Planning.Required
import GraphSql.Proofs.Planning.Residual
import GraphSql.Proofs.Planning.Run
import GraphSql.Proofs.Planning.Spare
import GraphSql.Proofs.Planning.Statement
import GraphSql.Proofs.Planning.Step
import GraphSql.Proofs.Planning.Telling
import GraphSql.Proofs.Planning.Variants
import GraphSql.Proofs.Planning.Waiting
import GraphSql.Proofs.Provenance
import GraphSql.Proofs.Redundancy
import GraphSql.Proofs.Renaming
import GraphSql.Proofs.Renaming.Runs
import GraphSql.Proofs.Renaming.Steps
import GraphSql.Proofs.Renaming.Terms
import GraphSql.Proofs.Scope
import GraphSql.Proofs.Sessions
import GraphSql.Proofs.Sql.Literals
import GraphSql.Proofs.Sql.Rendering
import GraphSql.Proofs.WhereClause
import GraphSql.Query
import GraphSql.Session
import GraphSql.Settings
import GraphSql.Sql.Condition
import GraphSql.Sql.Select
import GraphSql.Term
import GraphSql.Text.Basic
import GraphSql.Text.Characters
import GraphSql.TriplePattern
