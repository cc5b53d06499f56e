import TagQuery.Analysis
import TagQuery.Analysis.Json
import TagQuery.Command
import TagQuery.Command.Arguments
import TagQuery.Compare
import TagQuery.Compile
import TagQuery.Config
import TagQuery.Config.Json
import TagQuery.Digest
import TagQuery.Engine
import TagQuery.Expr
import TagQuery.Expr.Json
import TagQuery.Expr.Printer
import TagQuery.Fault
import TagQuery.Hierarchy
import TagQuery.Item
import TagQuery.Item.Json
import TagQuery.Item.Predicate
import TagQuery.Json
import TagQuery.Json.Printer
import TagQuery.Json.Reader
import TagQuery.Json.Record
import TagQuery.Json.Token
import TagQuery.Main
import TagQuery.Number.Decimal
import TagQuery.Number.Integer
import TagQuery.Number.Layout
import TagQuery.Number.Real64
import TagQuery.Number.Shortest
import TagQuery.Optimizer
import TagQuery.Optimizer.Pass
import TagQuery.Optimizer.Transform
import TagQuery.Proofs.Compile.Cycles
import TagQuery.Proofs.Compile.Expansion
import TagQuery.Proofs.Compile.Frame
import TagQuery.Proofs.Compile.Notes
import TagQuery.Proofs.Compile.References
import TagQuery.Proofs.Compile.Results
import TagQuery.Proofs.Compile.Walk
import TagQuery.Proofs.Engine.Analysis
import TagQuery.Proofs.Engine.Canonical
import TagQuery.Proofs.Engine.Definitions
import TagQuery.Proofs.Engine.Hierarchy
import TagQuery.Proofs.Engine.MissingSets
import TagQuery.Proofs.Engine.Reanalysis
import TagQuery.Proofs.Engine.Renames
import TagQuery.Proofs.Engine.RuleOrder
import TagQuery.Proofs.Engine.Rules
import TagQuery.Proofs.Engine.Specialization
import TagQuery.Proofs.Engine.TwoWay
import TagQuery.Proofs.Expr.Draws
import TagQuery.Proofs.Expr.Stars
import TagQuery.Proofs.Expr.Tree
import TagQuery.Proofs.Number.Bounded
import TagQuery.Proofs.Number.Monotone
import TagQuery.Proofs.Number.Real64
import TagQuery.Proofs.Number.Shortest
import TagQuery.Proofs.Number.Whole
import TagQuery.Proofs.Number.Written
import TagQuery.Proofs.Optimizer.Draws
import TagQuery.Proofs.Optimizer.NormalForm
import TagQuery.Proofs.Optimizer.Pass
import TagQuery.Proofs.Optimizer.Soundness
import TagQuery.Proofs.Optimizer.Traversal
import TagQuery.Proofs.Optimizer.Weight
import TagQuery.Proofs.Rule.Lines
import TagQuery.Proofs.Rule.Text
import TagQuery.Proofs.Search.Blank
import TagQuery.Proofs.Search.Evaluable
import TagQuery.Proofs.Search.Expansion
import TagQuery.Proofs.Search.Frame
import TagQuery.Proofs.Search.Grid
import TagQuery.Proofs.Search.Hidden
import TagQuery.Proofs.Search.Inequality
import TagQuery.Proofs.Search.Kinship
import TagQuery.Proofs.Search.Leaves
import TagQuery.Proofs.Search.Mentions
import TagQuery.Proofs.Search.Missing
import TagQuery.Proofs.Search.Properties
import TagQuery.Proofs.Search.Renaming
import TagQuery.Proofs.Search.Sizes
import TagQuery.Proofs.Search.Values
import TagQuery.Proofs.Search.Wanted
import TagQuery.Proofs.Search.Wildcards
import TagQuery.Proofs.Sql.Agreement
import TagQuery.Proofs.Sql.Clauses
import TagQuery.Proofs.Sql.Condition
import TagQuery.Proofs.Sql.Embedding
import TagQuery.Proofs.Sql.Evaluation
import TagQuery.Proofs.Sql.Joins
import TagQuery.Proofs.Sql.Leaves
import TagQuery.Proofs.Sql.Lexer
import TagQuery.Proofs.Sql.Library
import TagQuery.Proofs.Sql.Literal
import TagQuery.Proofs.Sql.Outline
import TagQuery.Proofs.Sql.Parser
import TagQuery.Proofs.Sql.Pattern
import TagQuery.Proofs.Sql.Reading
import TagQuery.Proofs.Sql.Semantics
import TagQuery.Proofs.Sql.Statement
import TagQuery.Proofs.Stars.Buckets
import TagQuery.Proofs.Stars.Deciles
import TagQuery.Proofs.Table
import TagQuery.Proofs.Term.NormalForm
import TagQuery.Proofs.Term.Reader
import TagQuery.Proofs.Term.Reading
import TagQuery.Proofs.Text.Ascii
import TagQuery.Proofs.Text.Cut
import TagQuery.Regex
import TagQuery.Regex.Search
import TagQuery.Renames
import TagQuery.Rule
import TagQuery.Rule.Json
import TagQuery.Rule.Text
import TagQuery.Search.Field
import TagQuery.Search.Glob
import TagQuery.Search.Grid
import TagQuery.Search.Json
import TagQuery.Search.Leaf
import TagQuery.Search.Property
import TagQuery.Search.Query
import TagQuery.Search.Relation
import TagQuery.Search.Span
import TagQuery.Search.Values
import TagQuery.Sql.Condition
import TagQuery.Sql.Piece
import TagQuery.Sql.Script
import TagQuery.Stars
import TagQuery.Stars.Json
import TagQuery.Table
import TagQuery.TagName
import TagQuery.TagSet
import TagQuery.Term
import TagQuery.Term.Json
import TagQuery.Term.Printer
import TagQuery.Text.Alphanumeric
import TagQuery.Text.Blank
import TagQuery.Text.CaseFold
import TagQuery.Text.CharClass
import TagQuery.Text.Cut
import TagQuery.Text.LetterCase
import TagQuery.Text.Quoted
import TagQuery.Workspace
import TagQuery.Workspace.Document
import TagQuery.Workspace.Fault
import TagQuery.Workspace.Query
import TagQuery.Yaml.Node
import TagQuery.Yaml.Place
import TagQuery.Yaml.Scalar
import TagQuery.Yaml.Tag
import TagQuery.Yaml.Token
import TagQuery.Yaml.Tree
import TagQuery.Yaml.Value
