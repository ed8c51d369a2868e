import SchemaMigration.Calendar.Instant
import SchemaMigration.Calendar.Rfc3339
import SchemaMigration.Connection.Options
import SchemaMigration.Connection.Registry
import SchemaMigration.Connection.Rehearsal
import SchemaMigration.Digest.Sha256
import SchemaMigration.Execution.Executor
import SchemaMigration.Execution.Ledger
import SchemaMigration.Execution.Manager
import SchemaMigration.Execution.Rehearsal
import SchemaMigration.Execution.Report
import SchemaMigration.Execution.Value
import SchemaMigration.Files.Path
import SchemaMigration.Files.Tree
import SchemaMigration.Layout.Naming
import SchemaMigration.Layout.Table
import SchemaMigration.Logging
import SchemaMigration.Migration.Error
import SchemaMigration.Migration.Folder
import SchemaMigration.Migration.Generation
import SchemaMigration.Migration.Migration
import SchemaMigration.Migration.Name
import SchemaMigration.Migration.Stamp
import SchemaMigration.Number.Binary64
import SchemaMigration.Number.Integer
import SchemaMigration.Plan.Change
import SchemaMigration.Plan.Difference
import SchemaMigration.Proofs.Execution.Atomicity
import SchemaMigration.Proofs.Execution.Mismatch
import SchemaMigration.Proofs.Execution.Protocol
import SchemaMigration.Proofs.Execution.Recording
import SchemaMigration.Proofs.Execution.Session
import SchemaMigration.Proofs.Execution.Store
import SchemaMigration.Proofs.Fallible
import SchemaMigration.Proofs.Layout.Table
import SchemaMigration.Proofs.Migration.Order
import SchemaMigration.Proofs.Plan.Catalogue
import SchemaMigration.Proofs.Plan.Composition
import SchemaMigration.Proofs.Plan.Correctness
import SchemaMigration.Proofs.Plan.KeptColumn
import SchemaMigration.Proofs.Plan.Rearrangement
import SchemaMigration.Proofs.Plan.Replay
import SchemaMigration.Proofs.Plan.Sameness
import SchemaMigration.Proofs.Plan.Script
import SchemaMigration.Proofs.Plan.Settled
import SchemaMigration.Proofs.Plan.Target
import SchemaMigration.Proofs.Schema.ArgumentText.Agreement
import SchemaMigration.Proofs.Schema.ArgumentText.Balance
import SchemaMigration.Proofs.Schema.ArgumentText.Constituent
import SchemaMigration.Proofs.Schema.ArgumentText.Interpretation
import SchemaMigration.Proofs.Schema.ArgumentText.Labelled
import SchemaMigration.Proofs.Schema.ArgumentText.Literal
import SchemaMigration.Proofs.Schema.ArgumentText.Trimming
import SchemaMigration.Proofs.Schema.Bare
import SchemaMigration.Proofs.Schema.Grammar.Judgement
import SchemaMigration.Proofs.Schema.Grammar.Lexeme
import SchemaMigration.Proofs.Schema.Grammar.Outline
import SchemaMigration.Proofs.Schema.Grammar.Setting
import SchemaMigration.Proofs.Schema.Reading
import SchemaMigration.Proofs.Schema.Validity
import SchemaMigration.Proofs.Schema.Writing
import SchemaMigration.Proofs.Sql.Emission
import SchemaMigration.Proofs.Sql.Scan
import SchemaMigration.Proofs.Sql.Statements
import SchemaMigration.Schema.ArgumentText.Interpretation
import SchemaMigration.Schema.ArgumentText.Labelled
import SchemaMigration.Schema.ArgumentText.Piece
import SchemaMigration.Schema.Document
import SchemaMigration.Schema.Error
import SchemaMigration.Schema.Grammar.Lexeme
import SchemaMigration.Schema.Grammar.Outline
import SchemaMigration.Schema.Grammar.Parser
import SchemaMigration.Schema.Grammar.Symbol
import SchemaMigration.Schema.Reading
import SchemaMigration.Schema.Validation
import SchemaMigration.Settings.Decoding
import SchemaMigration.Settings.Expansion
import SchemaMigration.Settings.Settings
import SchemaMigration.Sql.CreatedTables
import SchemaMigration.Sql.Definition
import SchemaMigration.Sql.Quoting
import SchemaMigration.Sql.Script
import SchemaMigration.Text.Blank
import SchemaMigration.Text.Cased
import SchemaMigration.Text.Cluster
import SchemaMigration.Text.Extender
import SchemaMigration.Text.JsonString
import SchemaMigration.Text.Letter
import SchemaMigration.Text.Position
import SchemaMigration.Text.Printable
import SchemaMigration.Text.Quoted
import SchemaMigration.Text.Range
import SchemaMigration.Text.Scan
import SchemaMigration.Text.Words
import SchemaMigration.Toml.Document
import SchemaMigration.Toml.Scalar
import SchemaMigration.Toml.Text
import SchemaMigration.Toml.Value
import SchemaMigration.Proofs.Plan.AddedColumn
import SchemaMigration.Proofs.Plan.Replacement
import SchemaMigration.Proofs.Layout.Mention
import SchemaMigration.Proofs.Layout.Naming
import SchemaMigration.Proofs.Files.Path
import SchemaMigration.Proofs.Migration.Name
import SchemaMigration.Proofs.Migration.Freshness
import SchemaMigration.Proofs.Plan.Identity
import SchemaMigration.Proofs.Migration.Generation
import SchemaMigration.Proofs.Sql.CreatedNames
import SchemaMigration.Proofs.Plan.CreatedTables
import SchemaMigration.Proofs.Calendar.Date
import SchemaMigration.Proofs.Number.Decimal
import SchemaMigration.Proofs.Number.DigitOrder
import SchemaMigration.Proofs.Calendar.Order
import SchemaMigration.Proofs.Calendar.Rfc3339
import SchemaMigration.Proofs.Calendar.TextOrder
import SchemaMigration.Proofs.Execution.Ledger
import SchemaMigration.Proofs.Execution.Chronology
import SchemaMigration.Proofs.Execution.DryRun
import SchemaMigration.Proofs.Execution.Rebuilding
import SchemaMigration.Proofs.Files.Listing
import SchemaMigration.Proofs.Migration.Newest
import SchemaMigration.Proofs.Execution.Status
import SchemaMigration.Proofs.Migration.Failure
import SchemaMigration.Proofs.Execution.LifeCycle
import SchemaMigration.Proofs.Schema.WellFormed
import SchemaMigration.Proofs.Text.Position
import SchemaMigration.Proofs.Schema.Grammar.Inversion
import SchemaMigration.Proofs.Schema.Grammar.Recognition
import SchemaMigration.Proofs.Schema.Placement
import SchemaMigration.Proofs.Schema.Positions
import SchemaMigration.Proofs.Schema.Grammar.Extension.Judgement
import SchemaMigration.Proofs.Schema.Grammar.Extension.Setting
import SchemaMigration.Proofs.Schema.Grammar.Extension.Block
import SchemaMigration.Proofs.Schema.Shifted
import SchemaMigration.Proofs.Schema.Juxtaposition
import SchemaMigration.Proofs.Sql.Index
import SchemaMigration.Proofs.Sql.Naming
import SchemaMigration.Proofs.Schema.Quotation
import SchemaMigration.Proofs.Plan.StringValue
import SchemaMigration.Proofs.Text.JsonString
import SchemaMigration.Proofs.Connection.Options
import SchemaMigration.Proofs.Connection.Registry
import SchemaMigration.Proofs.Text.Trimming
import SchemaMigration.Proofs.Sql.Tokens
import SchemaMigration.Proofs.Schema.ArgumentText.Occurrence
import SchemaMigration.Proofs.Schema.ArgumentText.Check
import SchemaMigration.Proofs.Schema.ArgumentText.Spacing
import SchemaMigration.Proofs.Schema.ArgumentText.SpacedArgument
import SchemaMigration.Proofs.Schema.ArgumentText.Arrangement
import SchemaMigration.Proofs.Schema.ArgumentText.Call
import SchemaMigration.Proofs.Layout.Resolution
import SchemaMigration.Proofs.Schema.Grammar.Trail
import SchemaMigration.Proofs.Schema.Orderly
import SchemaMigration.Proofs.Schema.FirstFault
import SchemaMigration.Proofs.Schema.Grammar.Comment.Token
import SchemaMigration.Proofs.Schema.Grammar.Comment.Mirror
import SchemaMigration.Proofs.Schema.Grammar.Comment.Lexeme
import SchemaMigration.Proofs.Schema.Grammar.Comment.Enclosed
import SchemaMigration.Proofs.Schema.Comment
import SchemaMigration.Proofs.Schema.Grammar.Comment.Cover
import SchemaMigration.Proofs.Connection.Closing
import SchemaMigration.Proofs.Migration.StampOrder
import SchemaMigration.Proofs.Migration.Succession
import SchemaMigration.Proofs.Migration.Listing
import SchemaMigration.Proofs.Layout.Clauses
import SchemaMigration.Proofs.Toml.Assembly
import SchemaMigration.Proofs.Toml.Table
import SchemaMigration.Proofs.Toml.Text
import SchemaMigration.Proofs.Toml.Outline
import SchemaMigration.Proofs.Settings.Expansion
import SchemaMigration.Proofs.Settings.Address
