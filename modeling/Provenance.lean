import Provenance.Catalog.Analysis
import Provenance.Catalog.Basic
import Provenance.Catalog.Index
import Provenance.Catalog.Json
import Provenance.Command.Basic
import Provenance.Command.Options
import Provenance.Command.Run
import Provenance.Definition.Header
import Provenance.Definition.Object
import Provenance.Definition.Routine
import Provenance.Definition.View
import Provenance.Distinct
import Provenance.Files.Discovery
import Provenance.Files.Failure
import Provenance.Files.Load
import Provenance.Files.Survey
import Provenance.Files.Tree
import Provenance.Identifier
import Provenance.Json.Basic
import Provenance.Json.Lexer
import Provenance.Json.Printer
import Provenance.Json.Reader
import Provenance.Json.Record
import Provenance.Main
import Provenance.Mask
import Provenance.NameTable
import Provenance.Parts
import Provenance.Proofs.Catalog.Analysis
import Provenance.Proofs.Catalog.Column
import Provenance.Proofs.Catalog.Index
import Provenance.Proofs.Catalog.Lowered
import Provenance.Proofs.Definition.AnyCase
import Provenance.Proofs.Definition.DeclaredView
import Provenance.Proofs.Definition.Header
import Provenance.Proofs.Definition.Lowered
import Provenance.Proofs.Definition.View
import Provenance.Proofs.Distinct
import Provenance.Proofs.Identifier
import Provenance.Proofs.Query.Attribution
import Provenance.Proofs.Query.Bindings
import Provenance.Proofs.Query.Enclosed
import Provenance.Proofs.Query.Expressions
import Provenance.Proofs.Query.LoweredItems
import Provenance.Proofs.Query.LoweredMentions
import Provenance.Proofs.Query.LoweredScope
import Provenance.Proofs.Query.LoweredUsage
import Provenance.Proofs.Query.MentionDepth
import Provenance.Proofs.Query.Mentions
import Provenance.Proofs.Query.NamedTables
import Provenance.Proofs.Query.Reaches
import Provenance.Proofs.Query.References
import Provenance.Proofs.Query.SelectList
import Provenance.Proofs.Query.Skipped
import Provenance.Proofs.Query.UniqueNames
import Provenance.Proofs.Query.Usage
import Provenance.Proofs.Text.Case
import Provenance.Proofs.Text.Classes
import Provenance.Proofs.Text.LowerCase
import Provenance.Proofs.Text.Lowered
import Provenance.Proofs.Token.Depth
import Provenance.Proofs.Token.Hidden
import Provenance.Proofs.Token.Lowered
import Provenance.Proofs.Token.LoweredReaders
import Provenance.Proofs.Token.Reads
import Provenance.Proofs.Token.Regions
import Provenance.Proofs.Token.Rendered
import Provenance.Proofs.Token.Words
import Provenance.Proofs.Writing.RoutineRoundTrip
import Provenance.Proofs.Writing.RoutineTokens
import Provenance.Proofs.Writing.ViewItems
import Provenance.Proofs.Writing.ViewRoundTrip
import Provenance.Proofs.Writing.ViewTokens
import Provenance.Query.Attribution
import Provenance.Query.Bindings
import Provenance.Query.Chain
import Provenance.Query.Mention
import Provenance.Query.SelectItem
import Provenance.Query.SelectList
import Provenance.Query.UniqueNames
import Provenance.Query.Usage
import Provenance.Report
import Provenance.Text.Ascii
import Provenance.Text.Blank
import Provenance.Text.Cased
import Provenance.Text.CodeRange
import Provenance.Text.Encoding
import Provenance.Text.Line
import Provenance.Text.LowerCase
import Provenance.Text.Surrogate
import Provenance.Text.Word
import Provenance.Token.Basic
import Provenance.Token.Cursor
import Provenance.Token.Group
import Provenance.Token.Keyword
import Provenance.Token.Lex
import Provenance.Token.Reader
import Provenance.Token.Render
import Provenance.Token.Reserved
import Provenance.Writing.Definition
import Provenance.Writing.Routine
import Provenance.Writing.View
import Provenance.Proofs.Query.SelectStatement
import Provenance.Proofs.Definition.Declarations
import Provenance.Proofs.Definition.DeclaredRoutine
import Provenance.Proofs.Token.Pieces
import Provenance.Proofs.Catalog.Named
import Provenance.Proofs.Definition.Types
import Provenance.Proofs.Catalog.Regeneration
import Provenance.Proofs.Json.Literals
import Provenance.Proofs.Json.RoundTrip
import Provenance.Proofs.Json.Records
import Provenance.Proofs.Catalog.Reload
import Provenance.Proofs.Query.FromClause
import Provenance.Proofs.Query.Subqueries
import Provenance.Proofs.Query.AliasedTargets
import Provenance.Proofs.Query.WildcardLists
import Provenance.Proofs.Definition.NamedLiteral
import Provenance.Proofs.Definition.OptionalMarker
import Provenance.Proofs.Definition.Preamble
import Provenance.Proofs.Query.TableOrder
import Provenance.Proofs.Query.NameChains
import Provenance.Proofs.Token.Reassembly
import Provenance.Proofs.Writing.ViewNames
import Provenance.Proofs.Query.AliasForms
import Provenance.Proofs.Token.CommaPieces
import Provenance.Proofs.Query.ItemStretches
import Provenance.Proofs.Query.PrefixedTables
import Provenance.Proofs.Query.ColumnChains
import Provenance.Proofs.Query.ScalarSubqueries
import Provenance.Proofs.Token.Masked
import Provenance.Proofs.Writing.Names
import Provenance.Proofs.Query.MergedSources
import Provenance.Proofs.Files.Paths
import Provenance.Proofs.Files.Discovery
import Provenance.Proofs.Files.Survey
import Provenance.Proofs.Token.OuterCommas
import Provenance.Proofs.Token.Groups
import Provenance.Proofs.Token.Cursor
import Provenance.Proofs.Token.CursorMoves
