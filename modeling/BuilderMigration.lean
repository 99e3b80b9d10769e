import BuilderMigration.Assoc
import BuilderMigration.Command.Analysis
import BuilderMigration.Command.Arguments
import BuilderMigration.Command.Console
import BuilderMigration.Command.Help
import BuilderMigration.Command.Report
import BuilderMigration.Command.Request
import BuilderMigration.Command.Run
import BuilderMigration.Command.Terminal
import BuilderMigration.Files.FileTree
import BuilderMigration.Files.Path
import BuilderMigration.Files.Sources
import BuilderMigration.Grammar.Basic
import BuilderMigration.Grammar.Expressions
import BuilderMigration.Grammar.Group
import BuilderMigration.Grammar.Items
import BuilderMigration.Grammar.Parse
import BuilderMigration.Grammar.Reading
import BuilderMigration.Grammar.Statements
import BuilderMigration.Grammar.Types
import BuilderMigration.Idiom.Basic
import BuilderMigration.Idiom.Recognize
import BuilderMigration.Main
import BuilderMigration.Migration.Diagnostic
import BuilderMigration.Migration.Run
import BuilderMigration.Migration.Site
import BuilderMigration.Proofs.Grammar.Delimited
import BuilderMigration.Proofs.Grammar.Expressions
import BuilderMigration.Proofs.Grammar.Group
import BuilderMigration.Proofs.Grammar.Items
import BuilderMigration.Proofs.Grammar.Layout
import BuilderMigration.Proofs.Grammar.Paths
import BuilderMigration.Proofs.Grammar.Primary
import BuilderMigration.Proofs.Grammar.Reading
import BuilderMigration.Proofs.Grammar.Types
import BuilderMigration.Proofs.Grammar.Yields
import BuilderMigration.Proofs.Idiom.Leftover
import BuilderMigration.Proofs.Idiom.Nests
import BuilderMigration.Proofs.Idiom.Lifts
import BuilderMigration.Proofs.Idiom.Nodes
import BuilderMigration.Proofs.Idiom.Parts
import BuilderMigration.Proofs.Idiom.Recognition
import BuilderMigration.Proofs.Idiom.Strictness
import BuilderMigration.Proofs.Migration.Again
import BuilderMigration.Proofs.Migration.Leftover
import BuilderMigration.Proofs.Migration.Outcome
import BuilderMigration.Proofs.Migration.Report
import BuilderMigration.Proofs.Migration.SharedMap
import BuilderMigration.Proofs.Migration.Strictness
import BuilderMigration.Proofs.Migration.Tokens
import BuilderMigration.Proofs.Migration.Walk
import BuilderMigration.Proofs.Rewrite.Follows
import BuilderMigration.Proofs.Rewrite.Moved
import BuilderMigration.Proofs.Rewrite.Total
import BuilderMigration.Proofs.Shift.Idiom
import BuilderMigration.Proofs.Shift.Reading
import BuilderMigration.Proofs.Shift.Tree
import BuilderMigration.Proofs.Shift.Typing
import BuilderMigration.Proofs.Source.CallSites
import BuilderMigration.Proofs.Source.Edit
import BuilderMigration.Proofs.Source.EditedTokens
import BuilderMigration.Proofs.Token.Break
import BuilderMigration.Proofs.Token.Lexeme
import BuilderMigration.Proofs.Token.Lexes
import BuilderMigration.Proofs.Token.Order
import BuilderMigration.Proofs.Token.Piece
import BuilderMigration.Proofs.Token.Scan
import BuilderMigration.Proofs.Tree.Grown
import BuilderMigration.Proofs.Tree.Laminar
import BuilderMigration.Proofs.Tree.Named
import BuilderMigration.Proofs.Tree.Nesting
import BuilderMigration.Proofs.Tree.Outermost
import BuilderMigration.Proofs.Typing.Binders
import BuilderMigration.Proofs.Typing.Resolve
import BuilderMigration.Proofs.Typing.Scoping
import BuilderMigration.Proofs.Typing.Signatures
import BuilderMigration.Rewrite.Components
import BuilderMigration.Rewrite.Draft
import BuilderMigration.Rewrite.Emit
import BuilderMigration.Rewrite.Response
import BuilderMigration.Rewrite.Rules
import BuilderMigration.Settings.Basic
import BuilderMigration.Settings.Check
import BuilderMigration.Settings.Decimal
import BuilderMigration.Settings.Load
import BuilderMigration.Settings.Moment
import BuilderMigration.Settings.Raw
import BuilderMigration.Settings.Section
import BuilderMigration.Settings.Toml
import BuilderMigration.Source.Edit
import BuilderMigration.Source.Expansion
import BuilderMigration.Source.SourceMap
import BuilderMigration.Source.Span
import BuilderMigration.SyntaxError
import BuilderMigration.Text.Alphanumeric
import BuilderMigration.Text.Blank
import BuilderMigration.Text.Glob
import BuilderMigration.Text.Hidden
import BuilderMigration.Text.Json
import BuilderMigration.Text.Lines
import BuilderMigration.Text.Markup
import BuilderMigration.Text.Quoted
import BuilderMigration.Text.Utf8
import BuilderMigration.Token.Basic
import BuilderMigration.Token.Lexeme
import BuilderMigration.Token.Scan
import BuilderMigration.Tree.Basic
import BuilderMigration.Tree.Node
import BuilderMigration.Tree.Respan
import BuilderMigration.Tree.Ty
import BuilderMigration.Typing.Builders
import BuilderMigration.Typing.Names
import BuilderMigration.Typing.Resolve
import BuilderMigration.Typing.Signatures
import BuilderMigration.Proofs.Halting.Expressions
import BuilderMigration.Proofs.Halting.Reading
import BuilderMigration.Proofs.Printing.Bindings
import BuilderMigration.Proofs.Printing.Expressions
import BuilderMigration.Proofs.Printing.Spelling
import BuilderMigration.Proofs.Token.Tiling
import BuilderMigration.Proofs.Printing.Reading
import BuilderMigration.Proofs.Typing.Traced
import BuilderMigration.Proofs.Migration.Unmentioned
import BuilderMigration.Proofs.Rewrite.Parallel
import BuilderMigration.Proofs.Rewrite.Anchored
import BuilderMigration.Proofs.Migration.Stitching
import BuilderMigration.Proofs.Token.Wording
import BuilderMigration.Proofs.Token.Whole
import BuilderMigration.Proofs.Settings.Checked
import BuilderMigration.Proofs.Settings.Names
import BuilderMigration.Proofs.Token.Ends
import BuilderMigration.Proofs.Rewrite.Layout
import BuilderMigration.Proofs.Idiom.Names
import BuilderMigration.Proofs.Typing.BuilderNames
import BuilderMigration.Proofs.Idiom.Agree
import BuilderMigration.Proofs.Migration.Layout
import BuilderMigration.Proofs.Text.Utf8
import BuilderMigration.Proofs.Source.Positions
import BuilderMigration.Proofs.Migration.Grounds
import BuilderMigration.Proofs.Rewrite.Registry
import BuilderMigration.Proofs.Command.Writes
import BuilderMigration.Proofs.Command.Results
import BuilderMigration.Proofs.Command.Frame
import BuilderMigration.Proofs.Command.Bytes
import BuilderMigration.Proofs.Rewrite.General
import BuilderMigration.Proofs.Typing.Nests
import BuilderMigration.Proofs.Migration.Tail
import BuilderMigration.Proofs.Rewrite.Response
import BuilderMigration.Proofs.Rewrite.Rows
import BuilderMigration.Proofs.Rewrite.Overrides
import BuilderMigration.Proofs.Rewrite.Abandoned
import BuilderMigration.Proofs.Origin.Typing
import BuilderMigration.Proofs.Migration.Replay
import BuilderMigration.Proofs.Migration.Calls
import BuilderMigration.Proofs.Likeness.Alike
import BuilderMigration.Proofs.Likeness.Expressions
import BuilderMigration.Proofs.Likeness.Group
import BuilderMigration.Proofs.Likeness.Paths
import BuilderMigration.Proofs.Likeness.Primary
import BuilderMigration.Proofs.Likeness.Reading
import BuilderMigration.Proofs.Likeness.Relabeling
import BuilderMigration.Proofs.Likeness.Types
import BuilderMigration.Proofs.Locality.MacroCalls
import BuilderMigration.Proofs.Printing.Layout
import BuilderMigration.Proofs.Printing.Precedence
import BuilderMigration.Proofs.Printing.UseTrees
import BuilderMigration.Proofs.Printing.WrittenTypes
import BuilderMigration.Proofs.Printing.Annotations
import BuilderMigration.Proofs.Printing.Generics
import BuilderMigration.Proofs.Renaming.Imprint
import BuilderMigration.Proofs.Renaming.RawNames
import BuilderMigration.Proofs.Renaming.Respelling
import BuilderMigration.Proofs.Source.Selection
import BuilderMigration.Proofs.Token.Extents
import BuilderMigration.Proofs.Token.Lines
import BuilderMigration.Proofs.Typing.Frames
import BuilderMigration.Proofs.Typing.Visits
