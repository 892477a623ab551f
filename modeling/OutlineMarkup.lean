import OutlineMarkup.Command.Folder
import OutlineMarkup.Command.Invocation
import OutlineMarkup.Command.Options
import OutlineMarkup.Command.Report
import OutlineMarkup.Command.Run
import OutlineMarkup.Diagnostic
import OutlineMarkup.Directive.Block
import OutlineMarkup.Directive.Header
import OutlineMarkup.Directive.Keyframes
import OutlineMarkup.Directive.Media
import OutlineMarkup.Directive.Process
import OutlineMarkup.Directive.RuleLine
import OutlineMarkup.Document
import OutlineMarkup.Document.Log
import OutlineMarkup.Draft
import OutlineMarkup.Element.Basic
import OutlineMarkup.Element.Build
import OutlineMarkup.Element.Pool
import OutlineMarkup.Element.Tag
import OutlineMarkup.Fault
import OutlineMarkup.Forest
import OutlineMarkup.Line.Basic
import OutlineMarkup.Line.Cursor
import OutlineMarkup.Line.Inline
import OutlineMarkup.Main
import OutlineMarkup.Markup.Html
import OutlineMarkup.Markup.Json
import OutlineMarkup.Markup.Mount
import OutlineMarkup.Markup.Page
import OutlineMarkup.Outline.Scope
import OutlineMarkup.Outline.Statement
import OutlineMarkup.Proofs.Agreement
import OutlineMarkup.Proofs.Balance
import OutlineMarkup.Proofs.Brackets
import OutlineMarkup.Proofs.CanonicalForm
import OutlineMarkup.Proofs.Cascade
import OutlineMarkup.Proofs.ClassIdentity
import OutlineMarkup.Proofs.ClassNames
import OutlineMarkup.Proofs.Closing
import OutlineMarkup.Proofs.Compile
import OutlineMarkup.Proofs.Context
import OutlineMarkup.Proofs.DeclarationText
import OutlineMarkup.Proofs.Decoding
import OutlineMarkup.Proofs.Descent
import OutlineMarkup.Proofs.Diagnostics
import OutlineMarkup.Proofs.DocumentOrder
import OutlineMarkup.Proofs.Draft
import OutlineMarkup.Proofs.ElementLine
import OutlineMarkup.Proofs.Findings
import OutlineMarkup.Proofs.Forest
import OutlineMarkup.Proofs.Groups
import OutlineMarkup.Proofs.Hash
import OutlineMarkup.Proofs.HeaderGrammar
import OutlineMarkup.Proofs.InitialState
import OutlineMarkup.Proofs.Inline
import OutlineMarkup.Proofs.InlineStyle
import OutlineMarkup.Proofs.Insertion
import OutlineMarkup.Proofs.Keyframes
import OutlineMarkup.Proofs.Layout
import OutlineMarkup.Proofs.Line
import OutlineMarkup.Proofs.LineEnds
import OutlineMarkup.Proofs.Locality
import OutlineMarkup.Proofs.LookAhead
import OutlineMarkup.Proofs.Meaning
import OutlineMarkup.Proofs.MediaFragment
import OutlineMarkup.Proofs.Mounting
import OutlineMarkup.Proofs.Names
import OutlineMarkup.Proofs.Numeral
import OutlineMarkup.Proofs.OneLine
import OutlineMarkup.Proofs.Outline
import OutlineMarkup.Proofs.Page
import OutlineMarkup.Proofs.Parentage
import OutlineMarkup.Proofs.Partition
import OutlineMarkup.Proofs.Placement
import OutlineMarkup.Proofs.Pruning
import OutlineMarkup.Proofs.Quoting
import OutlineMarkup.Proofs.Reach
import OutlineMarkup.Proofs.References
import OutlineMarkup.Proofs.Registry
import OutlineMarkup.Proofs.Renumbering
import OutlineMarkup.Proofs.Replay
import OutlineMarkup.Proofs.Rules
import OutlineMarkup.Proofs.Scaling
import OutlineMarkup.Proofs.Simulation
import OutlineMarkup.Proofs.Skippable
import OutlineMarkup.Proofs.SourceOrder
import OutlineMarkup.Proofs.StyleUse
import OutlineMarkup.Proofs.StyleWords
import OutlineMarkup.Proofs.Substance
import OutlineMarkup.Proofs.Table
import OutlineMarkup.Proofs.Tabs
import OutlineMarkup.Proofs.Text
import OutlineMarkup.Proofs.Token
import OutlineMarkup.Proofs.TokenCut
import OutlineMarkup.Settings
import OutlineMarkup.Style.Canonical
import OutlineMarkup.Style.ClassRegistry
import OutlineMarkup.Style.Declaration
import OutlineMarkup.Style.Group
import OutlineMarkup.Style.Key
import OutlineMarkup.Style.Resolve
import OutlineMarkup.Style.Rule
import OutlineMarkup.Style.Value
import OutlineMarkup.Table
import OutlineMarkup.Text.Basic
import OutlineMarkup.Text.Blank
import OutlineMarkup.Text.Casing
import OutlineMarkup.Text.CasingTable
import OutlineMarkup.Text.Columns
import OutlineMarkup.Text.Decimal
import OutlineMarkup.Text.Numeral
import OutlineMarkup.Text.Units
import OutlineMarkup.Token.Basic
import OutlineMarkup.Token.Shape
import OutlineMarkup.Variable
