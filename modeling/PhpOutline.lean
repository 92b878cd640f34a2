import PhpOutline.Command.Line
import PhpOutline.Command.Run
import PhpOutline.Decl.Constant
import PhpOutline.Decl.Function
import PhpOutline.Decl.Namespace
import PhpOutline.Decl.Property
import PhpOutline.Decl.Type
import PhpOutline.Error
import PhpOutline.Files.Glob
import PhpOutline.Files.Host
import PhpOutline.Files.Ignore
import PhpOutline.Files.Path
import PhpOutline.Files.Tree
import PhpOutline.Files.Walk
import PhpOutline.Graph
import PhpOutline.Graph.InPlace
import PhpOutline.Graph.Interior
import PhpOutline.Import
import PhpOutline.Import.Clause
import PhpOutline.Import.Statement
import PhpOutline.Import.Table
import PhpOutline.JsonValue
import PhpOutline.Kind
import PhpOutline.KindSet
import PhpOutline.Lexeme.Context
import PhpOutline.Lexeme.Delimited
import PhpOutline.Lexeme.Heredoc
import PhpOutline.Lexeme.Markup
import PhpOutline.Lexeme.Name
import PhpOutline.Lexeme.Number
import PhpOutline.Lexeme.Operator
import PhpOutline.Lexeme.Word
import PhpOutline.Lexer
import PhpOutline.Main
import PhpOutline.Outline
import PhpOutline.Outline.Build
import PhpOutline.Outline.Header
import PhpOutline.Proofs.AnonymousClasses
import PhpOutline.Proofs.Balanced
import PhpOutline.Proofs.Brackets
import PhpOutline.Proofs.ClauseFrames
import PhpOutline.Proofs.ClauseItems
import PhpOutline.Proofs.ClauseSyntax
import PhpOutline.Proofs.ClauseTokens
import PhpOutline.Proofs.ClauseTransfer
import PhpOutline.Proofs.ClosingBrackets
import PhpOutline.Proofs.CodeRank
import PhpOutline.Proofs.CodeTrail
import PhpOutline.Proofs.Cursors
import PhpOutline.Proofs.DeclarationListings
import PhpOutline.Proofs.Detach
import PhpOutline.Proofs.DroppedTrivia
import PhpOutline.Proofs.EnumKeyword
import PhpOutline.Proofs.EnumerationEnds
import PhpOutline.Proofs.Enumerations
import PhpOutline.Proofs.HeaderBlocks
import PhpOutline.Proofs.Height
import PhpOutline.Proofs.HeredocText
import PhpOutline.Proofs.HeredocTokens
import PhpOutline.Proofs.Identifiers
import PhpOutline.Proofs.ImportKeywords
import PhpOutline.Proofs.ImportNames
import PhpOutline.Proofs.ImportsWithin
import PhpOutline.Proofs.LevelSearch
import PhpOutline.Proofs.LexemeBounds
import PhpOutline.Proofs.Linked
import PhpOutline.Proofs.LinkedInPlace
import PhpOutline.Proofs.ListFacts
import PhpOutline.Proofs.LongestForms
import PhpOutline.Proofs.LongestMatch
import PhpOutline.Proofs.LongestNumbers
import PhpOutline.Proofs.MarkupSegments
import PhpOutline.Proofs.Mirror
import PhpOutline.Proofs.MirrorListings
import PhpOutline.Proofs.MirrorNames
import PhpOutline.Proofs.MirrorOutline
import PhpOutline.Proofs.NameResolution
import PhpOutline.Proofs.NamespaceImports
import PhpOutline.Proofs.NamespaceSections
import PhpOutline.Proofs.OneLineNames
import PhpOutline.Proofs.OutlineErrors
import PhpOutline.Proofs.PartResolution
import PhpOutline.Proofs.Reachable
import PhpOutline.Proofs.ReportLines
import PhpOutline.Proofs.ScanFailures
import PhpOutline.Proofs.ScanStops
import PhpOutline.Proofs.ScopeTags
import PhpOutline.Proofs.SegmentTexts
import PhpOutline.Proofs.TokenPlacement
import PhpOutline.Proofs.TopLevel
import PhpOutline.Proofs.TypeHeaders
import PhpOutline.Proofs.UseStatements
import PhpOutline.Proofs.ValueListings
import PhpOutline.Proofs.WordAhead
import PhpOutline.Proofs.WordKinds
import PhpOutline.Report.Human
import PhpOutline.Report.Json
import PhpOutline.Report.Tokens
import PhpOutline.Resolution
import PhpOutline.Settings
import PhpOutline.Settings.Load
import PhpOutline.Settings.Toml
import PhpOutline.Taxonomy
import PhpOutline.Text.Alphabetic
import PhpOutline.Text.Cased
import PhpOutline.Text.LowerCase
import PhpOutline.Text.Printable
import PhpOutline.Text.Quoted
import PhpOutline.Text.Ranges
import PhpOutline.Text.Utf8
import PhpOutline.Token
import PhpOutline.Toml
import PhpOutline.Toml.Document
import PhpOutline.Toml.Scalar
import PhpOutline.Toml.Text
import PhpOutline.View
import PhpOutline.View.Navigation
import PhpOutline.View.Scan
import PhpOutline.View.Scope
