import ComponentLint.Component.Basic
import ComponentLint.Component.Options
import ComponentLint.Config.Basic
import ComponentLint.Config.Preset
import ComponentLint.Config.Schema
import ComponentLint.Config.Value
import ComponentLint.Fix.Apply
import ComponentLint.Fix.Basic
import ComponentLint.Framework.Api
import ComponentLint.Json.Basic
import ComponentLint.Json.Parser
import ComponentLint.Lint.FixLoop
import ComponentLint.Lint.Located
import ComponentLint.Lint.Report
import ComponentLint.Lint.Rule
import ComponentLint.Lint.Run
import ComponentLint.Markup.Fragment
import ComponentLint.Markup.Key
import ComponentLint.Markup.Names
import ComponentLint.Markup.Node
import ComponentLint.Markup.Parser
import ComponentLint.Markup.Piece
import ComponentLint.Markup.Selector
import ComponentLint.Markup.Sibling
import ComponentLint.Markup.Token
import ComponentLint.Number.Binary64
import ComponentLint.Number.Format
import ComponentLint.Proofs.Config.Options
import ComponentLint.Proofs.Config.Runnable
import ComponentLint.Proofs.Fix.Drafting
import ComponentLint.Proofs.Fix.OrderIndependence
import ComponentLint.Proofs.Fix.SafeEdits
import ComponentLint.Proofs.Fix.Splice
import ComponentLint.Proofs.Lint.FixLoop
import ComponentLint.Proofs.Lint.Independence
import ComponentLint.Proofs.Lint.Ranges
import ComponentLint.Proofs.Lint.ScriptRules
import ComponentLint.Proofs.Lint.Soundness
import ComponentLint.Proofs.Lint.TemplateRules
import ComponentLint.Proofs.Markup.Arena
import ComponentLint.Proofs.Markup.Construction
import ComponentLint.Proofs.Markup.Fragments
import ComponentLint.Proofs.Markup.Heads
import ComponentLint.Proofs.Markup.Lossless
import ComponentLint.Proofs.Markup.Nesting
import ComponentLint.Proofs.Markup.Pieces
import ComponentLint.Proofs.Markup.Placement
import ComponentLint.Proofs.Markup.Positions
import ComponentLint.Proofs.Markup.Printing
import ComponentLint.Proofs.Markup.RawBlocks
import ComponentLint.Proofs.Markup.RoundTrip
import ComponentLint.Proofs.Markup.SolidTokens
import ComponentLint.Proofs.Markup.Steps
import ComponentLint.Proofs.Markup.TagEnds
import ComponentLint.Proofs.Markup.TagTokens
import ComponentLint.Proofs.Markup.Tiling
import ComponentLint.Proofs.Markup.WellFormed
import ComponentLint.Proofs.Scope.Nesting
import ComponentLint.Proofs.Scope.Resolution
import ComponentLint.Proofs.Scope.Spans
import ComponentLint.Proofs.Scope.TemplateScopes
import ComponentLint.Proofs.Scope.TemplateVisit
import ComponentLint.Proofs.Scope.TemplateWalk
import ComponentLint.Proofs.Scope.Walk
import ComponentLint.Proofs.Script.Places
import ComponentLint.Proofs.Sorting
import ComponentLint.Proofs.Text.LineColumns
import ComponentLint.Proofs.Text.Offsets
import ComponentLint.Proofs.Text.Positions
import ComponentLint.Proofs.Text.Reading
import ComponentLint.Regex.Basic
import ComponentLint.Regex.Parser
import ComponentLint.Rules.Catalog
import ComponentLint.Rules.ClosingBracket
import ComponentLint.Rules.ContentBreaks
import ComponentLint.Rules.DeadBranch
import ComponentLint.Rules.DestroyedHooks
import ComponentLint.Rules.DirectiveStyle
import ComponentLint.Rules.DuplicateAttributes
import ComponentLint.Rules.ElsePlacement
import ComponentLint.Rules.EventCasing
import ComponentLint.Rules.HandlerCall
import ComponentLint.Rules.KeyCodes
import ComponentLint.Rules.LoopCondition
import ComponentLint.Rules.LoopKey
import ComponentLint.Rules.MustacheSpacing
import ComponentLint.Rules.NegatedCondition
import ComponentLint.Rules.PropsReactivity
import ComponentLint.Rules.RefOperand
import ComponentLint.Rules.SelfClosing
import ComponentLint.Rules.SyncModifier
import ComponentLint.Rules.TemplateShadow
import ComponentLint.Rules.ThisUsage
import ComponentLint.Rules.UnusedVariables
import ComponentLint.Scope.Basic
import ComponentLint.Scope.Collect
import ComponentLint.Script.Access
import ComponentLint.Script.Cursor
import ComponentLint.Script.Grammar.Assignments
import ComponentLint.Script.Grammar.Classes
import ComponentLint.Script.Grammar.Declarations
import ComponentLint.Script.Grammar.Elements
import ComponentLint.Script.Grammar.Functions
import ComponentLint.Script.Grammar.Goal
import ComponentLint.Script.Grammar.Literals
import ComponentLint.Script.Grammar.Members
import ComponentLint.Script.Grammar.Modifiers
import ComponentLint.Script.Grammar.Modules
import ComponentLint.Script.Grammar.Operators
import ComponentLint.Script.Grammar.Patterns
import ComponentLint.Script.Grammar.Statements
import ComponentLint.Script.Grammar.Types
import ComponentLint.Script.Grammar.Variables
import ComponentLint.Script.Language
import ComponentLint.Script.Node
import ComponentLint.Script.Parser
import ComponentLint.Script.Token
import ComponentLint.Text.Case
import ComponentLint.Text.CharClass
import ComponentLint.Text.Lines
import ComponentLint.Text.Normal
import ComponentLint.Text.Pattern
import ComponentLint.Text.Scan
import ComponentLint.Text.Span
import ComponentLint.Text.Stream
import ComponentLint.Text.Unicode.CaseMap
import ComponentLint.Text.Unicode.Property
import ComponentLint.Proofs.Config.Mentions
import ComponentLint.Proofs.Config.PublishedSchema
import ComponentLint.Proofs.Lint.ClosingBracketFixes
import ComponentLint.Proofs.Lint.ClosingBrackets
import ComponentLint.Proofs.Lint.DeadBranches
import ComponentLint.Proofs.Lint.HandlerStyles
import ComponentLint.Proofs.Lint.SelfClosingFixes
import ComponentLint.Proofs.Lint.ThisFixes
import ComponentLint.Proofs.Scope.Spelling
import ComponentLint.Proofs.Lint.MustacheFixes
import ComponentLint.Proofs.Component.Language
import ComponentLint.Proofs.Lint.BindingStyles
import ComponentLint.Proofs.Markup.KeyWords
import ComponentLint.Proofs.Markup.Siblings
import ComponentLint.Proofs.Markup.TokenQueries
import ComponentLint.Proofs.Lint.ContentBreaks
import ComponentLint.Proofs.Markup.ContentEnds
import ComponentLint.Proofs.Script.Comparisons
import ComponentLint.Proofs.Lint.ComparedTexts
import ComponentLint.Proofs.Lint.LoopKeys
import ComponentLint.Proofs.Lint.Repetitions
import ComponentLint.Proofs.Lint.EventNames
import ComponentLint.Proofs.Lint.RenamedHooks
import ComponentLint.Proofs.Config.Conformance
import ComponentLint.Proofs.Scope.DeclarationOrder
import ComponentLint.Proofs.Lint.UnusedNames
import ComponentLint.Proofs.Lint.SwappedBranches
import ComponentLint.Proofs.Text.StyleChanges
import ComponentLint.Proofs.Text.NormalForms
import ComponentLint.Proofs.Markup.Trivia
import ComponentLint.Proofs.Markup.LoopSplits
import ComponentLint.Proofs.Script.Kinds
import ComponentLint.Proofs.Script.References
import ComponentLint.Proofs.Script.Calls
import ComponentLint.Proofs.Script.Taking
import ComponentLint.Proofs.Script.Shifts
import ComponentLint.Proofs.Script.Paths
import ComponentLint.Proofs.Script.LoneCalls
import ComponentLint.Proofs.Lint.HandlerCalls
import ComponentLint.Proofs.Script.Likeness
