import CallGrammar.Call.Glyph
import CallGrammar.Call.Tokens
import CallGrammar.Coercion
import CallGrammar.Decimal.Reading
import CallGrammar.Decimal.Shortest
import CallGrammar.Decimal.Text
import CallGrammar.Definition.Compiler
import CallGrammar.Definition.Draft
import CallGrammar.Definition.Lexeme
import CallGrammar.Definition.Problem
import CallGrammar.Dispatch.Command
import CallGrammar.Dispatch.Dispatcher
import CallGrammar.Event
import CallGrammar.Fault
import CallGrammar.Matching.Best
import CallGrammar.Matching.Matcher
import CallGrammar.Matching.Mismatch
import CallGrammar.Matching.Run
import CallGrammar.Matching.Scale
import CallGrammar.Matching.Tally
import CallGrammar.NameMap
import CallGrammar.Pattern.Basic
import CallGrammar.Pattern.Flatten
import CallGrammar.Pattern.Render
import CallGrammar.Pattern.Traversal
import CallGrammar.Proofs.Call.Completeness
import CallGrammar.Proofs.Call.Cutting
import CallGrammar.Proofs.Call.Glyphs
import CallGrammar.Proofs.Call.Locality
import CallGrammar.Proofs.Call.OpenQuotes
import CallGrammar.Proofs.Call.Padding
import CallGrammar.Proofs.Call.Quoting
import CallGrammar.Proofs.Call.Remainders
import CallGrammar.Proofs.Call.Spans
import CallGrammar.Proofs.Call.Values
import CallGrammar.Proofs.Decimal.FloatBits
import CallGrammar.Proofs.Decimal.Integers
import CallGrammar.Proofs.Definition.Acceptance
import CallGrammar.Proofs.Definition.DeclaredNames
import CallGrammar.Proofs.Definition.Derivation
import CallGrammar.Proofs.Definition.Deriving
import CallGrammar.Proofs.Definition.DistinctNames
import CallGrammar.Proofs.Definition.Drafting
import CallGrammar.Proofs.Definition.Frames
import CallGrammar.Proofs.Definition.IgnoringCase
import CallGrammar.Proofs.Definition.LoneParts
import CallGrammar.Proofs.Definition.LosslessLexemes
import CallGrammar.Proofs.Definition.NameOrder
import CallGrammar.Proofs.Definition.OpenGroups
import CallGrammar.Proofs.Definition.Placement
import CallGrammar.Proofs.Definition.PointedTails
import CallGrammar.Proofs.Definition.ProblemSpans
import CallGrammar.Proofs.Definition.ReadingBack
import CallGrammar.Proofs.Definition.RoundTrip
import CallGrammar.Proofs.Definition.Scanning
import CallGrammar.Proofs.Definition.Shape
import CallGrammar.Proofs.Definition.SimplifyModes
import CallGrammar.Proofs.Definition.Spelling
import CallGrammar.Proofs.Definition.Steps
import CallGrammar.Proofs.Definition.WrittenPatterns
import CallGrammar.Proofs.Dispatch.Agreement
import CallGrammar.Proofs.Dispatch.MixedMatchers
import CallGrammar.Proofs.Dispatch.Survey
import CallGrammar.Proofs.Dispatch.UnknownCommands
import CallGrammar.Proofs.Dispatch.UsageHelp
import CallGrammar.Proofs.Matching.AbsentGroups
import CallGrammar.Proofs.Matching.Bindings
import CallGrammar.Proofs.Matching.Branching
import CallGrammar.Proofs.Matching.CaseInsensitivity
import CallGrammar.Proofs.Matching.Choice
import CallGrammar.Proofs.Matching.Comparison
import CallGrammar.Proofs.Matching.Depth
import CallGrammar.Proofs.Matching.DepthLimits
import CallGrammar.Proofs.Matching.Diagnostics
import CallGrammar.Proofs.Matching.Endings
import CallGrammar.Proofs.Matching.FailedRuns
import CallGrammar.Proofs.Matching.Faults
import CallGrammar.Proofs.Matching.Findings
import CallGrammar.Proofs.Matching.FirstFaults
import CallGrammar.Proofs.Matching.Growth
import CallGrammar.Proofs.Matching.JoinedWords
import CallGrammar.Proofs.Matching.PlainPatterns
import CallGrammar.Proofs.Matching.PositiveScores
import CallGrammar.Proofs.Matching.Progress
import CallGrammar.Proofs.Matching.Refinement
import CallGrammar.Proofs.Matching.Resolution
import CallGrammar.Proofs.Matching.RoundedScores
import CallGrammar.Proofs.Matching.Scores
import CallGrammar.Proofs.Matching.Selection
import CallGrammar.Proofs.Matching.Simplification
import CallGrammar.Proofs.Matching.Soundness
import CallGrammar.Proofs.Matching.SurroundingBlanks
import CallGrammar.Proofs.Matching.Tails
import CallGrammar.Proofs.Matching.Trace
import CallGrammar.Proofs.Matching.Visits
import CallGrammar.Proofs.NameMap
import CallGrammar.Proofs.Pattern.Contents
import CallGrammar.Proofs.Pattern.Flattening
import CallGrammar.Proofs.Pattern.Places
import CallGrammar.Proofs.Pattern.Recasing
import CallGrammar.Proofs.Pattern.Respelling
import CallGrammar.Proofs.Pattern.Traversal
import CallGrammar.Proofs.Text.Breaking
import CallGrammar.Proofs.Text.Runs
import CallGrammar.Proofs.Text.Wrapping
import CallGrammar.Proofs.Wire.RoundTrip
import CallGrammar.Proofs.Wire.Scalars
import CallGrammar.Span
import CallGrammar.Text.Blank
import CallGrammar.Text.Case
import CallGrammar.Text.CharWidth
import CallGrammar.Text.Classes
import CallGrammar.Text.Lowercase
import CallGrammar.Text.Mark
import CallGrammar.Text.Quoted
import CallGrammar.Text.Ranges
import CallGrammar.Text.Similarity
import CallGrammar.Text.Slice
import CallGrammar.Text.Unassigned
import CallGrammar.Text.Width
import CallGrammar.Text.Wrap
import CallGrammar.Token
import CallGrammar.Value
import CallGrammar.Wire.Message
import CallGrammar.Wire.Scalar
