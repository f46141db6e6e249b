import Packrat.Text.Position
import Packrat.Text.Newline
import Packrat.Text.Escape
import Packrat.Text.Source
import Packrat.Text.LineReader
import Packrat.Text.Stream
import Packrat.Text.Operation
import Packrat.Text.Request
import Packrat.Text.Quoted
import Packrat.Segments
import Packrat.Segments.Operation
import Packrat.Memo
import Packrat.Terminal
import Packrat.Grammar.Snippet
import Packrat.Grammar.Render
import Packrat.Grammar.Undo
import Packrat.Builder
import Packrat.Builder.Procedure
import Packrat.Reader
import Packrat.Recognition.Parser
import Packrat.Recognition.DebugTrace
import Packrat.Recognition.Journal
import Packrat.Proofs.Recognition.Run
import Packrat.Proofs.Recognition.Progress
import Packrat.Proofs.Recognition.Judgement
import Packrat.Proofs.Memo
import Packrat.Proofs.Memo.LastStores
import Packrat.Proofs.Recognition.Counting
import Packrat.Proofs.Recognition.Refinement
import Packrat.Proofs.Grammar.WellFormed
import Packrat.Proofs.Recognition.Faults
import Packrat.Proofs.Recognition.Meaning
import Packrat.Proofs.Grammar.Trees
import Packrat.Proofs.Analysis.Consuming
import Packrat.Proofs.Analysis.LeftCalls
import Packrat.Proofs.Analysis.LeftCycles
import Packrat.Proofs.Analysis.Clean
import Packrat.Proofs.Recognition.Consumption
import Packrat.Proofs.Recognition.Termination
import Packrat.Proofs.Grammar.Actions
import Packrat.Proofs.Recognition.Leavings
import Packrat.Proofs.Recognition.Rollback
import Packrat.Proofs.Grammar.Splice
import Packrat.Proofs.Grammar.Marking
import Packrat.Proofs.Grammar.UndoScopes
import Packrat.Proofs.Grammar.Unspliced
import Packrat.Proofs.Grammar.UndoPlacement
import Packrat.Proofs.Grammar.Rewritten
import Packrat.Proofs.Builder.Arena
import Packrat.Proofs.Builder.Intact
import Packrat.Proofs.Builder.Sound
import Packrat.Proofs.Builder.Balanced
import Packrat.Proofs.Builder.Build
import Packrat.Proofs.Recognition.Effects
import Packrat.Proofs.Grammar.MemoFlags
import Packrat.Proofs.Recognition.Transparency
import Packrat.Proofs.Recognition.Trail
import Packrat.Proofs.Recognition.Furthest
import Packrat.Proofs.Recognition.Misses
import Packrat.Proofs.Recognition.Recall
import Packrat.Proofs.Recognition.Scopes
import Packrat.Proofs.Text.TextCursor
import Packrat.Proofs.Reader.Ends
import Packrat.Proofs.Reader.Literal
import Packrat.Proofs.Charset
import Packrat.Proofs.Builder.Phrases
import Packrat.Proofs.Builder.Anchored
import Packrat.Proofs.Reader.Expression
import Packrat.Proofs.Reader.Totality
import Packrat.Proofs.Reader.Exact
import Packrat.Proofs.Reader.Spelling
import Packrat.Proofs.Grammar.Rendering
import Packrat.Proofs.Grammar.Outline
import Packrat.Proofs.Builder.Outlined
import Packrat.Proofs.Reader.Rendered
import Packrat.Proofs.Reader.RoundTrip
import Packrat.Proofs.Builder.Unbalanced
import Packrat.Proofs.Recognition.Reuse
import Packrat.Proofs.Grammar.Dressed
import Packrat.Proofs.Grammar.Rewriting
import Packrat.Proofs.Text.Marks
import Packrat.Proofs.Grammar.Twins
import Packrat.Proofs.Recognition.Sight
import Packrat.Proofs.Recognition.Mirror
import Packrat.Proofs.Recognition.UndoTransparency
import Packrat.Proofs.Reader.Documented
import Packrat.Proofs.Reader.Silence
import Packrat.Proofs.Reader.Blanks
import Packrat.Proofs.Reader.Strings
import Packrat.Proofs.Reader.Sets
import Packrat.Proofs.Reader.Accepted
import Packrat.Proofs.Reader.Derived
import Packrat.Proofs.Reader.Acceptance
import Packrat.Proofs.Grammar.Listed
import Packrat.Proofs.Analysis.Recompiled
import Packrat.Proofs.Recognition.Visits
import Packrat.Proofs.Recognition.Tallies
import Packrat.Proofs.Recognition.ComesTo
import Packrat.Proofs.Recognition.Failures
import Packrat.Proofs.Recognition.Reentry
import Packrat.Proofs.Recognition.Stores
import Packrat.Proofs.Builder.Drafts
import Packrat.Proofs.Reader.Surroundings
import Packrat.Proofs.Reader.SurroundedTokens
import Packrat.Proofs.Reader.SurroundedExpressions
import Packrat.Proofs.Reader.SurroundedProductions
import Packrat.Proofs.Reader.Appended
import Packrat.Proofs.Charset.Members
import Packrat.Proofs.Charset.Canonical
import Packrat.Proofs.Text.Lines
import Packrat.Proofs.Grammar.Excerpts
import Packrat.Proofs.Reader.Determined
import Packrat.Proofs.Reader.Leads
import Packrat.Proofs.Reader.Overrun
import Packrat.Proofs.Builder.Placed
import Packrat.Proofs.Builder.Extents
import Packrat.Proofs.Reader.Spans
import Packrat.Proofs.Reader.Layout
import Packrat.Proofs.Reader.Nesting
import Packrat.Proofs.Segments.Layers
import Packrat.Proofs.Builder.Frame
import Packrat.Proofs.Builder.Refusals
import Packrat.Proofs.Builder.Register
import Packrat.Proofs.Builder.Numbering
import Packrat.Proofs.Text.Endings
import Packrat.Proofs.Text.Decoding
import Packrat.Proofs.Text.Sources
import Packrat.Proofs.Recognition.Places
import Packrat.Proofs.Recognition.InputFailures
import Packrat.Proofs.Grammar.Heights
import Packrat.Proofs.Grammar.UndoRendering
import Packrat.Proofs.Recognition.Courses
import Packrat.Proofs.Recognition.Indentation
import Packrat.Proofs.Recognition.Images
import Packrat.Proofs.Text.Neighbours
import Packrat.Proofs.Recognition.Fusion
import Packrat.Proofs.Analysis.Hints
import Packrat.Proofs.Analysis.Lowering
import Packrat.Proofs.Analysis.StableBits
import Packrat.Proofs.Recognition.Advance
