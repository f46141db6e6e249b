import Packrat.Grammar.Basic
import Packrat.Text.Newline

/-! # Source text of a grammar

Lines and pieces of the text a grammar was read from, for messages.
-/

namespace Packrat.Grammar

/-- A line of the source, counted from 1, without its end. -/
def sourceLine? (g : Grammar) (line : Nat) : Option (List Char) :=
  match g.source, line with
  | some source, n + 1 => (Newline.lines source.toList)[n]?
  | _, _ => none

/-- The lines from `line` on, `count` of them. -/
def sourceLines? (g : Grammar) (line count : Nat) : Option (List (Nat × List Char)) :=
  match count with
  | 0 => some []
  | count + 1 => do
    let text ← g.sourceLine? line
    let rest ← g.sourceLines? (line + 1) count
    return (line, text) :: rest

/-- The part of a line that lies in `span`. -/
def clip (span : Span) (line : Nat) (text : List Char) : List Char :=
  let stop := if line = span.stop.line then span.stop.column - 1 else text.length
  let start := if line = span.start.line then span.start.column - 1 else 0
  (text.take stop).drop start

/-- The source text of a span, with `\n` between its lines. `none` if a line is missing. -/
def snippet? (g : Grammar) (span : Span) : Option String := do
  let lines ← g.sourceLines? span.start.line (span.stop.line + 1 - span.start.line)
  return "\n".intercalate (lines.map fun (line, text) => String.ofList (clip span line text))

end Packrat.Grammar
