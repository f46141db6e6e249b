import Packrat.Analysis.Compile
import Packrat.Reader.Expression

/-! # Reading a grammar from text

```
Grammar    ::= Production+
Production ::= Identifier (':' / '=' / '<-' / '::=') Expression ';'
```

A problem inside a production is reported and the reader skips to the next `;`. Text between
productions is skipped up to the next production. So all problems of a text are reported at once.
-/

namespace Packrat

namespace Read

/-- The characters of a string that is passed over, from behind its opening quote on. -/
def stringBody (quote : Char) : List Char → List Char
  | [] => []
  | '\\' :: c :: rest =>
    if c = '\n' then ['\\'] else '\\' :: c :: stringBody quote rest
  | c :: rest =>
    if c = '\n' then []
    else if c = quote then [c]
    else c :: stringBody quote rest

/-- Passes over a string as a whole, or over one character. -/
def skipItem : Read Unit := do
  match (← get).rest with
  | c :: rest =>
    if c = '\'' ∨ c = '"' then skip (1 + (stringBody c rest).length) else skip 1
  | [] => return

/-- Passes over items and the blanks between them as long as `more` holds. Answers where the last
item ended. -/
def skipItems (more : Read Bool) (reporting : Bool) : (limit : Nat) → Position → Read Position
  | 0, _ => throw .endless
  | limit + 1, stop => do
    if ← more then
      skipItem
      let stop ← here
      skipSpacing reporting
      skipItems more reporting limit stop
    else return stop

/-- Text is left that does not start a production. -/
def inGarbage : Read Bool := do
  if ← atEnd then return false else return !(← atProductionHead)

/-- Skips the text up to the next production. -/
def garbage : Read Unit := do
  let start ← here
  let stop ← skipItems inGarbage true (← steps) start
  report .syntaxError start stop "expecting a production `Name : expression ;`"

/-- Reads the `;` at the end of a production. Text before it that cannot be read is an invalid
expression. -/
def terminate : Read Unit := do
  if ← eat ";" then return
  if ← inGarbage then
    let start ← here
    let more : Read Bool := do
      if (← peek) == some ';' then return false else inGarbage
    let stop ← skipItems more false (← steps) start
    report .invalidExpression start stop "invalid expression"
    if ← eat ";" then return
  let place ← tokenEnd
  report .missingSemicolon place place "missing `;` at the end of the production"

/-- Reads a production from its name on. -/
def production : Read Unit := do
  let start ← here
  let name ← identifier
  spacing
  let _ ← assignment
  spacing
  build (.startProduction (name.getD ""))
  let found ← expression (← steps)
  if !found && (← peek) == some ';' then
    let place ← here
    report .syntaxError place place "expecting an expression before `;`"
  terminate
  build (.setProductionSpan ⟨start, ← here⟩)
  build .endProduction

/-- Reads productions to the end of the text, and counts them. -/
def productions : (limit : Nat) → Read Nat
  | 0 => throw .endless
  | limit + 1 => do
    if ← atEnd then return 0
    if ← atProductionHead then
      production
      spacing
      return (← productions limit) + 1
    else
      garbage
      spacing
      productions limit

/-- Reads a whole text. -/
def grammar : Read Unit := do
  spacing
  let count ← productions (← steps)
  if count = 0 then
    let place ← here
    report .emptyGrammar place place Grammar.noProductions

end Read

/-- Reads a text and builds what it describes, with the problems of the text. `actions` names the actions with a
handler. -/
def readText (text : String) (actions : List String) : Except ReadError Grammar := do
  let ((), c) ← Read.grammar.run (Cursor.ofString text ((Builder.empty.withActions actions).setSource text))
  let g ← c.builder.build.mapError .refused
  return { g with problems := Problems.sort c.problems }

/-- What the builder would have refused. The reader has no error of its own to report. -/
def ReadError.refusal : ReadError → BuildError
  | refused error => error
  | unmarked .release => .unbalancedMark "release"
  | unmarked .reset => .unbalancedMark "reset"
  | endless => .noProduction

/-- The grammar a text describes, with the problems of the text. -/
def readGrammar (text : String) (actions : List String) : Except BuildError Grammar :=
  (readText text actions).mapError ReadError.refusal

/-- Reads and compiles a text. -/
def compileText (text : String) (actions : List String) (o : Options) :
    Except BuildError Compiled := do
  return (← readGrammar text actions).compile o

end Packrat
