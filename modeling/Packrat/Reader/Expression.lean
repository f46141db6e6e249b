import Packrat.Reader.Literal

/-! # Reading expressions

```
Expression ::= Sequence (('/' / '|') Sequence)*
Sequence   ::= Unary+
Unary      ::= ('!' / '&')? Operand ('?' / '*' / '+' / '{' n (',' m?)? '}')?
Operand    ::= 'text' / "text" / 'a'-'z' / [set] / <Class> / . / @?Name / (Expression)
             / $name(Expression?)
```

A quantifier applies to the lookahead before it: `!e*` reads `(!e)*`. A reader answers whether it found an
expression, and leaves what it found on top of the builder's stack. The readers of the parts of an expression
take the reader for expressions in parentheses as an argument.
-/

namespace Packrat.Read

/-- Gives the top expression of the builder its place. -/
def locate (start stop : Position) : Read Unit := do
  build (.setStart start)
  build (.setStop stop)

/-- Pushes a leaf that began at `start` and ends here. -/
def leaf (start : Position) (step : Builder.Step) : Read Unit := do
  build step
  locate start (← here)
  spacing

/-- Reads `'text'`, `"text"` or `'a'-'z'`. -/
def token (quote : Char) : Read Unit := do
  let start ← here
  let interval ← if quote = '\'' then quietInterval else pure none
  match interval with
  | some (lo, hi) => leaf start (.terminal (.interval (.between lo hi)))
  | none => do
    let image ← quotedText quote
    leaf start (.terminal (.token (String.ofList image) (quote == '\'')))

/-- Reads the name in angle brackets. -/
def className : Read (Option String) := attempt Option.isSome do
  skip 1
  skipSpacing false
  let name ← identifier
  skipSpacing false
  match name with
  | none => return none
  | some name => if ← eat ">" then return some name else return none

/-- Reads `<Class>`. -/
def charClass : Read Bool := do
  let start ← here
  match ← className with
  | none => return false
  | some name =>
    leaf start (.terminal (.charClass (.named name)))
    return true

/-- Reads a name, and the sign before it if its matches are to be remembered. -/
def referenceName : Read (Option (String × Bool)) := attempt Option.isSome do
  let memo ← eat "@"
  return (← identifier).map (·, memo)

/-- Reads `Name` or `@Name`. A name that starts the next production is not a reference. -/
def reference : Read Bool := do
  if ← atProductionHead then return false
  let start ← here
  match ← referenceName with
  | none => return false
  | some (name, memo) =>
    leaf start (.reference name memo)
    return true

/-- Reads `)`, or reports that it is missing behind the last token. -/
def closeParenthesis : Read Unit := do
  if !(← eat ")") then
    let place ← tokenEnd
    report .missingParenthesis place place "missing `)`"

/-- Reads an expression in parentheses. -/
def grouping (expression : Read Bool) : Read Bool := do
  let found ← attempt id do
    skip 1
    spacing
    expression
  if found then
    closeParenthesis
    spacing
  return found

/-- Reads the name and the opening parenthesis of an action. -/
def actionHead : Read (Option String) := attempt Option.isSome do
  skip 1
  match ← identifier with
  | none => return none
  | some name =>
    skipSpacing false
    if ← eat "(" then return some name else return none

/-- Reads `$name(e)`, or `$name()` for the empty text. -/
def action (expression : Read Bool) : Read Bool := do
  let start ← here
  match ← actionHead with
  | none => return false
  | some name =>
    spacing
    build .mark
    let _ ← expression
    closeParenthesis
    let stop ← here
    build (.action name)
    locate start stop
    build .release
    spacing
    return true

def operand (expression : Read Bool) : Read Bool := do
  let start ← here
  match ← peek with
  | some '\'' =>
    token '\''
    return true
  | some '"' =>
    token '"'
    return true
  | some '[' =>
    let set ← charset
    leaf start (.terminal (.set set))
    return true
  | some '<' => charClass
  | some '.' =>
    skip 1
    leaf start (.terminal .any)
    return true
  | some '(' => grouping expression
  | some '$' => action expression
  | some '@' => reference
  | some c => if isNameStart c then reference else return false
  | none => return false

/-- Reads the numbers of a repetition up to the closing brace. -/
def boundNumbers : Read (Option (Nat × Nat)) := do
  match ← integer with
  | none => return none
  | some min =>
    if ← eat "," then
      spacing
      match ← peek with
      | some c =>
        if c.isDigit then return (← integer).map fun max => (min, max)
        else return some (min, unbounded)
      | none => return some (min, unbounded)
    else return some (min, min)

/-- Reads `{n}`, `{n,}` or `{n,m}` behind an expression that began at `start`. -/
def bounds (start : Position) : Read Unit := do
  let opening ← here
  skip 1
  spacing
  let numbers ← boundNumbers
  let closed ← if numbers.isSome then eat "\x7d" else pure false
  match closed, numbers with
  | true, some (min, max) =>
    let stop ← here
    if min ≤ max ∧ 0 < max then
      build (.repetition min max)
      locate start stop
    else
      report .invalidExpression opening stop
        "invalid repetition bounds, expecting 0 < max and min <= max"
  | _, _ =>
    let _ ← takeWhile fun c => c != '\x7d' && c != ';' && c != '\n'
    let _ ← eat "\x7d"
    report .invalidExpression opening (← here) "malformed repetition bounds"
  spacing

def quantifier? : Char → Option Quantifier
  | '?' => some .optional
  | '*' => some .zeroOrMore
  | '+' => some .oneOrMore
  | _ => none

/-- Reads the quantifier behind an expression that began at `start`, if there is one. -/
def suffix (start : Position) : Read Unit := do
  match ← peek with
  | none => return
  | some c =>
    match quantifier? c with
    | some quantifier =>
      skip 1
      leaf start (.repetition quantifier.bounds.1 quantifier.bounds.2)
    | none => if c = '\x7b' then bounds start

/-- Reads `!` or `&` and the blanks behind it. -/
def lookaheadSign : Read (Option Lookahead) := do
  if ← eat "!" then
    spacing
    return some .absent
  if ← eat "&" then
    spacing
    return some .present
  return none

/-- Reads an operand with the sign before it, and answers the sign. -/
def signedOperand (expression : Read Bool) : Read (Option (Option Lookahead)) := attempt Option.isSome do
  let sign ← lookaheadSign
  if ← operand expression then return some sign else return none

/-- Reads an operand with what stands before and behind it. -/
def unary (expression : Read Bool) : Read Bool := do
  let start ← here
  match ← signedOperand expression with
  | none => return false
  | some none =>
    suffix start
    return true
  | some (some sign) =>
    build (.lookahead sign)
    locate start (← tokenEnd)
    suffix start
    return true

def sequence (expression : Read Bool) : Read Bool := do
  let start ← here
  build .mark
  let count ← countWhile (unary expression) (← steps)
  if count = 0 then
    build .reset
    return false
  build .sequence
  locate start (← tokenEnd)
  build .release
  return true

/-- Reads an alternative with the sign before it. -/
def alternative (expression : Read Bool) : Read Bool := do
  let separated ← if ← eat "/" then pure true else eat "|"
  if !separated then return false
  spacing
  if ← sequence expression then return true
  let place ← here
  report .syntaxError place place "expecting an alternative after `/`"
  return false

/-- Reads an expression with parentheses at most `depth` levels deep. -/
def expression : (depth : Nat) → Read Bool
  | 0 => throw .endless
  | depth + 1 => do
    let start ← here
    build .mark
    if !(← sequence (expression depth)) then
      build .reset
      return false
    let _ ← countWhile (alternative (expression depth)) (← steps)
    build .choice
    locate start (← tokenEnd)
    build .release
    return true

end Packrat.Read
