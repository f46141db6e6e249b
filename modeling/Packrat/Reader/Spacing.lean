import Packrat.Reader.Cursor
import Packrat.Unicode.Alphabetic
import Packrat.Unicode.Number

/-! # Blanks, comments and names

What may stand between two tokens, and the names of productions and actions.
-/

namespace Packrat.Read

def isBlank (c : Char) : Bool := Unicode.whiteSpace.contains c

def isNameStart (c : Char) : Bool := Unicode.alphabetic.contains c || c == '_'

def isNamePart (c : Char) : Bool :=
  Unicode.alphabetic.contains c || Unicode.numeric.contains c || c == '_'

/-- The text up to the end of a block comment, and whether the comment ends. -/
def commentBody : List Char → List Char × Bool
  | [] => ([], false)
  | '*' :: '/' :: _ => (['*', '/'], true)
  | c :: rest =>
    let (body, closed) := commentBody rest
    (c :: body, closed)

/-- Reads a block comment from its opening on. -/
def blockComment (reporting : Bool) : Read Unit := do
  let start ← here
  skip 2
  let (body, closed) := commentBody (← get).rest
  skip body.length
  if !closed && reporting then
    report .unterminatedComment start (← here) "unterminated block comment"

/-- Reads to the end of the line. -/
def restOfLine : Read Unit := do
  let _ ← takeWhile (· != '\n')
  skip 1

/-- Skips one blank or one comment, if it is next. -/
def skipBlank (reporting : Bool) : Read Bool := do
  match (← get).rest with
  | '/' :: '/' :: _ =>
    restOfLine
    return true
  | '/' :: '*' :: _ =>
    blockComment reporting
    return true
  | c :: _ =>
    if isBlank c then
      skip 1
      return true
    else return false
  | [] => return false

/-- Skips blanks, `// line` and `/* block */` comments. -/
def skipSpacing (reporting : Bool) : Read Unit := do
  let _ ← countWhile (skipBlank reporting) (← steps)

/-- Ends a token and skips what stands between it and the next one. -/
def spacing : Read Unit := do
  modify fun c => { c with tokenEnd := c.position }
  skipSpacing true

/-- Reads a name. -/
def identifier : Read (Option String) := do
  match ← peek with
  | some c =>
    if isNameStart c then return some (String.ofList (← takeWhile isNamePart)) else return none
  | none => return none

/-- Reads the sign between the name and the expression of a production. -/
def assignment : Read Bool := do
  if ← eat "::=" then return true
  if ← eat ":" then return true
  if ← eat "=" then return true
  eat "<-"

/-- A production starts here. -/
def atProductionHead : Read Bool := ahead do
  match ← identifier with
  | none => return false
  | some _ =>
    skipSpacing false
    assignment

end Packrat.Read
