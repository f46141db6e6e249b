import Packrat.Builder
import Packrat.Text.Stream

/-! # Reading with recovery

The state of the grammar reader: a place in the text with marks to go back to, the end of the last
token, the problems met so far, and the grammar under construction. Going back to a mark moves the
place alone: a problem stays reported, and what was built stays built.
-/

namespace Packrat

/-- A place in a text, with the text ahead. Its line ends are normalized. -/
structure Place where
  rest : List Char
  position : Position
deriving DecidableEq, Repr

structure Cursor extends Place where
  /-- Outstanding marks, the innermost first. -/
  marks : List Place
  /-- Where the last token ended, before the blanks behind it. -/
  tokenEnd : Position
  problems : Problems
  builder : Builder
deriving Repr

/-- What can end the reading of a text. A problem of the text does not. -/
inductive ReadError where
  | refused (error : BuildError)
  | unmarked (error : MarkError)
  /-- A loop went on although nothing was left to read. -/
  | endless
deriving DecidableEq, Repr

/-- A step of the grammar reader. -/
abbrev Read := StateT Cursor (Except ReadError)

namespace Cursor

/-- At the beginning of a text, with a builder for what is read. -/
def ofString (text : String) (builder : Builder) : Cursor where
  rest := Newline.normalize text.toList
  position := .origin
  marks := []
  tokenEnd := .origin
  problems := []
  builder := builder

/-- Moves over the next `count` characters. -/
def forward (c : Cursor) (count : Nat) : Cursor :=
  { c with rest := c.rest.drop count, position := c.position.advance (c.rest.take count) }

end Cursor

namespace Read

def here : Read Position := return (← get).position

def tokenEnd : Read Position := return (← get).tokenEnd

/-- The next character. -/
def peek : Read (Option Char) := return (← get).rest.head?

def atEnd : Read Bool := return (← get).rest.isEmpty

def skip (count : Nat) : Read Unit := modify (·.forward count)

/-- Reads the longest text of characters with the property `p`. -/
def takeWhile (p : Char → Bool) : Read (List Char) := do
  let taken := (← get).rest.takeWhile p
  skip taken.length
  return taken

/-- Reads `text` if it is next. -/
def eat (text : String) : Read Bool := do
  if text.toList.isPrefixOf (← get).rest then
    skip text.length
    return true
  else return false

def report (kind : ProblemKind) (start stop : Position) (message : String) : Read Unit :=
  modify fun c => { c with problems := c.problems ++ [⟨kind, none, some ⟨start, stop⟩, message⟩] }

/-- An operation of the builder. A refused one ends the reading. -/
def build (step : Builder.Step) : Read Unit := do
  let c ← get
  match c.builder.apply step with
  | .ok builder => set { c with builder }
  | .error error => throw (.refused error)

/-- Remembers the place. -/
def mark : Read Unit := modify fun c => { c with marks := c.toPlace :: c.marks }

/-- Drops the innermost mark and stays. -/
def release : Read Unit := do
  let c ← get
  match c.marks with
  | [] => throw (.unmarked .release)
  | _ :: marks => set { c with marks }

/-- Drops the innermost mark and goes back to it. -/
def reset : Read Unit := do
  let c ← get
  match c.marks with
  | [] => throw (.unmarked .reset)
  | place :: marks => set { c with toPlace := place, marks }

/-- Tries a step: unless its answer is a success, the place is the one before the step. -/
def attempt {α : Type} (succeeds : α → Bool) (step : Read α) : Read α := do
  mark
  let answer ← step
  if succeeds answer then release else reset
  return answer

/-- The answer of a step, the place stays. -/
def ahead {α : Type} (step : Read α) : Read α := do
  mark
  let answer ← step
  reset
  return answer

/-- Looking ahead is trying a step whose answers are no successes. -/
theorem ahead_eq_attempt {α : Type} (step : Read α) : ahead step = attempt (fun _ => false) step := rfl

/-- An upper bound for the number of steps that read something. -/
def steps : Read Nat := return (← get).rest.length + 1

/-- Repeats a step as long as it succeeds, and counts the successes. At most `limit` steps can be taken. -/
def countWhile (step : Read Bool) : (limit : Nat) → Read Nat
  | 0 => throw .endless
  | limit + 1 => do
    if ← step then return (← countWhile step limit) + 1 else return 0

end Read

end Packrat
