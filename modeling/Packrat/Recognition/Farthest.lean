import Packrat.Recognition.Event

/-! # The farthest failure

An observer that keeps the farthest position where a terminal failed, and the terminals that failed
there. Failures inside lookaheads do not count: a lookahead may want them.
-/

namespace Packrat

/-- The text of a grammar does not match: where, what was found there, and what would have. -/
structure SyntaxError where
  farthest : Position
  expected : List Terminal
  /-- The text at `farthest`, escaped; empty at the end of the input. -/
  found : String
deriving DecidableEq, Repr

/-- `place: unexpected text, expecting terminals.` -/
def SyntaxError.text (e : SyntaxError) : String :=
  let found := if e.found.isEmpty then "end of input" else "`" ++ e.found ++ "`"
  let expecting :=
    if e.expected.isEmpty then ""
    else ", expecting " ++ " or ".intercalate (e.expected.map Terminal.text)
  e.farthest.text ++ ": unexpected " ++ found ++ expecting ++ "."

structure Farthest where
  position : Option Position := none
  /-- The terminals that failed at `position`, in the order they failed first. -/
  expected : List Terminal := []
  /-- Number of lookaheads that are open. -/
  lookaheads : Nat := 0
deriving DecidableEq, Repr

namespace Farthest

def syntaxError (f : Farthest) (found : String) : SyntaxError where
  farthest := f.position.getD .origin
  expected := f.expected
  found := found

/-- Takes note of a terminal that failed. -/
def fail (f : Farthest) (position : Position) (t : Terminal) : Farthest :=
  let f :=
    match f.position with
    | some farthest =>
      if farthest.offset < position.offset then
        { f with position := some position, expected := [] }
      else f
    | none => { f with position := some position, expected := [] }
  match f.position with
  | some farthest =>
    if position.offset < farthest.offset || f.expected.contains t then f
    else { f with expected := f.expected ++ [t] }
  | none => f

def observe : Observer Farthest := fun g s event f =>
  match event with
  | .opened => {}
  | .entered (.expression i) =>
    match g.expr? i with
    | some (.lookahead ..) => { f with lookaheads := f.lookaheads + 1 }
    | _ => f
  | .left (.expression i) success =>
    match g.expr? i with
    | some (.lookahead ..) => { f with lookaheads := f.lookaheads - 1 }
    | some (.terminal t) => if f.lookaheads = 0 && !success then f.fail s.position t else f
    | _ => f
  | _ => f

end Farthest

end Packrat
