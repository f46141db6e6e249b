import Packrat.Terminal

/-! # Expressions

The operators of a parsing expression grammar. Expressions live in the arena of a grammar and refer
to their parts by index; a reference names a production by index.
-/

namespace Packrat

/-- The upper bound of a repetition without one. -/
def unbounded : Nat := 4294967295

/-- What a lookahead asks of its body. -/
inductive Lookahead where
  /-- `!e`: the body must fail. -/
  | absent
  /-- `&e`: the body must match. -/
  | present
deriving DecidableEq, Repr

def Lookahead.symbol : Lookahead → String
  | absent => "!"
  | present => "&"

/-- The repetitions with a sign of their own. -/
inductive Quantifier where
  | optional
  | zeroOrMore
  | oneOrMore
deriving DecidableEq, Repr

namespace Quantifier

def ofBounds? (min max : Nat) : Option Quantifier :=
  if min = 0 ∧ max = 1 then some optional
  else if min = 0 ∧ max = unbounded then some zeroOrMore
  else if min = 1 ∧ max = unbounded then some oneOrMore
  else none

def bounds : Quantifier → Nat × Nat
  | optional => (0, 1)
  | zeroOrMore => (0, unbounded)
  | oneOrMore => (1, unbounded)

def symbol : Quantifier → String
  | optional => "?"
  | zeroOrMore => "*"
  | oneOrMore => "+"

theorem ofBounds?_bounds (q : Quantifier) : ofBounds? q.bounds.1 q.bounds.2 = some q := by
  cases q <;> rfl

end Quantifier

inductive Expr where
  | terminal (terminal : Terminal)
  /-- `Name`, or `@Name` for one whose matches are remembered. -/
  | reference (target : Nat) (memo : Bool)
  /-- `$name(e)`: a match of the body is handed to the handler `name`. `bound` tells whether a
  handler of that name was known when the grammar was built. -/
  | action (child : Nat) (name : String) (bound : Bool)
  /-- A scope whose changes to the host are undone when the body fails. It has no text. -/
  | undo (child : Nat)
  /-- `e1 e2` -/
  | sequence (children : List Nat)
  /-- `e1 / e2` -/
  | choice (children : List Nat)
  /-- `e{min,max}` -/
  | repetition (child min max : Nat)
  | lookahead (child : Nat) (sign : Lookahead)
deriving DecidableEq, Repr

namespace Expr

def children : Expr → List Nat
  | terminal _ | reference .. => []
  | action child .. | undo child | repetition child .. | lookahead child _ => [child]
  | sequence children | choice children => children

/-- Replaces the parts of an expression, the operator stays. -/
def mapChildren (f : Nat → Nat) : Expr → Expr
  | terminal t => terminal t
  | reference target memo => reference target memo
  | action child name bound => action (f child) name bound
  | undo child => undo (f child)
  | sequence children => sequence (children.map f)
  | choice children => choice (children.map f)
  | repetition child min max => repetition (f child) min max
  | lookahead child sign => lookahead (f child) sign

/-- Actions open a transaction around their body, undo scopes included. -/
def isAction : Expr → Bool
  | action .. | undo _ => true
  | _ => false

/-- An action whose name matched no handler when the grammar was built. -/
def isUndefinedAction : Expr → Bool
  | action _ _ bound => !bound
  | _ => false

/-- The name of the operator in statistics. -/
def kind : Expr → String
  | terminal _ => "terminal"
  | reference .. => "reference"
  | action .. | undo _ => "action"
  | sequence _ => "concatenation"
  | choice _ => "alternation"
  | repetition .. => "repetition"
  | lookahead .. => "exclusion"

end Expr

/-- A production or an expression of a grammar, by index. -/
inductive Rule where
  | production (index : Nat)
  | expression (index : Nat)
deriving DecidableEq, Repr

namespace Rule

/-- `P3` is the production 3, `E7` the expression 7. -/
def text : Rule → String
  | production index => "P" ++ toString index
  | expression index => "E" ++ toString index

def ofText? (text : String) : Option Rule :=
  match text.toList with
  | 'P' :: digits => (String.ofList digits).toNat?.map production
  | 'E' :: digits => (String.ofList digits).toNat?.map expression
  | _ => none

end Rule

end Packrat
