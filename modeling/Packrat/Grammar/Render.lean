import Packrat.Grammar.Tree

/-! # Grammars as text

Writes expressions, productions and grammars in the language that `Packrat.Reader` reads. Undo
scopes have no text of their own.
-/

namespace Packrat

namespace Tree

/-- The tree below the undo scopes around it. -/
def visible : Tree → Tree
  | undo _ body => body.visible
  | t => t

def isNil : Tree → Bool
  | terminal _ .nil => true
  | _ => false

/-- Terminals, references and actions need no parentheses anywhere. -/
def isAtom (t : Tree) : Bool :=
  match t.visible with
  | terminal .. | reference .. | action .. => true
  | _ => false

def isChoice (t : Tree) : Bool :=
  match t.visible with
  | choice .. => true
  | _ => false

def isSequence (t : Tree) : Bool :=
  match t.visible with
  | sequence .. => true
  | _ => false

def isLookahead (t : Tree) : Bool :=
  match t.visible with
  | lookahead .. => true
  | _ => false

/-- The bounds of a repetition: a sign, or numbers in braces. -/
def boundsText (min max : Nat) : String :=
  match Quantifier.ofBounds? min max with
  | some quantifier => quantifier.symbol
  | none =>
    if min = max then "\x7b" ++ toString min ++ "\x7d"
    else if max = unbounded then "\x7b" ++ toString min ++ ",\x7d"
    else "\x7b" ++ toString min ++ "," ++ toString max ++ "\x7d"

/-- Parentheses around a text if they are needed. -/
def grouped (needed : Bool) (text : String) : String :=
  if needed then "(" ++ text ++ ")" else text

mutual

/-- An expression as text, where `names` names the productions. A quantifier behind a lookahead
applies to the lookahead, so that one needs no parentheses. -/
def text (names : Nat → String) : Tree → String
  | terminal _ t => t.text
  | reference _ target memo => (if memo then "@" else "") ++ names target
  | action _ name _ body =>
    "$" ++ name ++ "(" ++ (if body.isNil then "" else body.text names) ++ ")"
  | undo _ body => body.text names
  | sequence _ items =>
    " ".intercalate (texts names (fun t => t.isSequence || t.isChoice) items)
  | choice _ items => " / ".intercalate (texts names isChoice items)
  | repetition _ min max body =>
    grouped (!body.isAtom && !body.isLookahead) (body.text names) ++ boundsText min max
  | lookahead _ sign body => sign.symbol ++ grouped (!body.isAtom) (body.text names)

/-- The texts of several expressions, those with `needed` in parentheses. -/
def texts (names : Nat → String) (needed : Tree → Bool) : List Tree → List String
  | [] => []
  | t :: rest => grouped (needed t) (t.text names) :: texts names needed rest

end

end Tree

namespace Grammar

def exprText (g : Grammar) (i : Nat) : String :=
  ((g.tree? i).map (Tree.text g.name)).getD ""

/-- `Name : expression ;` -/
def productionText (g : Grammar) (index : Nat) : String :=
  match g.productions[index]? with
  | some p => p.name ++ " : " ++ g.exprText p.root ++ " ;"
  | none => ""

/-- A line for each production that is defined. -/
def text (g : Grammar) : String :=
  String.join (g.productions.toList.filterMap fun p =>
    if p.defined then some (g.productionText p.index ++ "\n") else none)

/-- A short description of a rule: the name of a production, the text of an expression. -/
def describe (g : Grammar) : Rule → String
  | .production index => g.name index
  | .expression i => g.exprText i

end Grammar

end Packrat
