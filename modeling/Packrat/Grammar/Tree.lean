import Packrat.Grammar.Basic

/-! # Expressions as trees

An expression of the arena unfolded into a tree, where every node keeps its index. References are
leaves. The analyses of a grammar are recursions on these trees.
-/

namespace Packrat

inductive Tree where
  | terminal (id : Nat) (terminal : Terminal)
  | reference (id target : Nat) (memo : Bool)
  | action (id : Nat) (name : String) (bound : Bool) (body : Tree)
  | undo (id : Nat) (body : Tree)
  | sequence (id : Nat) (items : List Tree)
  | choice (id : Nat) (items : List Tree)
  | repetition (id min max : Nat) (body : Tree)
  | lookahead (id : Nat) (sign : Lookahead) (body : Tree)
deriving Repr

namespace Tree

/-- The index of the root. -/
def id : Tree → Nat
  | terminal id _ | reference id .. | action id .. | undo id _ | sequence id _ | choice id _
  | repetition id .. | lookahead id .. => id

/-- The terminal of a leaf. -/
def terminal? : Tree → Option Terminal
  | terminal _ t => some t
  | _ => none

end Tree

namespace Grammar

/-- The tree of the expression `i` if it is at most `depth` deep and all its parts exist. -/
def unfold (g : Grammar) : (depth i : Nat) → Option Tree
  | 0, _ => none
  | depth + 1, i => do
    match ← g.expr? i with
    | .terminal t => return .terminal i t
    | .reference target memo => return .reference i target memo
    | .action child name bound => return .action i name bound (← g.unfold depth child)
    | .undo child => return .undo i (← g.unfold depth child)
    | .sequence children => return .sequence i (← children.mapM (g.unfold depth))
    | .choice children => return .choice i (← children.mapM (g.unfold depth))
    | .repetition child min max => return .repetition i min max (← g.unfold depth child)
    | .lookahead child sign => return .lookahead i sign (← g.unfold depth child)

/-- The tree of the expression `i`. No branch of a tree is longer than the arena. -/
def tree? (g : Grammar) (i : Nat) : Option Tree := g.unfold g.nodes.size i

/-- The tree of a production. -/
def rootTree? (g : Grammar) (index : Nat) : Option Tree := g.root? index >>= g.tree?

/-- The trees of all productions, in order. -/
def rootTrees (g : Grammar) : List (Option Tree) :=
  g.productions.toList.map fun p => g.tree? p.root

end Grammar

end Packrat
