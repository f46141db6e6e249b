import Packrat.Analysis.LeftRecursion
import Packrat.Proofs.Analysis.Fixpoint
import Packrat.Proofs.Grammar.Trees

/-! # Rules that are sure to consume

The bits of `consumingProductions` are stable: a production has its bit exactly if its right-hand side
consumes by the bits of the productions it refers to. In a well-formed grammar the same can be said of
every node and its parts, without trees, whatever bits the productions have
(`WellFormed.ruleBits_expression`).
-/

namespace Packrat

namespace Tree

variable {consuming consuming' : Nat → Bool}

theorem anyConsumes_eq (items : List Tree) : anyConsumes consuming items = items.any (consumes consuming) := by
  induction items with
  | nil => rfl
  | cons t rest ih => rw [anyConsumes, List.any_cons, ih]

theorem allConsume_eq (items : List Tree) : allConsume consuming items = items.all (consumes consuming) := by
  induction items with
  | nil => rfl
  | cons t rest ih => rw [allConsume, List.all_cons, ih]

mutual

/-- More consuming productions make more trees consume. -/
theorem consumes_mono (le : ∀ i, consuming i = true → consuming' i = true) :
    ∀ t : Tree, t.consumes consuming = true → t.consumes consuming' = true
  | .terminal _ .nil, consumes | .terminal _ .any, consumes | .terminal _ (.token ..), consumes
  | .terminal _ (.interval _), consumes | .terminal _ (.set _), consumes
  | .terminal _ (.charClass _), consumes => consumes
  | .reference _ target _, consumes => le target consumes
  | .action _ _ _ body, consumes | .undo _ body, consumes => consumes_mono le body consumes
  | .sequence _ items, consumes => anyConsumes_mono le items consumes
  | .choice _ items, consumes => allConsume_mono le items consumes
  | .repetition _ min _ body, consumes => by
    simp only [Tree.consumes, Bool.and_eq_true] at consumes ⊢
    exact ⟨consumes.1, consumes_mono le body consumes.2⟩
  | .lookahead .., consumes => consumes

theorem anyConsumes_mono (le : ∀ i, consuming i = true → consuming' i = true) :
    ∀ items : List Tree, anyConsumes consuming items = true → anyConsumes consuming' items = true
  | [], consumes => consumes
  | t :: rest, consumes => by
    simp only [anyConsumes, Bool.or_eq_true] at consumes ⊢
    exact consumes.imp (consumes_mono le t) (anyConsumes_mono le rest)

theorem allConsume_mono (le : ∀ i, consuming i = true → consuming' i = true) :
    ∀ items : List Tree, allConsume consuming items = true → allConsume consuming' items = true
  | [], consumes => consumes
  | t :: rest, consumes => by
    simp only [allConsume, Bool.and_eq_true] at consumes ⊢
    exact ⟨consumes_mono le t consumes.1, allConsume_mono le rest consumes.2⟩

end

end Tree

/-- A terminal whose matches have a character at least. -/
def Terminal.consumes : Terminal → Bool
  | .nil => false
  | .token image _ => !image.isEmpty
  | _ => true

/-- A match of the expression is sure to consume a character, if the matches of all rules with the bit are. -/
def Expr.consumes (bit : Rule → Bool) : Expr → Bool
  | .terminal t => t.consumes
  | .reference target _ => bit (.production target)
  | .action child .. | .undo child => bit (.expression child)
  | .sequence children => children.any fun child => bit (.expression child)
  | .choice children => children.all fun child => bit (.expression child)
  | .repetition child min _ => min > 0 && bit (.expression child)
  | .lookahead .. => false

namespace Grammar

variable {g : Grammar} {i index : Nat} {e : Expr}

/-- The bits of all rules, by those of the productions. -/
def ruleBits (g : Grammar) (consuming : Nat → Bool) : Rule → Bool
  | .production index => consuming index
  | .expression i => (g.tree? i).any (Tree.consumes consuming)

/-- The bit of a production. -/
def consuming (g : Grammar) (index : Nat) : Bool := g.consumingProductions.getD index false

/-- A match of the node is sure to consume a character. -/
def nodeConsumes (g : Grammar) (i : Nat) : Bool := (g.tree? i).any (Tree.consumes g.consuming)

/-- The rules whose matches are sure to consume a character. -/
def ruleConsumes (g : Grammar) : Rule → Bool := g.ruleBits g.consuming

theorem consuming_eq (defined : g.root? index = some i) : g.consuming index = g.nodeConsumes i :=
  getD_rounds Tree.consumes_mono true defined

/-- The operator of a tree has its bit by those of its branches. -/
theorem consumes_of_layer {consuming : Nat → Bool} {t : Tree}
    (layer : Tree.Layer (fun child body => g.tree? child = some body) i e t) :
    t.consumes consuming = e.consumes (g.ruleBits consuming) := by
  have node {child : Nat} {body : Tree} (part : g.tree? child = some body) :
      g.ruleBits consuming (.expression child) = body.consumes consuming := by
    rw [ruleBits, part, Option.any_some]
  cases layer with
  | @terminal t => cases t <;> rfl
  | reference => rfl
  | action part => exact (node part).symm
  | undo part => exact (node part).symm
  | sequence parts => rw [Tree.consumes, Tree.anyConsumes_eq, Expr.consumes, (Tree.bits_eq parts node).1]
  | choice parts => rw [Tree.consumes, Tree.allConsume_eq, Expr.consumes, (Tree.bits_eq parts node).2]
  | repetition part => rw [Expr.consumes, node part]; rfl
  | lookahead => rfl

/-- A node that is sure to consume is so by its parts. -/
theorem consumes_of_nodeConsumes (present : g.expr? i = some e) (consumes : g.nodeConsumes i = true) :
    e.consumes g.ruleConsumes = true := by
  obtain ⟨t, shown, bit⟩ := (Option.any_eq_true ..).mp consumes
  rw [ruleConsumes, ← consumes_of_layer (layer_of_tree? shown present)]
  exact bit

/-- An expression has its bit by those of its parts. -/
theorem WellFormed.ruleBits_expression {consuming : Nat → Bool} (wellFormed : g.WellFormed) (rooted : g.Rooted i)
    (present : g.expr? i = some e) : g.ruleBits consuming (.expression i) = e.consumes (g.ruleBits consuming) := by
  obtain ⟨t, shown, layer⟩ := wellFormed.layer rooted present
  rw [← consumes_of_layer layer, ruleBits, shown, Option.any_some]

end Grammar

end Packrat
