import Packrat.Proofs.Grammar.WellFormed

/-! # Where actions can be left behind

An expression acts if it can come upon an action of the grammar that no lookahead encloses. A sequence
with an element that acts before its last one may fail when the action is done already, and a lookahead
with a body that acts may fail because the body matches: these are exposed. In a sheltered grammar every
exposed node stands right inside an action or an undo scope, which takes the changes back.
-/

namespace Packrat

/-- The parts of an expression whose actions count as its own. -/
def Expr.openChildren : Expr → List Nat
  | .lookahead .. => []
  | e => e.children

namespace Grammar

variable {g : Grammar} {i child target root : Nat} {e : Expr}

/-- The node can come upon an action. -/
inductive Acts (g : Grammar) : Nat → Prop
  | action {i child : Nat} {name : String} {bound : Bool}
      (present : g.expr? i = some (.action child name bound)) : Acts g i
  | part {i child : Nat} {e : Expr} (present : g.expr? i = some e) (member : child ∈ e.openChildren)
      (acts : Acts g child) : Acts g i
  | reference {i target root : Nat} {memo : Bool} (present : g.expr? i = some (.reference target memo))
      (defined : g.root? target = some root) (acts : Acts g root) : Acts g i

/-- The node can come upon an action or an undo scope. -/
inductive Modifies (g : Grammar) : Nat → Prop
  | action {i : Nat} {e : Expr} (present : g.expr? i = some e) (acts : e.isAction = true) : Modifies g i
  | part {i child : Nat} {e : Expr} (present : g.expr? i = some e) (member : child ∈ e.openChildren)
      (modifies : Modifies g child) : Modifies g i
  | reference {i target root : Nat} {memo : Bool} (present : g.expr? i = some (.reference target memo))
      (defined : g.root? target = some root) (modifies : Modifies g root) : Modifies g i

/-- The production can come upon an action. -/
def ProductionActs (g : Grammar) (index : Nat) : Prop := ∃ root, g.root? index = some root ∧ g.Acts root

/-- The node can fail with an action done in it. -/
def Exposed (g : Grammar) (i : Nat) : Prop :=
  (∃ children, g.expr? i = some (.sequence children) ∧ ∃ child ∈ children.dropLast, g.Acts child) ∨
    ∃ child sign, g.expr? i = some (.lookahead child sign) ∧ g.Acts child

/-- The node is reached from a root, and no action or undo scope is right around it. -/
inductive Open (g : Grammar) : Nat → Prop
  | root {index i : Nat} (defined : g.root? index = some i) : Open g i
  | part {i child : Nat} {e : Expr} (rooted : g.Rooted i) (present : g.expr? i = some e)
      (plain : e.isAction = false) (member : child ∈ e.children) : Open g child

/-- Exposed nodes stand right inside an action or an undo scope. -/
def Sheltered (g : Grammar) : Prop := ∀ {i : Nat}, g.Open i → ¬ g.Exposed i

/-- No body of `&e`, and no body of a repetition that must match twice, acts. -/
structure Quiet (g : Grammar) : Prop where
  lookahead : ∀ {i child : Nat}, g.Rooted i → g.expr? i = some (.lookahead child .present) → ¬ g.Acts child
  repetition : ∀ {i child min max : Nat}, g.Rooted i → g.expr? i = some (.repetition child min max) →
    2 ≤ min → ¬ g.Acts child

theorem Acts.modifies (acts : g.Acts i) : g.Modifies i := by
  induction acts with
  | action present => exact .action present rfl
  | part present member _ ih => exact .part present member ih
  | reference present defined _ ih => exact .reference present defined ih

theorem Open.rooted (isOpen : g.Open i) : g.Rooted i := by
  cases isOpen with
  | root defined => exact .root defined
  | part rooted present _ member => exact rooted.child present member

theorem Rooted.isOpen (rooted : g.Rooted i)
    (free : ∀ {j : Nat} {e : Expr}, g.expr? j = some e → e.isAction = true → i ∉ e.children) : g.Open i := by
  cases rooted with
  | root defined => exact .root defined
  | part rooted present member =>
    refine .part rooted (expr?_of_node present) (Bool.eq_false_iff.mpr fun scope => ?_) member
    exact free (expr?_of_node present) scope member

/-- Whatever its body does, a lookahead does not count as acting. -/
theorem not_acts_lookahead {sign : Lookahead} (present : g.expr? i = some (.lookahead child sign)) : ¬ g.Acts i := by
  intro acts
  cases acts with
  | action present' => cases present.symm.trans present'
  | part present' member =>
    cases present.symm.trans present'
    cases member
  | reference present' => cases present.symm.trans present'

end Grammar

end Packrat
