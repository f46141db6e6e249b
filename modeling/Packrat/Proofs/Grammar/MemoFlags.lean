import Packrat.Proofs.Grammar.Actions

/-! # Grammars that differ in what is remembered

Clearing the memo flags of all references gives a plain grammar. Two grammars with the same plain
grammar have the same productions, and their nodes have the same places, parts and operators apart
from the flags; so they are well formed, sheltered and quiet together.
-/

namespace Packrat

/-- The expression with its memo flag cleared, if it is a reference. -/
def Expr.plain : Expr → Expr
  | .reference target _ => .reference target false
  | e => e

namespace Expr

variable {e e' : Expr}

@[simp] theorem children_plain : e.plain.children = e.children := by
  cases e <;> rfl

@[simp] theorem openChildren_plain : e.plain.openChildren = e.openChildren := by
  cases e <;> rfl

@[simp] theorem isAction_plain : e.plain.isAction = e.isAction := by
  cases e <;> rfl

theorem plain_reference {target : Nat} {memo : Bool} (same : e.plain = (Expr.reference target memo).plain) :
    ∃ memo', e = .reference target memo' := by
  cases e with
  | reference target' memo' =>
    cases same
    exact ⟨memo', rfl⟩
  | _ => cases same

/-- Other expressions are told by their plain form. -/
theorem eq_of_plain (same : e.plain = e'.plain) (other : ∀ target memo, e' ≠ .reference target memo) : e = e' := by
  cases e' with
  | reference target memo => exact absurd rfl (other target memo)
  | _ =>
    cases e with
    | reference => cases same
    | _ => exact same

end Expr

/-- The node with its memo flag cleared, if it is a reference. -/
def Node.plain (node : Node) : Node := { node with expr := node.expr.plain }

/-- The flag is no link. -/
theorem Node.links_of_plain {node node' : Node} (same : node'.plain = node.plain) :
    node'.parent = node.parent ∧ node'.owner = node.owner ∧ node'.expr.children = node.expr.children := by
  have parent := congrArg Node.parent same
  have owner := congrArg Node.owner same
  have children := congrArg (·.expr.children) same
  simp only [Node.plain, Expr.children_plain] at parent owner children
  exact ⟨parent, owner, children⟩

namespace Grammar

/-- The grammar with all memo flags cleared. -/
def plain (g : Grammar) : Grammar := { g with nodes := g.nodes.map Node.plain }

/-- The grammars differ in memo flags only. -/
def SameButMemo (g g' : Grammar) : Prop := g.plain = g'.plain

variable {g g' : Grammar} {i index : Nat} {e : Expr}

@[simp] theorem root?_plain : g.plain.root? index = g.root? index := rfl

@[simp] theorem expr?_plain : g.plain.expr? i = (g.expr? i).map Expr.plain := by
  simp [expr?, plain, Function.comp_def, Node.plain]

theorem sameButMemo_setMemo (g : Grammar) (i : Nat) (memo : Bool) : g.SameButMemo (g.setMemo i memo) := by
  have nodes : g.nodes.map Node.plain = (g.setMemo i memo).nodes.map Node.plain := by
    refine Array.ext_getElem? fun j => ?_
    simp only [setMemo, modifyNode, Array.getElem?_map, Array.getElem?_modify]
    split
    · rw [Option.map_map]
      congr 1
      funext node
      rcases node with ⟨⟨⟩, owner, parent, span⟩ <;> rfl
    · rfl
  exact congrArg (fun nodes => { g with nodes }) nodes

theorem sameButMemo_injectMemo (g : Grammar) : g.SameButMemo g.injectMemo.2 := by
  have nodes : g.nodes.map Node.plain = g.injectMemo.2.nodes.map Node.plain := by
    simp only [injectMemo, Array.map_map]
    congr 1
    funext node
    rcases node with ⟨⟨⟩, owner, parent, span⟩ <;> rfl
  exact congrArg (fun nodes => { g with nodes }) nodes

namespace SameButMemo

theorem symm (same : g.SameButMemo g') : g'.SameButMemo g := Eq.symm same

theorem productions (same : g.SameButMemo g') : g'.productions = g.productions :=
  (congrArg Grammar.productions same).symm

theorem root? (same : g.SameButMemo g') : g'.root? index = g.root? index := by
  rw [Grammar.root?, same.productions, Grammar.root?]

theorem node {node : Node} (same : g.SameButMemo g') (here : g'.nodes[i]? = some node) :
    ∃ node', g.nodes[i]? = some node' ∧ node'.plain = node.plain := by
  have nodes := congrArg (·.nodes[i]?) same
  simp only [plain, Array.getElem?_map, here, Option.map_some, Option.map_eq_some_iff] at nodes
  exact nodes

theorem expr? (same : g.SameButMemo g') (present : g'.expr? i = some e) :
    ∃ e', g.expr? i = some e' ∧ e'.plain = e.plain := by
  obtain ⟨node, here, rfl⟩ := node_of_expr? present
  obtain ⟨node', here', plain⟩ := same.node here
  exact ⟨node'.expr, expr?_of_node here', congrArg Node.expr plain⟩

theorem rooted (same : g.SameButMemo g') (rooted : g'.Rooted i) : g.Rooted i := by
  induction rooted with
  | root defined => exact .root (same.root? ▸ defined)
  | part _ present member ih =>
    obtain ⟨e, before, plain⟩ := same.expr? (expr?_of_node present)
    refine ih.child before ?_
    rwa [← Expr.children_plain, plain, Expr.children_plain]

theorem wellFormed (same : g.SameButMemo g') (wellFormed : g.WellFormed) : g'.WellFormed := by
  constructor
  case index =>
    intro index p found
    exact wellFormed.index (same.productions ▸ found)
  case root =>
    intro index p found
    obtain ⟨before, here, top, owned⟩ := wellFormed.root (same.productions ▸ found)
    obtain ⟨node, here, plain⟩ := same.symm.node here
    obtain ⟨parent, owner, -⟩ := Node.links_of_plain plain
    exact ⟨node, here, parent.trans top, owner.trans owned⟩
  case part =>
    intro i child node here member
    obtain ⟨before, found, plain⟩ := same.node here
    obtain ⟨-, owner, children⟩ := Node.links_of_plain plain
    obtain ⟨part, inside, top, owned⟩ := wellFormed.part found (children ▸ member)
    obtain ⟨part', inside, plain⟩ := same.symm.node inside
    obtain ⟨parent', owner', -⟩ := Node.links_of_plain plain
    exact ⟨part', inside, parent'.trans top, owner'.trans (owned.trans owner)⟩
  case owner =>
    intro i node here
    obtain ⟨before, found, plain⟩ := same.node here
    rw [same.productions, ← (Node.links_of_plain plain).2.1]
    exact wellFormed.owner found
  case target =>
    intro i target memo present
    obtain ⟨e, before, plain⟩ := same.expr? present
    obtain ⟨memo', rfl⟩ := Expr.plain_reference plain
    rw [same.productions]
    exact wellFormed.target before
  case distinct =>
    intro i node rooted here
    obtain ⟨before, found, plain⟩ := same.node here
    rw [← (Node.links_of_plain plain).2.2]
    exact wellFormed.distinct (same.rooted rooted) found

theorem acts (same : g.SameButMemo g') (acts : g'.Acts i) : g.Acts i := by
  induction acts with
  | action present =>
    obtain ⟨e, before, plain⟩ := same.expr? present
    cases Expr.eq_of_plain plain nofun
    exact .action before
  | part present member _ ih =>
    obtain ⟨e, before, plain⟩ := same.expr? present
    refine .part before ?_ ih
    rwa [← Expr.openChildren_plain, plain, Expr.openChildren_plain]
  | reference present defined _ ih =>
    obtain ⟨e, before, plain⟩ := same.expr? present
    obtain ⟨memo, rfl⟩ := Expr.plain_reference plain
    exact .reference before (same.root? ▸ defined) ih

theorem sheltered (same : g.SameButMemo g') (sheltered : g.Sheltered) : g'.Sheltered := by
  intro i isOpen exposed
  refine sheltered (i := i) ?_ ?_
  · cases isOpen with
    | root defined => exact .root (same.root? ▸ defined)
    | part rooted present plain member =>
      obtain ⟨e, before, plainly⟩ := same.expr? present
      refine .part (same.rooted rooted) before ?_ ?_
      · rwa [← Expr.isAction_plain, plainly, Expr.isAction_plain]
      · rwa [← Expr.children_plain, plainly, Expr.children_plain]
  · rcases exposed with ⟨children, present, child, member, acts⟩ | ⟨child, sign, present, acts⟩
    · obtain ⟨e, before, plain⟩ := same.expr? present
      cases Expr.eq_of_plain plain nofun
      exact .inl ⟨children, before, child, member, same.acts acts⟩
    · obtain ⟨e, before, plain⟩ := same.expr? present
      cases Expr.eq_of_plain plain nofun
      exact .inr ⟨child, sign, before, same.acts acts⟩

theorem quiet (same : g.SameButMemo g') (quiet : g.Quiet) : g'.Quiet := by
  constructor
  · intro i child rooted present acts
    obtain ⟨e, before, plain⟩ := same.expr? present
    cases Expr.eq_of_plain plain nofun
    exact quiet.lookahead (same.rooted rooted) before (same.acts acts)
  · intro i child min max rooted present twice acts
    obtain ⟨e, before, plain⟩ := same.expr? present
    cases Expr.eq_of_plain plain nofun
    exact quiet.repetition (same.rooted rooted) before twice (same.acts acts)

end SameButMemo

end Grammar

end Packrat
