import Packrat.Proofs.Grammar.WellFormed

/-! # Trees of a grammar

A tree follows the arena layer by layer: its root is the operator of its node, and its branches are
the trees of the parts. In a well-formed grammar every node below a root has a tree, so what the
analyses say of trees can be said of nodes (`WellFormed.layer`).
-/

namespace Packrat

/-- The tree `t` of the node `i` with the expression `e`, where `branch` relates parts to their trees. -/
inductive Tree.Layer (branch : Nat → Tree → Prop) (i : Nat) : Expr → Tree → Prop
  | terminal {t : Terminal} : Layer branch i (.terminal t) (.terminal i t)
  | reference {target : Nat} {memo : Bool} :
      Layer branch i (.reference target memo) (.reference i target memo)
  | action {child : Nat} {name : String} {bound : Bool} {body : Tree} (part : branch child body) :
      Layer branch i (.action child name bound) (.action i name bound body)
  | undo {child : Nat} {body : Tree} (part : branch child body) : Layer branch i (.undo child) (.undo i body)
  | sequence {children : List Nat} {items : List Tree} (parts : List.Forall₂ branch children items) :
      Layer branch i (.sequence children) (.sequence i items)
  | choice {children : List Nat} {items : List Tree} (parts : List.Forall₂ branch children items) :
      Layer branch i (.choice children) (.choice i items)
  | repetition {child min max : Nat} {body : Tree} (part : branch child body) :
      Layer branch i (.repetition child min max) (.repetition i min max body)
  | lookahead {child : Nat} {sign : Lookahead} {body : Tree} (part : branch child body) :
      Layer branch i (.lookahead child sign) (.lookahead i sign body)

private theorem forall₂_mono {branch branch' : Nat → Tree → Prop} {children : List Nat} {items : List Tree}
    (parts : List.Forall₂ branch children items)
    (le : ∀ {child body}, child ∈ children → branch child body → branch' child body) :
    List.Forall₂ branch' children items := by
  induction parts with
  | nil => exact .nil
  | cons head _ ih =>
    exact .cons (le (List.mem_cons_self ..) head) (ih fun member => le (List.mem_cons_of_mem _ member))

theorem Tree.Layer.mono {branch branch' : Nat → Tree → Prop} {i : Nat} {e : Expr} {t : Tree}
    (layer : Layer branch i e t)
    (le : ∀ {child body}, child ∈ e.children → branch child body → branch' child body) :
    Layer branch' i e t := by
  cases layer with
  | terminal => exact .terminal
  | reference => exact .reference
  | action part => exact .action (le (List.mem_singleton_self _) part)
  | undo part => exact .undo (le (List.mem_singleton_self _) part)
  | sequence parts => exact .sequence (forall₂_mono parts le)
  | choice parts => exact .choice (forall₂_mono parts le)
  | repetition part => exact .repetition (le (List.mem_singleton_self _) part)
  | lookahead part => exact .lookahead (le (List.mem_singleton_self _) part)

theorem Tree.exists_related {α β : Type} {related : α → β → Prop} {xs : List α} {ys : List β} {x : α}
    (pairs : List.Forall₂ related xs ys) (member : x ∈ xs) : ∃ y ∈ ys, related x y := by
  induction pairs with
  | nil => cases member
  | cons head _ ih =>
    rcases List.mem_cons.mp member with rfl | member
    · exact ⟨_, List.mem_cons_self .., head⟩
    · obtain ⟨y, listed, here⟩ := ih member
      exact ⟨y, List.mem_cons_of_mem _ listed, here⟩

theorem Tree.Layer.exists_branch {branch : Nat → Tree → Prop} {i child : Nat} {e : Expr} {t : Tree}
    (layer : Layer branch i e t) (member : child ∈ e.children) : ∃ body, branch child body := by
  cases layer with
  | terminal => cases member
  | reference => cases member
  | action part | undo part | repetition part | lookahead part =>
    rw [List.mem_singleton.mp member]
    exact ⟨_, part⟩
  | sequence parts | choice parts =>
    obtain ⟨body, -, part⟩ := exists_related parts member
    exact ⟨body, part⟩

/-- Bits of parts and of their trees agree all over a list if they agree one by one. -/
theorem Tree.bits_eq {branch : Nat → Tree → Prop} {node : Nat → Bool} {tree : Tree → Bool}
    {children : List Nat} {items : List Tree} (parts : List.Forall₂ branch children items)
    (same : ∀ {child body}, branch child body → node child = tree body) :
    children.any node = items.any tree ∧ children.all node = items.all tree := by
  induction parts with
  | nil => exact ⟨rfl, rfl⟩
  | cons head _ ih => simp only [List.any_cons, List.all_cons, same head, ih, and_self]

namespace Grammar

variable {g : Grammar} {problems : Problems} {i depth : Nat} {e : Expr} {t : Tree}

private theorem mapM_eq_some {f : Nat → Option Tree} {children : List Nat} {items : List Tree} :
    children.mapM f = some items ↔ List.Forall₂ (fun child t => f child = some t) children items := by
  induction children generalizing items with
  | nil => simp [eq_comm]
  | cons child rest ih =>
    simp only [List.mapM_cons, Option.bind_eq_bind, Option.bind_eq_some_iff, Option.pure_def,
      Option.some.injEq, List.forall₂_cons_left_iff, ih]
    constructor
    · rintro ⟨t, head, ts, tail, rfl⟩
      exact ⟨t, ts, head, tail, rfl⟩
    · rintro ⟨t, ts, head, tail, rfl⟩
      exact ⟨t, head, ts, tail, rfl⟩

theorem unfold_succ_eq_some : g.unfold (depth + 1) i = some t ↔
    ∃ e, g.expr? i = some e ∧ Tree.Layer (fun child body => g.unfold depth child = some body) i e t := by
  simp only [unfold, Option.bind_eq_bind, Option.bind_eq_some_iff]
  refine exists_congr fun e => and_congr_right fun _ => ?_
  constructor
  · intro shown
    cases e with
    | terminal => cases shown; exact .terminal
    | reference => cases shown; exact .reference
    | action =>
      obtain ⟨body, part, same⟩ := Option.bind_eq_some_iff.mp shown
      cases same
      exact .action part
    | undo =>
      obtain ⟨body, part, same⟩ := Option.bind_eq_some_iff.mp shown
      cases same
      exact .undo part
    | sequence =>
      obtain ⟨items, parts, same⟩ := Option.bind_eq_some_iff.mp shown
      cases same
      exact .sequence (mapM_eq_some.mp parts)
    | choice =>
      obtain ⟨items, parts, same⟩ := Option.bind_eq_some_iff.mp shown
      cases same
      exact .choice (mapM_eq_some.mp parts)
    | repetition =>
      obtain ⟨body, part, same⟩ := Option.bind_eq_some_iff.mp shown
      cases same
      exact .repetition part
    | lookahead =>
      obtain ⟨body, part, same⟩ := Option.bind_eq_some_iff.mp shown
      cases same
      exact .lookahead part
  · intro layer
    cases layer with
    | terminal => rfl
    | reference => rfl
    | action part => exact Option.bind_eq_some_iff.mpr ⟨_, part, rfl⟩
    | undo part => exact Option.bind_eq_some_iff.mpr ⟨_, part, rfl⟩
    | sequence parts => exact Option.bind_eq_some_iff.mpr ⟨_, mapM_eq_some.mpr parts, rfl⟩
    | choice parts => exact Option.bind_eq_some_iff.mpr ⟨_, mapM_eq_some.mpr parts, rfl⟩
    | repetition part => exact Option.bind_eq_some_iff.mpr ⟨_, part, rfl⟩
    | lookahead part => exact Option.bind_eq_some_iff.mpr ⟨_, part, rfl⟩

/-- Problems are not part of a tree. -/
theorem unfold_with_problems : { g with problems }.unfold = g.unfold := by
  funext depth
  induction depth with
  | zero => rfl
  | succ depth ih =>
    funext i
    simp only [unfold]
    rw [ih]
    rfl

theorem unfold_succ (shown : g.unfold depth i = some t) : g.unfold (depth + 1) i = some t := by
  induction depth generalizing i t with
  | zero => cases shown
  | succ depth ih =>
    obtain ⟨e, present, layer⟩ := unfold_succ_eq_some.mp shown
    exact unfold_succ_eq_some.mpr ⟨e, present, layer.mono fun _ => ih⟩

/-- Parts that all have trees give a tree. -/
theorem exists_layer {branch : Nat → Tree → Prop} (i : Nat)
    (parts : ∀ child ∈ e.children, ∃ body, branch child body) : ∃ t, Tree.Layer branch i e t := by
  have items {children : List Nat} (parts : ∀ child ∈ children, ∃ body, branch child body) :
      ∃ items, List.Forall₂ branch children items := by
    induction children with
    | nil => exact ⟨[], .nil⟩
    | cons child rest ih =>
      obtain ⟨body, head⟩ := parts child (List.mem_cons_self ..)
      obtain ⟨items, tail⟩ := ih fun c member => parts c (List.mem_cons_of_mem _ member)
      exact ⟨body :: items, .cons head tail⟩
  cases e with
  | terminal => exact ⟨_, .terminal⟩
  | reference => exact ⟨_, .reference⟩
  | action child =>
    obtain ⟨body, part⟩ := parts child (List.mem_singleton_self _)
    exact ⟨_, .action part⟩
  | undo child =>
    obtain ⟨body, part⟩ := parts child (List.mem_singleton_self _)
    exact ⟨_, .undo part⟩
  | sequence children =>
    obtain ⟨items, parts⟩ := items parts
    exact ⟨_, .sequence parts⟩
  | choice children =>
    obtain ⟨items, parts⟩ := items parts
    exact ⟨_, .choice parts⟩
  | repetition child =>
    obtain ⟨body, part⟩ := parts child (List.mem_singleton_self _)
    exact ⟨_, .repetition part⟩
  | lookahead child =>
    obtain ⟨body, part⟩ := parts child (List.mem_singleton_self _)
    exact ⟨_, .lookahead part⟩

/-- A tree is the operator of its node over the trees of the parts. -/
theorem layer_of_tree? (shown : g.tree? i = some t) (present : g.expr? i = some e) :
    Tree.Layer (fun child body => g.tree? child = some body) i e t := by
  obtain ⟨size, room⟩ : ∃ size, g.nodes.size = size + 1 :=
    Nat.exists_eq_add_one_of_ne_zero (by have := lt_size_of_expr? present; omega)
  rw [tree?, room] at shown
  obtain ⟨e', present', layer⟩ := unfold_succ_eq_some.mp shown
  cases present.symm.trans present'
  refine layer.mono fun _ part => ?_
  rw [tree?, room]
  exact unfold_succ part

/-- What is left of the arena beside the path to a node is deep enough for its tree. -/
private theorem exists_unfold (wellFormed : g.WellFormed) {path : List Nat} (rooted : g.Rooted i)
    (ancestry : Ancestry g i path) (enough : g.nodes.size ≤ depth + path.length) :
    ∃ t, g.unfold depth i = some t := by
  induction depth generalizing i path with
  | zero =>
    have := ancestry.length_lt
    omega
  | succ depth ih =>
    obtain ⟨e, present⟩ := wellFormed.expr?_rooted rooted
    obtain ⟨node, here, rfl⟩ := node_of_expr? present
    have parts : ∀ child ∈ node.expr.children, ∃ body, g.unfold depth child = some body := by
      intro child member
      obtain ⟨part, found, inside, -⟩ := wellFormed.part here member
      refine ih (.part rooted here member) (.part found inside ancestry) ?_
      rw [List.length_cons]
      omega
    obtain ⟨t, layer⟩ := exists_layer i parts
    exact ⟨t, unfold_succ_eq_some.mpr ⟨_, present, layer⟩⟩

namespace WellFormed

variable (wellFormed : g.WellFormed)

include wellFormed

theorem exists_tree? (rooted : g.Rooted i) : ∃ t, g.tree? i = some t := by
  obtain ⟨path, ancestry⟩ := wellFormed.ancestry rooted
  exact exists_unfold wellFormed rooted ancestry (Nat.le_add_right _ _)

/-- Below a root every node has a tree, with the trees of its parts as branches. -/
theorem layer (rooted : g.Rooted i) (present : g.expr? i = some e) :
    ∃ t, g.tree? i = some t ∧ Tree.Layer (fun child body => g.tree? child = some body) i e t := by
  obtain ⟨t, shown⟩ := wellFormed.exists_tree? rooted
  exact ⟨t, shown, layer_of_tree? shown present⟩

/-- What holds of every layer if it holds of the branches, holds of every tree below a root. -/
theorem tree_induction {motive : Nat → Tree → Prop}
    (step : ∀ {i e t}, g.Rooted i → g.expr? i = some e →
      Tree.Layer (fun child body => g.tree? child = some body ∧ motive child body) i e t → motive i t)
    (rooted : g.Rooted i) (shown : g.tree? i = some t) : motive i t := by
  obtain ⟨path, ancestry⟩ := wellFormed.ancestry rooted
  -- The nodes that are not on the path to a root become fewer on the way down.
  obtain ⟨free, enough⟩ : ∃ free, g.nodes.size ≤ free + path.length := ⟨g.nodes.size, Nat.le_add_right _ _⟩
  induction free generalizing i path t with
  | zero =>
    have := ancestry.length_lt
    omega
  | succ free ih =>
    obtain ⟨e, present⟩ := wellFormed.expr?_rooted rooted
    obtain ⟨node, here, rfl⟩ := node_of_expr? present
    obtain ⟨t', shown', layer⟩ := wellFormed.layer rooted present
    cases shown.symm.trans shown'
    refine step rooted present (layer.mono fun member branch => ⟨branch, ?_⟩)
    obtain ⟨part, found, inside, -⟩ := wellFormed.part here member
    refine ih (.part rooted here member) branch _ (.part found inside ancestry) ?_
    rw [List.length_cons]
    omega

/-- What holds of every node if it holds of its parts, holds of every node within reach. -/
theorem rooted_induction {motive : Nat → Prop}
    (step : ∀ {i e}, g.Rooted i → g.expr? i = some e → (∀ child ∈ e.children, motive child) → motive i)
    (rooted : g.Rooted i) : motive i := by
  obtain ⟨t, shown⟩ := wellFormed.exists_tree? rooted
  refine wellFormed.tree_induction (motive := fun i _ => motive i) ?_ rooted shown
  intro i e t rooted present layer
  apply step rooted present
  intro child member
  obtain ⟨body, -, holds⟩ := layer.exists_branch member
  exact holds

end WellFormed

/-- The table of the productions, seen through their trees. -/
theorem rootTrees_getElem? (index : Nat) :
    g.rootTrees[index]? = (g.root? index).map g.tree? := by
  simp [rootTrees, root?, Function.comp_def]

end Grammar

end Packrat
