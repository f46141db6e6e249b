import Packrat.Proofs.Grammar.Trees

/-! # Trees of all nodes

Also a node that no root leads to has a tree, unless it is a part of itself. A tree meets no node twice on the way
down, since the tree of a part is smaller, so that the arena bounds the depth of all trees. So `tree?` follows the arena
layer by layer everywhere, and trees can be compared by induction on their size.
-/

namespace Packrat

/-- The trees of the parts are smaller. -/
theorem Tree.Layer.smaller {branch : Nat → Tree → Prop} {i : Nat} {e : Expr} {t : Tree} (layer : Layer branch i e t) :
    Layer (fun child body => branch child body ∧ sizeOf body < sizeOf t) i e t := by
  have listed {children : List Nat} {items : List Tree} (parts : List.Forall₂ branch children items) :
      List.Forall₂ (fun child body => branch child body ∧ sizeOf body < sizeOf items) children items := by
    induction parts with
    | nil => exact .nil
    | cons head _ ih =>
      refine .cons ⟨head, by simp; omega⟩ (ih.imp fun child body part => ⟨part.1, ?_⟩)
      have smaller := part.2
      simp only [List.cons.sizeOf_spec]
      omega
  cases layer with
  | terminal => exact .terminal
  | reference => exact .reference
  | action part => exact .action ⟨part, by simp⟩
  | undo part => exact .undo ⟨part, by rw [Tree.undo.sizeOf_spec]; omega⟩
  | sequence parts => exact .sequence ((listed parts).imp fun _ _ part => ⟨part.1, by have := part.2; simp; omega⟩)
  | choice parts => exact .choice ((listed parts).imp fun _ _ part => ⟨part.1, by have := part.2; simp; omega⟩)
  | repetition part => exact .repetition ⟨part, by rw [Tree.repetition.sizeOf_spec]; omega⟩
  | lookahead part => exact .lookahead ⟨part, by rw [Tree.lookahead.sizeOf_spec]; omega⟩

namespace Grammar

variable {g : Grammar} {i depth depth' : Nat} {e : Expr} {t t' : Tree}

theorem unfold_mono (shown : g.unfold depth i = some t) (le : depth ≤ depth') : g.unfold depth' i = some t := by
  induction le with
  | refl => exact shown
  | step _ ih => exact unfold_succ ih

theorem unfold_unique (shown : g.unfold depth i = some t) (shown' : g.unfold depth' i = some t') : t = t' := by
  have here := unfold_mono shown (Nat.le_max_left depth depth')
  rw [unfold_mono shown' (Nat.le_max_right depth depth')] at here
  exact (Option.some.inj here).symm

theorem lt_size_of_unfold (shown : g.unfold depth i = some t) : i < g.nodes.size := by
  cases depth with
  | zero => cases shown
  | succ depth =>
    obtain ⟨e, present, -⟩ := unfold_succ_eq_some.mp shown
    exact lt_size_of_expr? present

/-- Below the nodes of `path`, whose trees are greater, the rest of the arena is deep enough. -/
private theorem unfold_below {path : List Nat} (distinct : path.Nodup) (shown : g.unfold depth i = some t)
    (greater : ∀ k ∈ path, ∃ above upper, g.unfold above k = some upper ∧ sizeOf t < sizeOf upper)
    (enough : g.nodes.size ≤ depth' + path.length) : g.unfold depth' i = some t := by
  induction depth generalizing i t path depth' with
  | zero => cases shown
  | succ depth ih =>
    obtain ⟨e, present, layer⟩ := unfold_succ_eq_some.mp shown
    have fresh : i ∉ path := by
      intro member
      obtain ⟨above, upper, shown', smaller⟩ := greater i member
      rw [unfold_unique shown shown'] at smaller
      exact Nat.lt_irrefl _ smaller
    have distinct : (i :: path).Nodup := List.nodup_cons.mpr ⟨fresh, distinct⟩
    have inside : (i :: path) ⊆ List.range g.nodes.size := by
      intro k member
      rw [List.mem_range]
      rcases List.mem_cons.mp member with rfl | member
      · exact lt_size_of_unfold shown
      · obtain ⟨above, upper, shown', -⟩ := greater k member
        exact lt_size_of_unfold shown'
    have fits := (distinct.subperm inside).length_le
    rw [List.length_cons, List.length_range] at fits
    obtain ⟨rest, rfl⟩ : ∃ rest, depth' = rest + 1 := Nat.exists_eq_add_one_of_ne_zero (by omega)
    refine unfold_succ_eq_some.mpr ⟨e, present, layer.smaller.mono fun _ part => ?_⟩
    obtain ⟨part, smaller⟩ := part
    refine ih distinct part ?_ (by rw [List.length_cons]; omega)
    intro k member
    rcases List.mem_cons.mp member with rfl | member
    · exact ⟨_, t, shown, smaller⟩
    · obtain ⟨above, upper, shown', greater⟩ := greater k member
      exact ⟨above, upper, shown', Nat.lt_trans smaller greater⟩

/-- The depth of the arena is enough for every tree. -/
theorem tree?_of_unfold (shown : g.unfold depth i = some t) : g.tree? i = some t :=
  unfold_below List.nodup_nil shown nofun (Nat.le_refl _)

/-- A tree is the operator of its node over the trees of the parts. -/
theorem tree?_eq_some_iff : g.tree? i = some t ↔
    ∃ e, g.expr? i = some e ∧ Tree.Layer (fun child body => g.tree? child = some body) i e t := by
  constructor
  · intro shown
    obtain ⟨rest, size⟩ : ∃ rest, g.nodes.size = rest + 1 :=
      Nat.exists_eq_add_one_of_ne_zero (Nat.ne_of_gt (Nat.zero_lt_of_lt (lt_size_of_unfold shown)))
    rw [tree?, size] at shown
    obtain ⟨e, present, layer⟩ := unfold_succ_eq_some.mp shown
    exact ⟨e, present, layer.mono fun _ part => tree?_of_unfold part⟩
  · rintro ⟨e, present, layer⟩
    exact tree?_of_unfold (unfold_succ_eq_some.mpr ⟨e, present, layer⟩)

/-- What holds of a layer if it holds of its branches, holds of every tree. -/
theorem tree?_induction {motive : Nat → Tree → Prop}
    (step : ∀ {i e t}, g.expr? i = some e →
      Tree.Layer (fun child body => g.tree? child = some body ∧ motive child body) i e t → motive i t)
    (shown : g.tree? i = some t) : motive i t := by
  generalize size : sizeOf t = n
  induction n using Nat.strongRecOn generalizing i t with
  | ind n ih =>
    obtain ⟨e, present, layer⟩ := tree?_eq_some_iff.mp shown
    refine step present (layer.smaller.mono fun _ part => ⟨part.1, ?_⟩)
    exact ih _ (size ▸ part.2) part.1 rfl

end Grammar

end Packrat
