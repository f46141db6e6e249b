import Packrat.Proofs.Analysis.Consuming
import Packrat.Proofs.Analysis.Lowering

/-! # The consuming bits are the greatest stable ones

Bits for the rules of a grammar are stable if every rule has the bit that the rules it is made of give it. The bits of
`consumingProductions` are (`WellFormed.stable_ruleConsumes`), and a rule that has its bit in any stable assignment has
it there (`Stable.le_ruleConsumes`).
-/

namespace Packrat

theorem Expr.consumes_congr {bit bit' : Rule → Bool} {e : Expr}
    (targets : ∀ target memo, e = .reference target memo → bit (.production target) = bit' (.production target))
    (parts : ∀ child ∈ e.children, bit (.expression child) = bit' (.expression child)) :
    e.consumes bit = e.consumes bit' := by
  cases e with
  | terminal | lookahead => rfl
  | reference target memo => exact targets target memo rfl
  | action child | undo child => exact parts child (List.mem_singleton_self _)
  | sequence children =>
    rw [consumes, consumes, Bool.eq_iff_iff, List.any_eq_true, List.any_eq_true]
    exact exists_congr fun child => and_congr_right fun member => by rw [parts child member]
  | choice children =>
    rw [consumes, consumes, Bool.eq_iff_iff, List.all_eq_true, List.all_eq_true]
    exact forall₂_congr fun child member => by rw [parts child member]
  | repetition child => rw [consumes, consumes, parts child (List.mem_singleton_self _)]

namespace Grammar

variable {g : Grammar} {bit : Rule → Bool} {index i : Nat} {e : Expr}

/-- Every rule has the bit that the rules it is made of give it. -/
structure Stable (g : Grammar) (bit : Rule → Bool) : Prop where
  production : ∀ {index i : Nat}, g.root? index = some i → bit (.production index) = bit (.expression i)
  expression : ∀ {i : Nat} {e : Expr}, g.Rooted i → g.expr? i = some e → bit (.expression i) = e.consumes bit

theorem WellFormed.stable_ruleConsumes (wellFormed : g.WellFormed) : g.Stable g.ruleConsumes where
  production := consuming_eq
  expression := wellFormed.ruleBits_expression

/-- Stable bits of expressions come from those of productions. -/
theorem Stable.expression_eq_ruleBits {consuming : Nat → Bool} (stable : g.Stable bit) (wellFormed : g.WellFormed)
    (same : ∀ index < g.productions.size, bit (.production index) = consuming index) (rooted : g.Rooted i) :
    bit (.expression i) = g.ruleBits consuming (.expression i) := by
  refine wellFormed.rooted_induction
    (motive := fun i => bit (.expression i) = g.ruleBits consuming (.expression i)) ?_ rooted
  intro i e rooted present parts
  calc bit (.expression i)
    _ = e.consumes bit := stable.expression rooted present
    _ = e.consumes (g.ruleBits consuming) := by
      refine Expr.consumes_congr (fun target memo reference => ?_) parts
      exact same target (wellFormed.target (reference ▸ present))
    _ = g.ruleBits consuming (.expression i) := (wellFormed.ruleBits_expression rooted present).symm

/-- The bits of the productions, in their order. -/
def productionBits (g : Grammar) (bit : Rule → Bool) : List Bool :=
  (List.range g.productions.size).map fun index => bit (.production index)

theorem length_productionBits : (g.productionBits bit).length = g.productions.size := by
  rw [productionBits, List.length_map, List.length_range]

theorem getD_productionBits (inside : index < g.productions.size) :
    (g.productionBits bit).getD index false = bit (.production index) := by
  rw [productionBits, List.getD_eq_getElem?_getD, List.getElem?_map, List.getElem?_range inside, Option.map_some,
    Option.getD_some]

/-- A round takes no stable bit away. -/
theorem Stable.kept (stable : g.Stable bit) (wellFormed : g.WellFormed) :
    Loses true (g.productionBits bit) (treeRound Tree.consumes g.rootTrees (g.productionBits bit)) := by
  refine Loses.iff_getD.mpr ⟨by simp [treeRound, rootTrees, length_productionBits], fun index has => ?_⟩
  have inside : index < g.productions.size := length_productionBits ▸ lt_length_of_getD has
  obtain ⟨i, defined⟩ := root?_of_lt inside
  calc (treeRound Tree.consumes g.rootTrees (g.productionBits bit)).getD index false
    _ = g.ruleBits (fun index => (g.productionBits bit).getD index false) (.expression i) := by
      rw [getD_treeRound, accepts, rootTree?, defined]
      rfl
    _ = bit (.expression i) :=
      (stable.expression_eq_ruleBits wellFormed (fun _ => Eq.symm ∘ getD_productionBits) (.root defined)).symm
    _ = bit (.production index) := (stable.production defined).symm
    _ = true := (getD_productionBits inside).symm.trans has

/-- No stable bits are above the consuming bits. -/
theorem Stable.le_ruleConsumes (stable : g.Stable bit) (wellFormed : g.WellFormed) :
    (∀ index < g.productions.size, bit (.production index) = true → g.ruleConsumes (.production index) = true) ∧
      ∀ i, g.Rooted i → bit (.expression i) = true → g.ruleConsumes (.expression i) = true := by
  have below (index : Nat) (has : (g.productionBits bit).getD index false = true) : g.consuming index = true :=
    (loses_rounds Tree.consumes_mono length_productionBits (stable.kept wellFormed)).getD index false has
  refine ⟨fun index inside has => below index ((getD_productionBits inside).trans has), fun i rooted has => ?_⟩
  rw [stable.expression_eq_ruleBits wellFormed (fun _ => Eq.symm ∘ getD_productionBits) rooted] at has
  obtain ⟨t, shown, has⟩ := (Option.any_eq_true ..).mp has
  exact (Option.any_eq_true ..).mpr ⟨t, shown, Tree.consumes_mono below t has⟩

end Grammar

end Packrat
