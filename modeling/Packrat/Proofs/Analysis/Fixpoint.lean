import Packrat.Proofs.Grammar.Trees
import Mathlib.Data.List.Basic
import Mathlib.Data.List.Forall2
import Mathlib.Logic.Function.Iterate

/-! # Rounds that come to rest

The analyses of a grammar hold a bit for every production and compute all bits anew from the trees of
the productions, round after round. A bit that a round takes away never comes back, so as many rounds
as there are bits are enough: one more round changes nothing (`rounds_stable`). A production then has its
bit exactly if its right-hand side has it by the bits of all productions (`getD_rounds`).
-/

namespace Packrat

/-- `xs` has the bit only where `ys` has it. -/
def Loses (bit : Bool) (xs ys : List Bool) : Prop := List.Forall₂ (fun x y => x = bit → y = bit) xs ys

namespace Loses

variable {bit : Bool} {xs ys : List Bool}

theorem count_le (loses : Loses bit xs ys) :
    xs.count bit ≤ ys.count bit ∧ (xs.count bit = ys.count bit → xs = ys) := by
  induction loses with
  | nil => exact ⟨Nat.le_refl _, fun _ => rfl⟩
  | @cons x y xs ys head _ ih =>
    obtain ⟨le, same⟩ := ih
    simp only [List.count_cons, List.cons.injEq, beq_iff_eq]
    by_cases left : x = bit
    · simp only [left, head left, ↓reduceIte, true_and]
      exact ⟨by omega, fun equal => same (by omega)⟩
    · by_cases right : y = bit
      · simp only [left, right, ↓reduceIte]
        exact ⟨by omega, fun equal => by omega⟩
      · have both : x = y := by
          rw [Bool.eq_not_of_ne left, Bool.eq_not_of_ne right]
        simp only [right, ↓reduceIte, both, true_and]
        exact ⟨by omega, fun equal => same (by omega)⟩

theorem count_lt (loses : Loses bit xs ys) (changed : xs ≠ ys) : xs.count bit < ys.count bit := by
  obtain ⟨le, same⟩ := loses.count_le
  exact Nat.lt_of_le_of_ne le fun equal => changed (same equal)

theorem replicate (length : xs.length = ys.length) (full : ∀ y ∈ ys, y = bit) : Loses bit xs ys := by
  induction xs generalizing ys with
  | nil => rw [List.length_nil, eq_comm, List.length_eq_zero_iff] at length; subst length; exact .nil
  | cons x xs ih =>
    cases ys with
    | nil => cases length
    | cons y ys =>
      refine .cons (fun _ => full y (List.mem_cons_self ..)) (ih (Nat.succ.inj length) ?_)
      exact fun z member => full z (List.mem_cons_of_mem _ member)

theorem false_iff : Loses false xs ys ↔ Loses true ys xs := by
  constructor
  · intro loses
    refine List.Forall₂.flip (loses.imp fun x y implied has => ?_)
    cases x with
    | true => rfl
    | false => exact absurd has (by rw [implied rfl]; decide)
  · intro loses
    refine List.Forall₂.flip (loses.imp fun y x implied lacks => ?_)
    cases y with
    | false => rfl
    | true => exact absurd lacks (by rw [implied rfl]; decide)

theorem getD (loses : Loses bit xs ys) (i : Nat) (d : Bool) (has : xs.getD i d = bit) : ys.getD i d = bit := by
  induction loses generalizing i with
  | nil => exact has
  | cons head _ ih =>
    cases i with
    | zero => exact head has
    | succ i => exact ih i has

end Loses

/-- A step that keeps bits lost comes to rest after as many rounds as there are bits. -/
theorem iterate_stable (bit : Bool) {step : List Bool → List Bool} {start : List Bool} {rounds : Nat}
    (mono : ∀ {xs ys}, Loses bit xs ys → Loses bit (step xs) (step ys)) (loses : Loses bit (step start) start)
    (enough : start.count bit ≤ rounds) : step (step^[rounds] start) = step^[rounds] start := by
  induction rounds generalizing start with
  | zero =>
    by_contra changed
    have := loses.count_lt changed
    omega
  | succ rounds ih =>
    by_cases rest : step start = start
    · rw [Function.iterate_fixed rest, rest]
    · rw [Function.iterate_succ_apply]
      have := loses.count_lt rest
      exact ih (mono loses) (by omega)

namespace Grammar

variable {g : Grammar} {judge : (Nat → Bool) → Tree → Bool} {index i : Nat}

/-- The productions whose trees `judge` accepts, by the bits of the round before. -/
def treeRound (judge : (Nat → Bool) → Tree → Bool) (trees : List (Option Tree)) (bits : List Bool) : List Bool :=
  trees.map fun tree => tree.any (judge fun i => bits.getD i false)

/-- The bits after one round for each production, from the same bit for all. -/
def rounds (g : Grammar) (judge : (Nat → Bool) → Tree → Bool) (bit : Bool) : List Bool :=
  (List.range g.productions.size).foldl (fun bits _ => treeRound judge g.rootTrees bits)
    (g.productions.toList.map fun _ => bit)

/-- What `judge` accepts by some bits, it accepts by more. -/
def Ascending (judge : (Nat → Bool) → Tree → Bool) : Prop :=
  ∀ {bits more : Nat → Bool}, (∀ i, bits i = true → more i = true) → ∀ t, judge bits t = true → judge more t = true

theorem treeRound_mono {bit : Bool} {trees : List (Option Tree)} {xs ys : List Bool} (mono : Ascending judge)
    (loses : Loses bit xs ys) : Loses bit (treeRound judge trees xs) (treeRound judge trees ys) := by
  have rise {xs ys : List Bool} (loses : Loses true xs ys) :
      Loses true (treeRound judge trees xs) (treeRound judge trees ys) := by
    refine List.forall₂_map_left_iff.mpr (List.forall₂_map_right_iff.mpr (List.forall₂_same.mpr ?_))
    intro tree _ holds
    cases tree with
    | none => exact holds
    | some t => exact mono (fun i => loses.getD i false) t holds
  cases bit with
  | true => exact rise loses
  | false => exact Loses.false_iff.mpr (rise (Loses.false_iff.mp loses))

/-- One more round changes no bit. -/
theorem rounds_stable (mono : Ascending judge) (bit : Bool) :
    treeRound judge g.rootTrees (g.rounds judge bit) = g.rounds judge bit := by
  rw [rounds, List.foldl_const, List.length_range]
  refine iterate_stable bit (treeRound_mono mono) (.replicate ?_ ?_) ?_
  · simp [treeRound, rootTrees]
  · intro b member
    obtain ⟨-, -, rfl⟩ := List.mem_map.mp member
    rfl
  · simp

/-- A production has the bit of its right-hand side. -/
theorem getD_rounds (mono : Ascending judge) (bit : Bool) (defined : g.root? index = some i) :
    (g.rounds judge bit).getD index false =
      (g.tree? i).any (judge fun target => (g.rounds judge bit).getD target false) := by
  have bits := congrArg (·.getD index false) (rounds_stable (g := g) mono bit)
  simp only [treeRound, List.getD_eq_getElem?_getD, List.getElem?_map, rootTrees_getElem?, defined,
    Option.map_some, Option.getD_some] at bits
  simp only [List.getD_eq_getElem?_getD, ← bits]

end Grammar

end Packrat
