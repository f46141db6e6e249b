import Packrat.Proofs.Analysis.Fixpoint

/-! # Bits lowered in place

Rounds compute all bits anew. The bits can also be lowered one by one: each production in turn loses its bit if its
right-hand side does not have it by the bits as they are then, and passes over the productions go on until one of them
changes nothing. In whatever order the productions are visited, this ends with the bits of the rounds
(`lowered_eq_rounds`), which are the greatest bits that no round takes away (`loses_rounds`).
-/

namespace Packrat

namespace Loses

variable {xs ys zs : List Bool}

theorem iff_getD : Loses true xs ys ↔
    xs.length = ys.length ∧ ∀ i, xs.getD i false = true → ys.getD i false = true := by
  constructor
  · intro loses
    exact ⟨List.Forall₂.length_eq loses, fun i => loses.getD i false⟩
  · rintro ⟨length, le⟩
    refine List.forall₂_iff_get.mpr ⟨length, fun i inside inside' has => ?_⟩
    have there := le i
    simp only [List.getD_eq_getElem?_getD, List.getElem?_eq_getElem inside, List.getElem?_eq_getElem inside',
      Option.getD_some] at there
    exact there has

theorem refl (xs : List Bool) : Loses true xs xs := iff_getD.mpr ⟨rfl, fun _ => id⟩

theorem trans (first : Loses true xs ys) (second : Loses true ys zs) : Loses true xs zs := by
  rw [iff_getD] at *
  exact ⟨first.1.trans second.1, fun i has => second.2 i (first.2 i has)⟩

theorem antisymm (one : Loses true xs ys) (other : Loses true ys xs) : xs = ys :=
  one.count_le.2 (Nat.le_antisymm one.count_le.1 other.count_le.1)

end Loses

theorem lt_length_of_getD {bits : List Bool} {i : Nat} (has : bits.getD i false = true) : i < bits.length := by
  by_contra outside
  rw [List.getD_eq_getElem?_getD, List.getElem?_eq_none (Nat.not_lt.mp outside)] at has
  cases has

namespace Grammar

variable {g : Grammar} {judge : (Nat → Bool) → Tree → Bool} {bits lowest : List Bool} {order : List Nat} {index : Nat}

/-- The production has the bit by these bits. -/
def accepts (g : Grammar) (judge : (Nat → Bool) → Tree → Bool) (bits : List Bool) (index : Nat) : Bool :=
  (g.rootTree? index).any (judge fun i => bits.getD i false)

/-- Takes the bit of the production away if it does not have it by the bits as they are. -/
def lower (g : Grammar) (judge : (Nat → Bool) → Tree → Bool) (bits : List Bool) (index : Nat) : List Bool :=
  if bits.getD index false && !g.accepts judge bits index then bits.set index false else bits

theorem getD_treeRound (judge : (Nat → Bool) → Tree → Bool) (bits : List Bool) (index : Nat) :
    (treeRound judge g.rootTrees bits).getD index false = g.accepts judge bits index := by
  simp only [treeRound, List.getD_eq_getElem?_getD, List.getElem?_map, rootTrees_getElem?, accepts, rootTree?]
  cases g.root? index <;> rfl

private theorem getD_set_false (bits : List Bool) (index i : Nat) :
    (bits.set index false).getD i false = (bits.getD i false && i != index) := by
  simp only [List.getD_eq_getElem?_getD, List.getElem?_set]
  by_cases same : index = i
  · subst same
    rw [if_pos rfl, bne_self_eq_false, Bool.and_false]
    split <;> rfl
  · rw [if_neg same, bne_iff_ne.mpr (Ne.symm same), Bool.and_true]

theorem getD_lower (index i : Nat) : (g.lower judge bits index).getD i false =
    (bits.getD i false && (i != index || g.accepts judge bits index)) := by
  rw [lower]
  split
  · next lost =>
    rw [Bool.and_eq_true, Bool.not_eq_true'] at lost
    rw [getD_set_false, lost.2, Bool.or_false]
  · next stays =>
    by_cases same : i = index
    · subst same
      cases has : bits.getD i false with
      | false => rfl
      | true =>
        rw [has, Bool.true_and, Bool.not_eq_true', Bool.not_eq_false] at stays
        rw [stays, Bool.or_true, Bool.and_true]
    · rw [bne_iff_ne.mpr same, Bool.true_or, Bool.and_true]

theorem loses_lower (bits : List Bool) (index : Nat) : Loses true (g.lower judge bits index) bits := by
  refine Loses.iff_getD.mpr ⟨?_, fun i has => ?_⟩
  · rw [lower]
    split
    · exact List.length_set
    · rfl
  · rw [getD_lower, Bool.and_eq_true] at has
    exact has.1

/-- Bits that no round takes away are not lowered. -/
theorem le_lower (mono : Ascending judge) (kept : Loses true lowest (treeRound judge g.rootTrees lowest))
    (above : Loses true lowest bits) : Loses true lowest (g.lower judge bits index) := by
  refine Loses.iff_getD.mpr ⟨?_, fun i has => ?_⟩
  · exact (List.Forall₂.length_eq above).trans (List.Forall₂.length_eq (loses_lower bits index)).symm
  · have accepted := (treeRound_mono mono above).getD i false (kept.getD i false has)
    rw [getD_treeRound] at accepted
    rw [getD_lower, above.getD i false has, Bool.true_and, Bool.or_eq_true, bne_iff_ne]
    by_cases same : i = index
    · exact .inr (same ▸ accepted)
    · exact .inl same

/-- Lowers the bits of the productions one after the other. -/
def lowerPass (g : Grammar) (judge : (Nat → Bool) → Tree → Bool) (order : List Nat) (bits : List Bool) : List Bool :=
  order.foldl (g.lower judge) bits

theorem loses_pass (order : List Nat) (bits : List Bool) : Loses true (g.lowerPass judge order bits) bits := by
  induction order generalizing bits with
  | nil => exact .refl bits
  | cons index rest ih => exact (ih _).trans (loses_lower bits index)

theorem le_pass (mono : Ascending judge) (kept : Loses true lowest (treeRound judge g.rootTrees lowest))
    (above : Loses true lowest bits) : Loses true lowest (g.lowerPass judge order bits) := by
  induction order generalizing bits with
  | nil => exact above
  | cons index rest ih => exact ih (le_lower mono kept above)

/-- A pass that changes nothing meets no production that loses its bit. -/
theorem lower_of_pass (still : g.lowerPass judge order bits = bits) :
    ∀ index ∈ order, g.lower judge bits index = bits := by
  induction order with
  | nil => exact fun _ => List.not_mem_nil.elim
  | cons first rest ih =>
    change g.lowerPass judge rest (g.lower judge bits first) = bits at still
    have passed : Loses true (g.lowerPass judge rest (g.lower judge bits first)) (g.lower judge bits first) :=
      loses_pass rest _
    rw [still] at passed
    have same : g.lower judge bits first = bits := (loses_lower bits first).antisymm passed
    rw [same] at still
    exact List.forall_mem_cons.mpr ⟨same, ih still⟩

/-- The bits lowered in this order until a pass changes nothing. -/
def lowered (g : Grammar) (judge : (Nat → Bool) → Tree → Bool) (order : List Nat) (bits : List Bool) : List Bool :=
  let next := g.lowerPass judge order bits
  if next = bits then bits else lowered g judge order next
termination_by bits.count true
decreasing_by exact (loses_pass order bits).count_lt ‹_›

theorem length_rounds (mono : Ascending judge) : (g.rounds judge true).length = g.productions.size := by
  rw [← rounds_stable mono]
  simp [treeRound, rootTrees]

/-- Bits that a pass over all productions keeps, a round keeps. -/
theorem kept_of_pass (length : bits.length = g.productions.size) (whole : ∀ index < g.productions.size, index ∈ order)
    (still : g.lowerPass judge order bits = bits) : Loses true bits (treeRound judge g.rootTrees bits) := by
  refine Loses.iff_getD.mpr ⟨by simp [treeRound, rootTrees, length], fun index has => ?_⟩
  have inside := lt_length_of_getD has
  have stays : (g.lower judge bits index).getD index false = bits.getD index false := by
    rw [lower_of_pass still index (whole index (by omega))]
  rw [getD_lower, has, bne_self_eq_false, Bool.false_or, Bool.true_and] at stays
  rw [getD_treeRound, stays]

/-- No bits that rounds keep are above those of `rounds`. -/
theorem loses_rounds (mono : Ascending judge) (length : bits.length = g.productions.size)
    (kept : Loses true bits (treeRound judge g.rootTrees bits)) : Loses true bits (g.rounds judge true) := by
  rw [rounds, List.foldl_const]
  generalize (List.range g.productions.size).length = count
  have below {high : List Bool} (le : Loses true bits high) :
      Loses true bits ((treeRound judge g.rootTrees)^[count] high) := by
    induction count generalizing high with
    | zero => exact le
    | succ count ih => exact ih (kept.trans (treeRound_mono mono le))
  refine below (.replicate ?_ ?_)
  · simp [length]
  · intro b member
    obtain ⟨-, -, rfl⟩ := List.mem_map.mp member
    rfl

/-- Bits above those of the rounds are lowered to them, in any order that leaves no production out. -/
theorem lowered_eq_rounds (mono : Ascending judge) (whole : ∀ index < g.productions.size, index ∈ order)
    (above : Loses true (g.rounds judge true) bits) : g.lowered judge order bits = g.rounds judge true := by
  have kept : Loses true (g.rounds judge true) (treeRound judge g.rootTrees (g.rounds judge true)) := by
    rw [rounds_stable mono]
    exact .refl _
  fun_induction lowered g judge order bits with
  | case1 bits next still =>
    have length : bits.length = g.productions.size :=
      (List.Forall₂.length_eq above).symm.trans (length_rounds mono)
    exact (loses_rounds mono length (kept_of_pass length whole still)).antisymm above
  | case2 bits next changed ih => exact ih (le_pass mono kept above)

end Grammar

end Packrat
