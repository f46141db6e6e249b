import Packrat.Proofs.Analysis.Consuming
import Mathlib.Data.Fintype.EquivFin
import Mathlib.Logic.Relation

/-! # Left calls without a cycle

The search for a cycle enters every production once. When it finds nothing, the productions it has
visited are closed under left calls and none of them calls the source, so the source lies on no cycle.
A grammar without a reported left recursion has no cycle of left calls at all, and left calls are well
founded.
-/

namespace Packrat

/-- The production `caller` left-calls the production `target`. -/
def LeftCycle.Calls (table : Array (List (Nat × Nat))) (caller target : Nat) : Prop :=
  ∃ call ∈ table.getD caller [], call.2 = target

namespace Tree

variable {consuming : Nat → Bool} {call : Nat × Nat}

theorem mem_leftCalls_of_sequence {items : List Tree} (member : call ∈ sequenceLeftCalls consuming items) :
    ∃ t ∈ items, call ∈ t.leftCalls consuming := by
  induction items with
  | nil => cases member
  | cons t rest ih =>
    rw [sequenceLeftCalls, List.mem_append] at member
    rcases member with here | later
    · exact ⟨t, List.mem_cons_self .., here⟩
    · split at later
      · cases later
      · obtain ⟨u, among, called⟩ := ih later
        exact ⟨u, List.mem_cons_of_mem _ among, called⟩

theorem mem_choiceLeftCalls {items : List Tree} :
    call ∈ choiceLeftCalls consuming items ↔ ∃ t ∈ items, call ∈ t.leftCalls consuming := by
  induction items with
  | nil => simp [choiceLeftCalls]
  | cons t rest ih => simp [choiceLeftCalls, ih]

end Tree

namespace LeftCycle

variable {table : Array (List (Nat × Nat))} {source bound depth : Nat} {path visited visited' : List Nat}
  {calls : List (Nat × Nat)}

/-- Every production visited anew left-calls visited ones only, and not the source. -/
structure Explored (table : Array (List (Nat × Nat))) (source : Nat) (visited visited' : List Nat) : Prop where
  grows : visited ⊆ visited'
  closed : ∀ v ∈ visited', v ∉ visited → ∀ call ∈ table.getD v [], call.2 ≠ source ∧ call.2 ∈ visited'

theorem Explored.refl : Explored table source visited visited :=
  ⟨List.Subset.refl _, fun _ member fresh => absurd member fresh⟩

/-- Exploring a production whose calls are done, and then others. -/
theorem Explored.trans {middle : List Nat} {target : Nat}
    (first : Explored table source (target :: visited) middle)
    (called : ∀ call ∈ table.getD target [], call.2 ≠ source ∧ call.2 ∈ middle)
    (second : Explored table source middle visited') : Explored table source visited visited' := by
  refine ⟨fun v member => second.grows (first.grows (List.mem_cons_of_mem _ member)), ?_⟩
  intro v member fresh call calls
  by_cases early : v ∈ middle
  · have done : call.2 ≠ source ∧ call.2 ∈ middle := by
      by_cases here : v = target
      · subst here
        exact called call calls
      · refine first.closed v early ?_ call calls
        exact fun old => (List.mem_cons.mp old).elim here fresh
    exact ⟨done.1, second.grows done.2⟩
  · exact second.closed v member early call calls

/-- How many productions are not visited yet. -/
def unvisited (bound : Nat) (visited : List Nat) : Nat := ((Finset.range bound).filter (· ∉ visited)).card

theorem unvisited_le (bound : Nat) (grows : visited ⊆ visited') :
    unvisited bound visited' ≤ unvisited bound visited := by
  refine Finset.card_le_card (Finset.monotone_filter_right _ fun v _ outside inside => ?_)
  exact outside (grows inside)

theorem unvisited_cons_lt {target : Nat} (inRange : target < bound) (fresh : target ∉ visited) :
    unvisited bound (target :: visited) < unvisited bound visited := by
  refine Finset.card_lt_card ((Finset.ssubset_iff_of_subset ?_).mpr ⟨target, ?_, ?_⟩)
  · exact Finset.monotone_filter_right _ fun v _ outside inside => outside (List.mem_cons_of_mem _ inside)
  · exact Finset.mem_filter.mpr ⟨Finset.mem_range.mpr inRange, fresh⟩
  · exact fun member => (Finset.mem_filter.mp member).2 (List.mem_cons_self ..)

/-- A search without an answer has visited everything it could reach. -/
theorem explored_of_search (targets : ∀ v, ∀ call ∈ table.getD v [], call.2 < bound)
    (inRange : ∀ call ∈ calls, call.2 < bound) (room : unvisited bound visited < depth)
    (nothing : search table source depth path calls visited = (none, visited')) :
    Explored table source visited visited' ∧ ∀ call ∈ calls, call.2 ≠ source ∧ call.2 ∈ visited' := by
  induction depth generalizing path calls visited visited' with
  | zero => omega
  | succ depth ih =>
    rw [search] at nothing
    induction calls generalizing visited with
    | nil =>
      cases nothing
      exact ⟨.refl, fun call member => by cases member⟩
    | cons call rest follow =>
      obtain ⟨reference, target⟩ := call
      rw [search.follow] at nothing
      split at nothing
      · cases nothing
      · next other =>
        have later : ∀ call ∈ rest, call.2 < bound := fun call member => inRange call (List.mem_cons_of_mem _ member)
        split at nothing
        · next seen =>
          obtain ⟨explored, called⟩ := follow later room nothing
          refine ⟨explored, List.forall_mem_cons.mpr ⟨⟨other, explored.grows ?_⟩, called⟩⟩
          simpa using seen
        · next fresh =>
          have fresh : target ∉ visited := by simpa using fresh
          have known : target < bound := inRange _ (List.mem_cons_self ..)
          have smaller := unvisited_cons_lt known fresh
          split at nothing
          · cases nothing
          · next middle entered =>
            obtain ⟨first, called⟩ := ih (targets target) (by omega) entered
            have less := unvisited_le bound first.grows
            obtain ⟨second, others⟩ := follow later (by omega) nothing
            refine ⟨first.trans called second, List.forall_mem_cons.mpr ⟨⟨other, ?_⟩, others⟩⟩
            exact second.grows (first.grows (List.mem_cons_self ..))

/-- A source whose search finds nothing calls itself on no way. -/
theorem not_transGen_of_from? (targets : ∀ v, ∀ call ∈ table.getD v [], call.2 < table.size)
    (inRange : source < table.size) (nothing : from? table source = none) :
    ¬ Relation.TransGen (Calls table) source source := by
  obtain ⟨visited, searched⟩ : ∃ visited,
      search table source (table.size + 1) [source] (table.getD source []) [source] = (none, visited) :=
    ⟨_, Prod.ext nothing rfl⟩
  have room : unvisited table.size [source] < table.size + 1 := by
    have := unvisited_cons_lt inRange (List.not_mem_nil (a := source))
    have all : unvisited table.size [] = table.size := by simp [unvisited]
    omega
  obtain ⟨explored, called⟩ := explored_of_search targets (targets source) room searched
  have stays {v target : Nat} (member : v ∈ visited) (call : Calls table v target) :
      target ≠ source ∧ target ∈ visited := by
    obtain ⟨call, listed, rfl⟩ := call
    by_cases here : v = source
    · subst here
      exact called call listed
    · exact explored.closed v member (by simpa using here) call listed
  have away {target : Nat} (way : Relation.TransGen (Calls table) source target) :
      target ≠ source ∧ target ∈ visited := by
    induction way with
    | single call => exact stays (explored.grows (List.mem_singleton_self _)) call
    | tail _ call ih => exact stays ih.2 call
  exact fun cycle => (away cycle).1 rfl

private theorem from?_of_findAll {sources : List Nat} (nothing : findAll table sources [] = [])
    (member : source ∈ sources) : from? table source = none := by
  induction sources with
  | nil => cases member
  | cons first rest ih =>
    rw [findAll] at nothing
    simp only [List.contains_nil, Bool.false_eq_true, ↓reduceIte] at nothing
    split at nothing
    · cases nothing
    · next none =>
      rcases List.mem_cons.mp member with rfl | member
      · exact none
      · exact ih nothing member

end LeftCycle

namespace Grammar

variable {g : Grammar} {index i : Nat} {o : Options}

/-- Left recursions are errors, which no option leaves out. -/
theorem leftCycles_of_problems (clean : g.leftRecursionProblems o = []) : g.leftCycles = [] := by
  rw [leftRecursionProblems, Finding.problems, List.filterMap_eq_nil_iff] at clean
  rw [List.eq_nil_iff_forall_not_mem]
  intro cycle member
  have := clean _ (List.mem_map_of_mem member)
  simp [LeftCycle.finding, Options.problem?, ProblemKind.severity, Options.reports] at this

theorem leftCallTable_size : g.leftCallTable.size = g.productions.size := by
  simp [leftCallTable, rootTrees]

/-- The left calls of a production are those of its tree. -/
theorem leftCallTable_getD {t : Tree} (defined : g.root? index = some i) (shown : g.tree? i = some t) :
    g.leftCallTable.getD index [] = t.leftCalls g.consuming := by
  simp only [leftCallTable, Array.getD_eq_getD_getElem?, List.getElem?_toArray, List.getElem?_map,
    rootTrees_getElem?, defined, shown, Option.map_some, Option.getD_some]
  rfl

/-- One production left-calls another. -/
def LeftCalls (g : Grammar) : Nat → Nat → Prop := LeftCycle.Calls g.leftCallTable

theorem leftCalls_of_mem {t : Tree} {call : Nat × Nat} (defined : g.root? index = some i)
    (shown : g.tree? i = some t) (member : call ∈ t.leftCalls g.consuming) : g.LeftCalls index call.2 :=
  ⟨call, by rwa [leftCallTable_getD defined shown], rfl⟩

namespace WellFormed

variable (wellFormed : g.WellFormed)

include wellFormed

/-- Left calls are references of the grammar. -/
theorem reference_of_leftCall {consuming : Nat → Bool} {t : Tree} {call : Nat × Nat} (rooted : g.Rooted i)
    (shown : g.tree? i = some t) (member : call ∈ t.leftCalls consuming) :
    ∃ memo, g.expr? call.1 = some (.reference call.2 memo) := by
  refine wellFormed.tree_induction (motive := fun _ t => call ∈ t.leftCalls consuming →
    ∃ memo, g.expr? call.1 = some (.reference call.2 memo)) ?_ rooted shown member
  intro i e t _ present layer member
  cases layer with
  | terminal => cases member
  | reference =>
    rw [Tree.leftCalls, List.mem_singleton] at member
    subst member
    exact ⟨_, present⟩
  | action part => exact part.2 member
  | undo part => exact part.2 member
  | sequence parts =>
    obtain ⟨t, listed, called⟩ := Tree.mem_leftCalls_of_sequence member
    obtain ⟨child, -, -, branch⟩ := Tree.exists_related parts.flip listed
    exact branch called
  | choice parts =>
    obtain ⟨t, listed, called⟩ := Tree.mem_choiceLeftCalls.mp member
    obtain ⟨child, -, -, branch⟩ := Tree.exists_related parts.flip listed
    exact branch called
  | repetition part => exact part.2 member
  | lookahead part => exact part.2 member

theorem leftCallTable_targets (caller : Nat) :
    ∀ call ∈ g.leftCallTable.getD caller [], call.2 < g.leftCallTable.size := by
  intro call member
  rw [leftCallTable_size]
  by_cases defined : caller < g.productions.size
  · obtain ⟨root, defined⟩ := root?_of_lt defined
    obtain ⟨t, shown⟩ := wellFormed.exists_tree? (.root defined)
    rw [leftCallTable_getD defined shown] at member
    obtain ⟨memo, present⟩ := wellFormed.reference_of_leftCall (.root defined) shown member
    exact wellFormed.target present
  · rw [← leftCallTable_size] at defined
    simp [Array.getD, defined] at member

/-- Without a reported left recursion, left calls lead to productions that are lower in some order. -/
theorem wellFounded_leftCalls (clean : g.leftRecursionProblems o = []) :
    WellFounded fun p q : Fin g.productions.size => g.LeftCalls q p := by
  have irreflexive (source : Fin g.productions.size) : ¬ Relation.TransGen g.LeftCalls source source := by
    have inRange : source.val < g.leftCallTable.size := by rw [leftCallTable_size]; exact source.isLt
    refine LeftCycle.not_transGen_of_from? wellFormed.leftCallTable_targets inRange ?_
    refine LeftCycle.from?_of_findAll (leftCycles_of_problems clean) ?_
    exact List.mem_range.mpr source.isLt
  let below (p q : Fin g.productions.size) : Prop := Relation.TransGen g.LeftCalls q p
  have transitive : IsTrans _ below := ⟨fun _ _ _ first second => second.trans first⟩
  have irreflexive : Std.Irrefl below := ⟨irreflexive⟩
  have founded : WellFounded below := Finite.wellFounded_of_trans_of_irrefl below
  exact Subrelation.wf (fun call => Relation.TransGen.single call) founded

end WellFormed

end Grammar

end Packrat
