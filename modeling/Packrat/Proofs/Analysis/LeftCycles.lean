import Packrat.Proofs.Analysis.LeftCalls
import Mathlib.Data.List.Chain

/-! # Left recursion is reported exactly

A left call is a reference that can be reached before anything is consumed. The search from a production finds a cycle
of left calls through it, if there is one, and what it finds is a cycle: it enters a production once, and only along a
left call. Productions on a cycle found before are not searched from, but then they have been reported already.
-/

namespace Packrat

namespace Grammar

variable {g : Grammar} {i caller reference target : Nat}

/-- The reference can be reached from the node before anything is consumed: through a body, any alternative, and the
elements of a sequence up to the first one that is sure to consume. -/
inductive LeftReaches (g : Grammar) (reference target : Nat) : Nat → Prop
  | reference {memo : Bool} (present : g.expr? reference = some (.reference target memo)) :
      LeftReaches g reference target reference
  | action {i child : Nat} {name : String} {bound : Bool} (present : g.expr? i = some (.action child name bound))
      (inner : LeftReaches g reference target child) : LeftReaches g reference target i
  | undo {i child : Nat} (present : g.expr? i = some (.undo child)) (inner : LeftReaches g reference target child) :
      LeftReaches g reference target i
  | repetition {i child min max : Nat} (present : g.expr? i = some (.repetition child min max))
      (inner : LeftReaches g reference target child) : LeftReaches g reference target i
  | lookahead {i child : Nat} {sign : Lookahead} (present : g.expr? i = some (.lookahead child sign))
      (inner : LeftReaches g reference target child) : LeftReaches g reference target i
  | choice {i child : Nat} {children : List Nat} (present : g.expr? i = some (.choice children))
      (member : child ∈ children) (inner : LeftReaches g reference target child) : LeftReaches g reference target i
  | sequence {i child : Nat} {before behind : List Nat}
      (present : g.expr? i = some (.sequence (before ++ child :: behind)))
      (idle : ∀ element ∈ before, g.nodeConsumes element = false) (inner : LeftReaches g reference target child) :
      LeftReaches g reference target i

/-- The production left-calls another one by this reference. -/
def LeftCall (g : Grammar) (caller reference target : Nat) : Prop :=
  ∃ root, g.root? caller = some root ∧ g.LeftReaches reference target root

/-- The production left-calls another one. -/
def CallsLeft (g : Grammar) (caller target : Nat) : Prop := ∃ reference, g.LeftCall caller reference target

end Grammar

namespace Tree

variable {consuming : Nat → Bool} {call : Nat × Nat}

theorem mem_sequenceLeftCalls {items : List Tree} : call ∈ sequenceLeftCalls consuming items ↔
    ∃ before t behind, items = before ++ t :: behind ∧ (∀ u ∈ before, u.consumes consuming = false) ∧
      call ∈ t.leftCalls consuming := by
  induction items with
  | nil => simp [sequenceLeftCalls]
  | cons t rest ih =>
    rw [sequenceLeftCalls, List.mem_append]
    constructor
    · rintro (here | later)
      · exact ⟨[], t, rest, rfl, List.forall_mem_nil _, here⟩
      · split at later
        · cases later
        · next idle =>
          obtain ⟨before, u, behind, rfl, idle', called⟩ := ih.mp later
          refine ⟨t :: before, u, behind, rfl, List.forall_mem_cons.mpr ⟨?_, idle'⟩, called⟩
          exact Bool.eq_false_iff.mpr idle
    · rintro ⟨before, u, behind, same, idle, called⟩
      cases before with
      | nil =>
        cases same
        exact .inl called
      | cons first before =>
        cases same
        obtain ⟨idle, idle'⟩ := List.forall_mem_cons.mp idle
        rw [idle, if_neg Bool.false_ne_true]
        exact .inr (ih.mpr ⟨before, u, behind, rfl, idle', called⟩)

end Tree

namespace Grammar

variable {g : Grammar} {i caller reference target : Nat}

/-- Lists related one by one are cut at related places. -/
private theorem forall₂_cut {branch : Nat → Tree → Prop} {children : List Nat} {before behind : List Tree} {t : Tree}
    (parts : List.Forall₂ branch children (before ++ t :: behind)) :
    ∃ before' child behind', children = before' ++ child :: behind' ∧ branch child t ∧
      List.Forall₂ branch before' before := by
  induction before generalizing children with
  | nil =>
    cases parts with
    | cons head _ => exact ⟨[], _, _, rfl, head, .nil⟩
  | cons u before ih =>
    cases parts with
    | cons head tail =>
      obtain ⟨before', child, behind', rfl, here, others⟩ := ih tail
      exact ⟨_ :: before', child, behind', rfl, here, .cons head others⟩

namespace WellFormed

variable (wellFormed : g.WellFormed)

include wellFormed

theorem leftReaches_of_mem {t : Tree} (rooted : g.Rooted i) (shown : g.tree? i = some t)
    (member : (reference, target) ∈ t.leftCalls g.consuming) : g.LeftReaches reference target i := by
  refine wellFormed.tree_induction (motive := fun i t => (reference, target) ∈ t.leftCalls g.consuming →
    g.LeftReaches reference target i) ?_ rooted shown member
  intro i e t _ present layer member
  cases layer with
  | terminal => cases member
  | reference =>
    cases List.mem_singleton.mp member
    exact .reference present
  | action part => exact .action present (part.2 member)
  | undo part => exact .undo present (part.2 member)
  | sequence parts =>
    obtain ⟨before, t, behind, rfl, idle, called⟩ := Tree.mem_sequenceLeftCalls.mp member
    obtain ⟨before', child, behind', rfl, part, others⟩ := forall₂_cut parts
    refine .sequence present (fun element listed => ?_) (part.2 called)
    obtain ⟨body, listed, shown, -⟩ := Tree.exists_related others listed
    rw [nodeConsumes, shown, Option.any_some]
    exact idle body listed
  | choice parts =>
    obtain ⟨t, listed, called⟩ := Tree.mem_choiceLeftCalls.mp member
    obtain ⟨child, member, part⟩ := Tree.exists_related parts.flip listed
    exact .choice present member (part.2 called)
  | repetition part => exact .repetition present (part.2 member)
  | lookahead part => exact .lookahead present (part.2 member)

theorem mem_leftCalls {t : Tree} (reaches : g.LeftReaches reference target i) (rooted : g.Rooted i)
    (shown : g.tree? i = some t) : (reference, target) ∈ t.leftCalls g.consuming := by
  have below {i child : Nat} {e : Expr} (rooted : g.Rooted i) (present : g.expr? i = some e)
      (only : e.children = [child]) : g.Rooted child := rooted.child present (only ▸ List.mem_singleton_self _)
  induction reaches generalizing t with
  | reference present =>
    obtain ⟨t', shown', layer⟩ := wellFormed.layer rooted present
    cases shown.symm.trans shown'
    cases layer
    exact List.mem_singleton_self _
  | action present _ ih =>
    obtain ⟨t', shown', layer⟩ := wellFormed.layer rooted present
    cases shown.symm.trans shown'
    cases layer with
    | action part =>
      have called := ih (below rooted present rfl) part
      exact called
  | undo present _ ih =>
    obtain ⟨t', shown', layer⟩ := wellFormed.layer rooted present
    cases shown.symm.trans shown'
    cases layer with
    | undo part =>
      have called := ih (below rooted present rfl) part
      exact called
  | repetition present _ ih =>
    obtain ⟨t', shown', layer⟩ := wellFormed.layer rooted present
    cases shown.symm.trans shown'
    cases layer with
    | repetition part =>
      have called := ih (below rooted present rfl) part
      exact called
  | lookahead present _ ih =>
    obtain ⟨t', shown', layer⟩ := wellFormed.layer rooted present
    cases shown.symm.trans shown'
    cases layer with
    | lookahead part =>
      have called := ih (below rooted present rfl) part
      exact called
  | choice present member _ ih =>
    obtain ⟨t', shown', layer⟩ := wellFormed.layer rooted present
    cases shown.symm.trans shown'
    cases layer with
    | choice parts =>
      obtain ⟨body, listed, part⟩ := Tree.exists_related parts member
      exact Tree.mem_choiceLeftCalls.mpr ⟨body, listed, ih (rooted.child present member) part⟩
  | @sequence _ child before behind present idle _ ih =>
    obtain ⟨t', shown', layer⟩ := wellFormed.layer rooted present
    cases shown.symm.trans shown'
    cases layer with
    | @sequence _ items parts =>
      obtain ⟨first, rest, split, head⟩ : ∃ first rest, items = first ++ rest ∧
          List.Forall₂ (fun child body => g.tree? child = some body) before first ∧
          List.Forall₂ (fun child body => g.tree? child = some body) (child :: behind) rest :=
        ⟨items.take before.length, items.drop before.length, (List.take_append_drop ..).symm,
          (List.forall₂_take_append _ _ _ parts.flip).flip, (List.forall₂_drop_append _ _ _ parts.flip).flip⟩
      obtain ⟨early, late⟩ := head
      cases late with
      | @cons _ body _ behind' part _ =>
        refine Tree.mem_sequenceLeftCalls.mpr ⟨first, body, behind', split, fun u listed => ?_, ih ?_ part⟩
        · obtain ⟨element, member, shown⟩ := Tree.exists_related early.flip listed
          have quiet := idle element member
          rwa [nodeConsumes, shown, Option.any_some] at quiet
        · exact rooted.child present (List.mem_append_right _ (List.mem_cons_self ..))

/-- The table lists the left calls. -/
theorem mem_leftCallTable :
    (reference, target) ∈ g.leftCallTable.getD caller [] ↔ g.LeftCall caller reference target := by
  constructor
  · intro listed
    have inside : caller < g.productions.size := by
      by_contra outside
      rw [← leftCallTable_size] at outside
      simp [Array.getD, outside] at listed
    obtain ⟨root, defined⟩ := root?_of_lt inside
    obtain ⟨t, shown⟩ := wellFormed.exists_tree? (.root defined)
    rw [leftCallTable_getD defined shown] at listed
    exact ⟨root, defined, wellFormed.leftReaches_of_mem (.root defined) shown listed⟩
  · rintro ⟨root, defined, reaches⟩
    obtain ⟨t, shown⟩ := wellFormed.exists_tree? (.root defined)
    rw [leftCallTable_getD defined shown]
    exact wellFormed.mem_leftCalls reaches (.root defined) shown

theorem leftCalls_iff : g.LeftCalls caller target ↔ g.CallsLeft caller target := by
  constructor
  · rintro ⟨⟨reference, target⟩, listed, rfl⟩
    exact ⟨reference, wellFormed.mem_leftCallTable.mp listed⟩
  · rintro ⟨reference, call⟩
    exact ⟨(reference, target), wellFormed.mem_leftCallTable.mpr call, rfl⟩

end WellFormed

end Grammar

namespace LeftCycle

variable {table : Array (List (Nat × Nat))} {source depth last : Nat} {path visited sources : List Nat}
  {calls : List (Nat × Nat)} {cycle : LeftCycle}

/-- Left calls lead along the path through distinct productions, and the reference leads from its end to its start. -/
structure Closes (table : Array (List (Nat × Nat))) (source : Nat) (cycle : LeftCycle) : Prop where
  distinct : cycle.path.Nodup
  chain : cycle.path.IsChain (Calls table)
  head : cycle.path.head? = some source
  closing : ∃ last, cycle.path.getLast? = some last ∧ (cycle.reference, source) ∈ table.getD last []

/-- A search only adds to the productions visited, and what it finds is a cycle. -/
theorem closes_of_search (distinct : path.Nodup) (chain : path.IsChain (Calls table)) (head : path.head? = some source)
    (ends : path.getLast? = some last) (entered : path ⊆ visited) (listed : ∀ call ∈ calls, call ∈ table.getD last []) :
    visited ⊆ (search table source depth path calls visited).2 ∧
      ∀ cycle ∈ (search table source depth path calls visited).1, Closes table source cycle := by
  induction depth generalizing path last calls visited with
  | zero => exact ⟨List.Subset.refl _, fun _ found => (Option.some_ne_none _ found.symm).elim⟩
  | succ depth ih =>
    rw [search]
    induction calls generalizing visited with
    | nil => exact ⟨List.Subset.refl _, fun _ found => (Option.some_ne_none _ found.symm).elim⟩
    | cons call rest follow =>
      obtain ⟨reference, target⟩ := call
      obtain ⟨here, later⟩ := List.forall_mem_cons.mp listed
      rw [search.follow]
      split
      · next back =>
        subst back
        refine ⟨List.Subset.refl _, ?_⟩
        rintro _ ⟨⟩
        exact ⟨distinct, chain, head, last, ends, here⟩
      · split
        · exact follow entered later
        · next fresh =>
          have fresh : target ∉ visited := by simpa using fresh
          have chain' : (path ++ [target]).IsChain (Calls table) := by
            refine List.isChain_append.mpr ⟨chain, .singleton _, ?_⟩
            intro x isLast y isHead
            cases ends.symm.trans isLast
            cases isHead
            exact ⟨(reference, target), here, rfl⟩
          have distinct' : (path ++ [target]).Nodup := by
            refine List.nodup_append.mpr ⟨distinct, List.nodup_singleton _, ?_⟩
            rintro x member y isLast rfl
            rw [List.mem_singleton.mp isLast] at member
            exact fresh (entered member)
          have entered' : path ++ [target] ⊆ target :: visited := by
            intro x member
            rcases List.mem_append.mp member with member | member
            · exact List.mem_cons_of_mem _ (entered member)
            · rw [List.mem_singleton.mp member]
              exact List.mem_cons_self ..
          have head' : (path ++ [target]).head? = some source := by
            rw [List.head?_append, head]
            rfl
          obtain ⟨grows, inner⟩ := ih distinct' chain' head' List.getLast?_concat entered' fun _ member => member
          have grows := fun x member => grows (List.mem_cons_of_mem target (a := x) member)
          split
          · next cycle visited' same =>
            rw [same] at grows inner
            exact ⟨grows, inner⟩
          · next visited' same =>
            rw [same] at grows
            obtain ⟨more, others⟩ := follow (fun x member => grows x (entered member)) later
            exact ⟨fun x member => more (grows x member), others⟩

theorem closes_of_from? (found : from? table source = some cycle) : Closes table source cycle :=
  (closes_of_search (List.nodup_singleton _) (.singleton _) rfl rfl (List.Subset.refl _) fun _ member => member).2
    cycle found

/-- The cycles found are those of some of the sources, in order. -/
theorem exists_sources (table : Array (List (Nat × Nat))) (sources found : List Nat) : ∃ starts, starts.Sublist sources ∧
    List.Forall₂ (fun source cycle => from? table source = some cycle) starts (findAll table sources found) := by
  induction sources generalizing found with
  | nil => exact ⟨[], .slnil, .nil⟩
  | cons source rest ih =>
    rw [findAll]
    split
    · obtain ⟨starts, among, each⟩ := ih found
      exact ⟨starts, among.cons _, each⟩
    · split
      · next cycle here =>
        obtain ⟨starts, among, each⟩ := ih (cycle.path ++ found)
        exact ⟨source :: starts, among.cons_cons _, .cons here each⟩
      · obtain ⟨starts, among, each⟩ := ih found
        exact ⟨starts, among.cons _, each⟩

/-- Every source on a cycle is on one that is found. -/
theorem mem_findAll (found : List Nat) (member : source ∈ sources) (cyclic : from? table source ≠ none) :
    source ∈ found ∨ ∃ cycle ∈ findAll table sources found, source ∈ cycle.path := by
  induction sources generalizing found with
  | nil => cases member
  | cons first rest ih =>
    rw [findAll]
    split
    · next known =>
      rcases List.mem_cons.mp member with rfl | member
      · exact .inl (by simpa using known)
      · exact ih found member
    · split
      · next cycle here =>
        rcases List.mem_cons.mp member with rfl | member
        · exact .inr ⟨cycle, List.mem_cons_self .., List.mem_of_mem_head? (closes_of_from? here).head⟩
        · rcases ih (cycle.path ++ found) member with listed | ⟨cycle', listed, on⟩
          · rcases List.mem_append.mp listed with on | before
            · exact .inr ⟨cycle, List.mem_cons_self .., on⟩
            · exact .inl before
          · exact .inr ⟨cycle', List.mem_cons_of_mem _ listed, on⟩
      · next none =>
        rcases List.mem_cons.mp member with rfl | member
        · exact absurd none cyclic
        · exact ih found member

/-- The problem that tells of a cycle. -/
def problem (o : Options) (g : Grammar) (cycle : LeftCycle) : Problem where
  kind := .leftRecursion
  rule := some (.expression cycle.reference)
  span := g.ruleSpan (.expression cycle.reference)
  message := o.messageFor .leftRecursion ("production `" ++ g.name (cycle.path.headD 0) ++
    "` is left recursive, the rule cycle " ++ cycleText (cycle.path.map g.name) ++ " does not consume any input")

/-- Left calls lead along the path through distinct productions and by the reference back to its start. -/
structure Genuine (g : Grammar) (cycle : LeftCycle) : Prop where
  distinct : cycle.path.Nodup
  chain : cycle.path.IsChain g.CallsLeft
  closing : ∃ first last, cycle.path.head? = some first ∧ cycle.path.getLast? = some last ∧
    g.LeftCall last cycle.reference first

/-- A genuine cycle leads from its start back to it. -/
theorem Genuine.recursive {g : Grammar} (genuine : cycle.Genuine g) : ∃ p, Relation.TransGen g.CallsLeft p p := by
  obtain ⟨first, last, head, ends, call⟩ := genuine.closing
  obtain ⟨rest, same⟩ := List.head?_eq_some_iff.mp head
  have chain := genuine.chain
  rw [same] at chain ends
  rw [List.getLast?_eq_some_getLast (List.cons_ne_nil _ _)] at ends
  have way := List.relationReflTransGen_of_exists_isChain_cons rest chain (Option.some.inj ends)
  exact ⟨first, .tail' way ⟨cycle.reference, call⟩⟩

end LeftCycle

namespace Grammar

variable {g : Grammar} {p : Nat} {cycle : LeftCycle}

/-- Left recursions are errors, which no option leaves out. -/
theorem leftRecursionProblems_eq (g : Grammar) (o : Options) :
    g.leftRecursionProblems o = g.leftCycles.map (LeftCycle.problem o g) := by
  rw [leftRecursionProblems, Finding.problems, List.filterMap_map, ← List.filterMap_eq_map]
  rfl

/-- No two cycles start with the same production. -/
theorem nodup_leftCycles_heads (g : Grammar) : (g.leftCycles.map fun cycle => cycle.path.head?).Nodup := by
  obtain ⟨starts, among, each⟩ := LeftCycle.exists_sources g.leftCallTable (List.range g.productions.size) []
  have heads {starts : List Nat} {cycles : List LeftCycle} (each : List.Forall₂ (fun source cycle =>
      LeftCycle.from? g.leftCallTable source = some cycle) starts cycles) :
      (cycles.map fun cycle => cycle.path.head?) = starts.map some := by
    induction each with
    | nil => rfl
    | cons here _ ih => rw [List.map_cons, List.map_cons, ih, (LeftCycle.closes_of_from? here).head]
  rw [leftCycles, heads each]
  exact (List.nodup_range.sublist among).map (Option.some_injective _)

namespace WellFormed

variable (wellFormed : g.WellFormed)

include wellFormed

theorem genuine_of_mem (member : cycle ∈ g.leftCycles) : cycle.Genuine g := by
  obtain ⟨starts, -, each⟩ := LeftCycle.exists_sources g.leftCallTable (List.range g.productions.size) []
  obtain ⟨source, -, found⟩ := Tree.exists_related each.flip member
  obtain ⟨distinct, chain, head, last, ends, listed⟩ := LeftCycle.closes_of_from? found
  refine ⟨distinct, chain.imp fun _ _ call => wellFormed.leftCalls_iff.mp call, source, last, head, ends, ?_⟩
  exact wellFormed.mem_leftCallTable.mp listed

/-- A production that left-calls itself on some way is on a cycle that is found. -/
theorem exists_cycle_of_recursive (recursive : Relation.TransGen g.CallsLeft p p) :
    ∃ cycle ∈ g.leftCycles, p ∈ cycle.path := by
  have inside : p < g.productions.size := by
    obtain ⟨_, ⟨_, root, defined, -⟩, -⟩ := Relation.TransGen.head'_iff.mp recursive
    obtain ⟨_, found, -⟩ := Option.map_eq_some_iff.mp defined
    exact (Array.getElem?_eq_some_iff.mp found).1
  have searched : LeftCycle.from? g.leftCallTable p ≠ none := by
    intro nothing
    refine LeftCycle.not_transGen_of_from? wellFormed.leftCallTable_targets ?_ nothing
      (recursive.lift id fun _ _ call => wellFormed.leftCalls_iff.mpr call)
    rwa [leftCallTable_size]
  exact (LeftCycle.mem_findAll [] (List.mem_range.mpr inside) searched).resolve_left List.not_mem_nil

end WellFormed

/-- A problem is reported for each cycle found. Every production that left-calls itself on some way is on one of them,
all of them are cycles of left calls closed by the reference that the problem is bound to, no two start with the same
production, and there are none only if no production left-calls itself. -/
theorem leftRecursion_exact (wellFormed : g.WellFormed) (o : Options) :
    g.leftRecursionProblems o = g.leftCycles.map (LeftCycle.problem o g) ∧
      (∀ p, Relation.TransGen g.CallsLeft p p → ∃ cycle ∈ g.leftCycles, p ∈ cycle.path) ∧
      (∀ cycle ∈ g.leftCycles, cycle.Genuine g) ∧
      (g.leftCycles.map fun cycle => cycle.path.head?).Nodup ∧
      (g.leftRecursionProblems o ≠ [] ↔ ∃ p, Relation.TransGen g.CallsLeft p p) := by
  refine ⟨leftRecursionProblems_eq g o, fun p => wellFormed.exists_cycle_of_recursive,
    fun cycle => wellFormed.genuine_of_mem, nodup_leftCycles_heads g, ?_⟩
  rw [leftRecursionProblems_eq, Ne, List.map_eq_nil_iff]
  constructor
  · intro reported
    obtain ⟨cycle, member⟩ := List.exists_mem_of_ne_nil _ reported
    exact (wellFormed.genuine_of_mem member).recursive
  · rintro ⟨p, recursive⟩ nothing
    obtain ⟨cycle, member, -⟩ := wellFormed.exists_cycle_of_recursive recursive
    rw [nothing] at member
    cases member

end Grammar

namespace Sample

/-- `a : b 'x' / 'y'; b : ('z'* a) / c; c : !b 'x';`, where `b` is on two cycles. -/
def entwined : Grammar where
  productions := #[
    { name := "a", index := 0, root := 0, defined := true },
    { name := "b", index := 1, root := 5, defined := true },
    { name := "c", index := 2, root := 11, defined := true }]
  nodes := #[
    { expr := .choice [1, 4], owner := 0 },
    { expr := .sequence [2, 3], owner := 0, parent := some 0 },
    { expr := .reference 1 false, owner := 0, parent := some 1 },
    { expr := .terminal (.token "x" true), owner := 0, parent := some 1 },
    { expr := .terminal (.token "y" true), owner := 0, parent := some 0 },
    { expr := .choice [6, 10], owner := 1 },
    { expr := .sequence [7, 9], owner := 1, parent := some 5 },
    { expr := .repetition 8 0 unbounded, owner := 1, parent := some 6 },
    { expr := .terminal (.token "z" true), owner := 1, parent := some 7 },
    { expr := .reference 0 false, owner := 1, parent := some 6 },
    { expr := .reference 2 false, owner := 1, parent := some 5 },
    { expr := .sequence [12, 14], owner := 2 },
    { expr := .lookahead 13 .absent, owner := 2, parent := some 11 },
    { expr := .reference 1 false, owner := 2, parent := some 12 },
    { expr := .terminal (.token "x" true), owner := 2, parent := some 11 }]
  problems := []
  source := none

theorem entwined_cycles : entwined.WellFormed ∧ entwined.leftCycles = [⟨[0, 1], 9⟩, ⟨[2, 1], 10⟩] ∧
    ∀ cycle ∈ entwined.leftCycles, cycle.Genuine entwined := by
  have wellFormed : entwined.WellFormed := Grammar.wellFormed_of_linked (by decide)
  exact ⟨wellFormed, by decide +kernel, (Grammar.leftRecursion_exact wellFormed {}).2.2.1⟩

end Sample

end Packrat
