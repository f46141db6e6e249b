import Packrat.Proofs.Grammar.UndoScopes

/-! # Undo scopes are put in exactly where they are needed

Nodes act by their trees exactly if they can come upon an action, so the marks of the productions tell
which of them modify the host (`nodeActs_iff`). The sites are then the nodes that need a scope, each of
them once, and the grammar behind `injectUndo` is the one before with a scope in the place of every site
(`undoScopes_exact`).
-/

namespace Packrat

namespace Grammar

variable {g g' : Grammar} {i index : Nat} {t : Tree} {sites : List Nat}

/-- The node is within reach, has no action right around it, and can fail when an action in it is done. -/
structure NeedsScope (g : Grammar) (i : Nat) : Prop where
  rooted : g.Rooted i
  free : ∀ {j : Nat} {e : Expr}, g.expr? j = some e → e.isAction = true → i ∉ e.children
  modifies : (∃ children, g.expr? i = some (.sequence children) ∧ ∃ child ∈ children.dropLast, g.Modifies child) ∨
    ∃ child sign, g.expr? i = some (.lookahead child sign) ∧ g.Modifies child

/-- Where the node `i` was, there is the scope around it if it is one of the sites. -/
def placed (g : Grammar) (sites : List Nat) (i : Nat) : Nat :=
  if i ∈ sites then g.nodes.size + sites.idxOf i else i

/-- In the place of each site there is an undo scope around it. Nothing else is new. -/
structure Scoped (g : Grammar) (sites : List Nat) (g' : Grammar) : Prop where
  size : g'.nodes.size = g.nodes.size + sites.length
  scope : ∀ {k i : Nat}, sites[k]? = some i → g'.expr? (g.nodes.size + k) = some (.undo i)
  expr : ∀ {i : Nat}, i < g.nodes.size → g'.expr? i = (g.expr? i).map (Expr.mapChildren (g.placed sites))
  productions : ∀ index : Nat, g'.productions[index]? =
    g.productions[index]?.map fun p => { p with root := g.placed sites p.root }

namespace WellFormed

variable (wellFormed : g.WellFormed)

include wellFormed

/-- A tree that acts is the tree of a node that modifies, if productions that act have roots that do. -/
theorem modifies_of_acts {acting : Nat → Bool}
    (known : ∀ target, acting target = true → ∀ {root}, g.root? target = some root → g.Modifies root)
    (rooted : g.Rooted i) (tree : g.tree? i = some t) (acts : t.acts acting = true) : g.Modifies i := by
  refine wellFormed.tree_induction (motive := fun i t => t.acts acting = true → g.Modifies i) ?_ rooted tree acts
  intro i e t rooted present layer acts
  cases layer with
  | terminal => cases acts
  | reference =>
    obtain ⟨root, defined⟩ := root?_of_lt (wellFormed.target present)
    exact .reference present defined (known _ acts defined)
  | action => exact .action present rfl
  | undo => exact .action present rfl
  | sequence parts =>
    rw [Tree.acts, Tree.anyActs_eq, List.any_eq_true] at acts
    obtain ⟨body, member, acts⟩ := acts
    obtain ⟨child, member, -, modifies⟩ := Tree.exists_related parts.flip member
    exact .part present member (modifies acts)
  | choice parts =>
    rw [Tree.acts, Tree.anyActs_eq, List.any_eq_true] at acts
    obtain ⟨body, member, acts⟩ := acts
    obtain ⟨child, member, -, modifies⟩ := Tree.exists_related parts.flip member
    exact .part present member (modifies acts)
  | repetition part => exact .part present (List.mem_singleton_self _) (part.2 acts)
  | lookahead => cases acts

theorem modifies_of_leadsToAction (leads : LeadsToAction g.rootTrees index) {root : Nat}
    (defined : g.root? index = some root) : g.Modifies root := by
  induction leads generalizing root with
  | intro shown acts _ ih =>
    rw [rootTrees_getElem?, defined, Option.map_some, Option.some.injEq] at shown
    exact wellFormed.modifies_of_acts (fun target acting => ih target acting) (.root defined) shown acts

/-- Nodes act by their trees exactly if they modify. -/
theorem nodeActs_iff (rooted : g.Rooted i) : g.nodeActs i = true ↔ g.Modifies i := by
  refine ⟨fun acts => ?_, fun modifies => wellFormed.nodeActs_of_modifies modifies rooted⟩
  rw [nodeActs, Option.any_eq_true] at acts
  obtain ⟨t, tree, acts⟩ := acts
  refine wellFormed.modifies_of_acts (fun target acting root defined => ?_) rooted tree acts
  exact wellFormed.modifies_of_leadsToAction (acting_iff.mp acting) defined

/-- Every production has a mark, which tells whether its root modifies. -/
theorem mark_iff {root : Nat} (defined : g.root? index = some root) :
    ∃ acts, g.marks[index]? = some (some acts) ∧ (acts = true ↔ g.Modifies root) := by
  have known : index < g.productions.size := by
    simp only [root?, Option.map_eq_some_iff] at defined
    obtain ⟨p, found, -⟩ := defined
    exact (Array.getElem?_eq_some_iff.mp found).1
  obtain ⟨acts, marked, leads⟩ := mark_eq_some_iff known
  refine ⟨acts, marked, ?_⟩
  rw [leads, ← acting_iff, acting_eq defined, wellFormed.nodeActs_iff (.root defined)]

/-- A tree is in need of a scope if an early element or the body of a lookahead modifies. -/
theorem isSite_iff (rooted : g.Rooted i) (tree : g.tree? i = some t) : t.IsSite g.acting ↔
    (∃ children, g.expr? i = some (.sequence children) ∧ ∃ child ∈ children.dropLast, g.Modifies child) ∨
      ∃ child sign, g.expr? i = some (.lookahead child sign) ∧ g.Modifies child := by
  have acts_iff {child : Nat} {body : Tree} (rooted : g.Rooted child) (part : g.tree? child = some body) :
      body.acts g.acting = true ↔ g.Modifies child := by
    rw [← wellFormed.nodeActs_iff rooted, nodeActs, part, Option.any_some]
  obtain ⟨e, present⟩ := wellFormed.expr?_rooted rooted
  obtain ⟨t', tree', layer⟩ := wellFormed.layer rooted present
  cases tree.symm.trans tree'
  rw [present]
  cases layer with
  | @sequence children items parts =>
    have early := Tree.forall₂_dropLast parts
    have inside {child : Nat} (member : child ∈ children.dropLast) : g.Rooted child :=
      rooted.child present (List.dropLast_subset _ member)
    constructor
    · rintro ⟨body, member, acts⟩
      obtain ⟨child, member, part⟩ := Tree.exists_related early.flip member
      exact .inl ⟨children, rfl, child, member, (acts_iff (inside member) part).mp acts⟩
    · rintro (⟨_, same, child, member, modifies⟩ | ⟨_, _, same, -⟩)
      · cases same
        obtain ⟨body, listed, part⟩ := Tree.exists_related early member
        exact ⟨body, listed, (acts_iff (inside member) part).mpr modifies⟩
      · cases same
  | @lookahead child sign body part =>
    have same := acts_iff (rooted.child present (List.mem_singleton_self child)) part
    constructor
    · exact fun acts => .inr ⟨child, sign, rfl, same.mp acts⟩
    · rintro (⟨_, other, -⟩ | ⟨_, _, other, modifies⟩)
      · cases other
      · cases other
        exact same.mpr modifies
  | _ => exact iff_of_false id (by rintro (⟨_, other, -⟩ | ⟨_, _, other, -⟩) <;> cases other)

/-- The flag of a node in reach tells whether an action is right around it. -/
theorem underAction_eq_false_iff (rooted : g.Rooted i) : g.underAction i = false ↔
    ∀ {j : Nat} {e : Expr}, g.expr? j = some e → e.isAction = true → i ∉ e.children := by
  constructor
  · intro free j e present acts member
    obtain ⟨above, found, rfl⟩ := node_of_expr? present
    obtain ⟨part, here, inside, -⟩ := wellFormed.part found member
    simp [underAction, here, inside, present, acts] at free
  · intro free
    apply wellFormed.not_underAction
    cases rooted with
    | root defined => exact .root defined
    | part above found member =>
      refine .part above (expr?_of_node found) (Bool.eq_false_iff.mpr fun acts => ?_) member
      exact free (expr?_of_node found) acts member

/-- The sites are the nodes that need a scope. -/
theorem mem_undoSites_iff_needsScope : i ∈ g.undoSites ↔ g.NeedsScope i := by
  rw [wellFormed.mem_undoSites_iff]
  constructor
  · rintro ⟨rooted, free, t, tree, needs⟩
    exact ⟨rooted, (wellFormed.underAction_eq_false_iff rooted).mp free, (wellFormed.isSite_iff rooted tree).mp needs⟩
  · rintro ⟨rooted, free, modifies⟩
    obtain ⟨t, tree⟩ := wellFormed.exists_tree? rooted
    exact ⟨rooted, (wellFormed.underAction_eq_false_iff rooted).mpr free, t, tree,
      (wellFormed.isSite_iff rooted tree).mpr modifies⟩

/-- Scopes around distinct nodes in reach, put in one after the other. -/
theorem scoped_of_splices (distinct : sites.Nodup) (below : ∀ i ∈ sites, g.Rooted i) :
    g.Scoped sites (sites.foldl (fun g i => (g.splice i .undo).2) g) := by
  induction sites generalizing g with
  | nil =>
    have still : g.placed [] = id := funext fun i => if_neg List.not_mem_nil
    refine ⟨rfl, nofun, fun _ => ?_, fun _ => ?_⟩
    · rw [still, funext Expr.mapChildren_id]
      exact Option.map_id'.symm
    · rw [still]
      exact Option.map_id'.symm
  | cons i rest ih =>
    obtain ⟨fresh, distinct⟩ := List.nodup_cons.mp distinct
    obtain ⟨rooted, below⟩ := List.forall_mem_cons.mp below
    have attached := wellFormed.attached rooted
    have size := size_splice attached .undo
    have new : g.nodes.size ∉ rest := fun member => Nat.lt_irrefl _ (wellFormed.lt_size (below _ member))
    have below' : ∀ j ∈ rest, (g.splice i .undo).2.Rooted j :=
      fun j member => (below j member).splice rfl
    obtain ⟨size', scope, expr, productions⟩ := ih (wellFormed.splice attached rfl) distinct below'
    -- The first scope takes the place of its node, and the later ones that of theirs.
    have both : (g.splice i .undo).2.placed rest ∘ g.replaced i = g.placed (i :: rest) := by
      funext j
      simp only [Function.comp_apply, placed, replaced, size]
      by_cases itself : j = i
      · simp [itself, new]
      · simp only [itself, if_false, List.mem_cons, false_or, List.idxOf_cons_ne _ (Ne.symm itself)]
        split <;> omega
    rw [List.foldl_cons]
    constructor
    case size => rw [size', size, List.length_cons]; omega
    case scope =>
      intro k site listed
      cases k with
      | zero =>
        cases listed
        rw [Nat.add_zero, expr (by omega), wellFormed.splice_expr? attached, if_pos rfl, Option.map_some]
        simp [Expr.mapChildren, placed, fresh]
      | succ k =>
        rw [List.getElem?_cons_succ] at listed
        rw [← scope listed, size, Nat.add_assoc, Nat.add_comm 1]
    case expr =>
      intro j small
      rw [expr (by omega), wellFormed.splice_expr? attached, if_neg (Nat.ne_of_lt small), Option.map_map, ← both]
      congr 1
      funext e
      exact Expr.mapChildren_mapChildren ..
    case productions =>
      intro index
      obtain ⟨node, here, -⟩ := attached
      rw [productions, wellFormed.splice_productions here, Option.map_map, ← both]
      rfl

end WellFormed

theorem nodup_undoSites (g : Grammar) : g.undoSites.Nodup := nodup_eraseDups _

/-- The marks tell which productions modify the host, and scopes are put around exactly the nodes that
need one, once around each of them, and counted. -/
theorem undoScopes_exact (wellFormed : g.WellFormed) :
    (∀ {index root : Nat}, g.root? index = some root →
      ∃ acts, g.marks[index]? = some (some acts) ∧ (acts = true ↔ g.Modifies root)) ∧
      ∃ sites : List Nat, sites.Nodup ∧ (∀ i, i ∈ sites ↔ g.NeedsScope i) ∧
        g.injectUndo.1 = sites.length ∧ g.Scoped sites g.injectUndo.2 ∧ g.injectUndo.2.WellFormed :=
  ⟨wellFormed.mark_iff, g.undoSites, g.nodup_undoSites, fun _ => wellFormed.mem_undoSites_iff_needsScope, rfl,
    wellFormed.scoped_of_splices g.nodup_undoSites fun _ listed => (wellFormed.rooted_of_mem_sites listed).1,
    wellFormed.injectUndo.1⟩

end Grammar

namespace Sample

/-- `a : b 'x'; b : a / c; c : !b $note('y'); d : d 'z';`, where the marks of three productions hang together. -/
def tangled : Grammar where
  productions := #[
    { name := "a", index := 0, root := 0, defined := true },
    { name := "b", index := 1, root := 3, defined := true },
    { name := "c", index := 2, root := 6, defined := true },
    { name := "d", index := 3, root := 11, defined := true }]
  nodes := #[
    { expr := .sequence [1, 2], owner := 0 },
    { expr := .reference 1 false, owner := 0, parent := some 0 },
    { expr := .terminal (.token "x" true), owner := 0, parent := some 0 },
    { expr := .choice [4, 5], owner := 1 },
    { expr := .reference 0 false, owner := 1, parent := some 3 },
    { expr := .reference 2 false, owner := 1, parent := some 3 },
    { expr := .sequence [7, 9], owner := 2 },
    { expr := .lookahead 8 .absent, owner := 2, parent := some 6 },
    { expr := .reference 1 false, owner := 2, parent := some 7 },
    { expr := .action 10 "note" false, owner := 2, parent := some 6 },
    { expr := .terminal (.token "y" true), owner := 2, parent := some 9 },
    { expr := .sequence [12, 13], owner := 3 },
    { expr := .reference 3 false, owner := 3, parent := some 11 },
    { expr := .terminal (.token "z" true), owner := 3, parent := some 11 }]
  problems := []
  source := none

/-- The sequence of `a` and the lookahead of `c` get a scope each. -/
theorem tangled_scopes : tangled.WellFormed ∧ tangled.marks = [some true, some true, some true, some false] ∧
    ∃ sites : List Nat, sites.Nodup ∧ sites.length = 2 ∧ (∀ i, i ∈ sites ↔ tangled.NeedsScope i) ∧
      tangled.Scoped sites tangled.injectUndo.2 := by
  have wellFormed : tangled.WellFormed := Grammar.wellFormed_of_linked (by decide)
  obtain ⟨-, sites, distinct, needed, number, around, -⟩ := Grammar.undoScopes_exact wellFormed
  have two : tangled.injectUndo.1 = 2 := by decide +kernel
  exact ⟨wellFormed, by decide +kernel, sites, distinct, number.symm.trans two, needed, around⟩

end Sample

end Packrat
