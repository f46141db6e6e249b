import Packrat.Proofs.Grammar.Marking
import Packrat.Proofs.Grammar.Splice

/-! # Undo scopes shelter a grammar

Every production that acts is marked so. Then every exposed node is among the sites that the trees of
the productions list, and after a scope is put around each of them no exposed node is open: `injectUndo`
makes a well-formed grammar a sheltered one.
-/

namespace Packrat

namespace Tree

variable {acting : Nat → Bool}

theorem choiceSites_eq (items : List Tree) : choiceSites acting items = items.flatMap (undoSites acting) := by
  induction items with
  | nil => rfl
  | cons t rest ih => rw [choiceSites, List.flatMap_cons, ih]

private theorem sequenceSites_cons_cons {id : Nat} {acted : Bool} {t next : Tree} {rest : List Tree} :
    sequenceSites acting id acted (t :: next :: rest) =
      t.undoSites acting ++ sequenceSites acting id (acted || t.acts acting) (next :: rest) := by
  rw [sequenceSites]
  nofun

private theorem mem_sequenceSites {id site : Nat} {acted : Bool} {items : List Tree} (several : items ≠ []) :
    site ∈ sequenceSites acting id acted items ↔
      (site = id ∧ (acted = true ∨ ∃ t ∈ items.dropLast, t.acts acting = true)) ∨
        ∃ t ∈ items, site ∈ t.undoSites acting := by
  induction items generalizing acted with
  | nil => exact absurd rfl several
  | cons t rest ih =>
    cases rest with
    | nil => cases acted <;> simp [sequenceSites]
    | cons next rest =>
      rw [sequenceSites_cons_cons, List.mem_append, ih (List.cons_ne_nil _ _)]
      simp only [Bool.or_eq_true, List.dropLast_cons_cons, List.mem_cons, exists_eq_or_imp, or_assoc]
      exact or_left_comm

/-- The sites of a sequence are those of its elements, and the sequence itself if it acts too early. -/
theorem mem_undoSites_sequence {id site : Nat} {items : List Tree} :
    site ∈ (sequence id items).undoSites acting ↔
      (site = id ∧ ∃ t ∈ items.dropLast, t.acts acting = true) ∨ ∃ t ∈ items, site ∈ t.undoSites acting := by
  cases items with
  | nil => simp [undoSites, sequenceSites]
  | cons t rest => simp [undoSites, mem_sequenceSites]

/-- The expression is in need of an undo scope itself. -/
def IsSite (acting : Nat → Bool) : Tree → Prop
  | sequence _ items => ∃ t ∈ items.dropLast, t.acts acting = true
  | lookahead _ _ body => body.acts acting = true
  | _ => False

theorem forall₂_dropLast {α β : Type} {related : α → β → Prop} {xs : List α} {ys : List β}
    (pairs : List.Forall₂ related xs ys) : List.Forall₂ related xs.dropLast ys.dropLast := by
  rw [List.dropLast_eq_take, List.dropLast_eq_take, ← pairs.length_eq]
  exact List.forall₂_take _ pairs

namespace Layer

variable {branch : Nat → Tree → Prop} {i site : Nat} {e : Expr} {t : Tree}

/-- A site is the root if it is in need of a scope, or a site of a branch. -/
theorem mem_undoSites (layer : Layer branch i e t) (listed : site ∈ t.undoSites acting) :
    (site = i ∧ t.IsSite acting) ∨ ∃ child ∈ e.children, ∃ body, branch child body ∧ site ∈ body.undoSites acting := by
  cases layer with
  | terminal => cases listed
  | reference => cases listed
  | action part => exact .inr ⟨_, List.mem_singleton_self _, _, part, listed⟩
  | undo part => exact .inr ⟨_, List.mem_singleton_self _, _, part, listed⟩
  | sequence parts =>
    rcases mem_undoSites_sequence.mp listed with itself | ⟨body, member, listed⟩
    · exact .inl itself
    · obtain ⟨child, member, part⟩ := exists_related parts.flip member
      exact .inr ⟨child, member, body, part, listed⟩
  | choice parts =>
    rw [undoSites, choiceSites_eq, List.mem_flatMap] at listed
    obtain ⟨body, member, listed⟩ := listed
    obtain ⟨child, member, part⟩ := exists_related parts.flip member
    exact .inr ⟨child, member, body, part, listed⟩
  | repetition part => exact .inr ⟨_, List.mem_singleton_self _, _, part, listed⟩
  | lookahead part =>
    rw [undoSites, List.mem_append] at listed
    rcases listed with listed | itself
    · exact .inr ⟨_, List.mem_singleton_self _, _, part, listed⟩
    · split at itself
      · next acts => exact .inl ⟨List.mem_singleton.mp itself, acts⟩
      · cases itself

/-- A root in need of a scope is a site. -/
theorem mem_undoSites_self (layer : Layer branch i e t) (needs : t.IsSite acting) : i ∈ t.undoSites acting := by
  cases layer with
  | sequence => exact mem_undoSites_sequence.mpr (.inl ⟨rfl, needs⟩)
  | lookahead =>
    rw [undoSites, if_pos (show acts acting _ = true from needs)]
    exact List.mem_append_right _ (List.mem_singleton_self _)
  | _ => exact needs.elim

/-- All sites of the branches are sites. -/
theorem undoSites_of_branch {child : Nat} (layer : Layer branch i e t) (member : child ∈ e.children) :
    ∃ body, branch child body ∧ ∀ site ∈ body.undoSites acting, site ∈ t.undoSites acting := by
  cases layer with
  | terminal => cases member
  | reference => cases member
  | action part =>
    rw [List.mem_singleton.mp member]
    exact ⟨_, part, fun _ listed => listed⟩
  | undo part =>
    rw [List.mem_singleton.mp member]
    exact ⟨_, part, fun _ listed => listed⟩
  | sequence parts =>
    obtain ⟨body, member, part⟩ := exists_related parts member
    exact ⟨body, part, fun site listed => mem_undoSites_sequence.mpr (.inr ⟨body, member, listed⟩)⟩
  | choice parts =>
    obtain ⟨body, member, part⟩ := exists_related parts member
    refine ⟨body, part, fun site listed => ?_⟩
    rw [undoSites, choiceSites_eq, List.mem_flatMap]
    exact ⟨body, member, listed⟩
  | repetition part =>
    rw [List.mem_singleton.mp member]
    exact ⟨_, part, fun _ listed => listed⟩
  | lookahead part =>
    rw [List.mem_singleton.mp member]
    refine ⟨_, part, fun site listed => ?_⟩
    rw [undoSites]
    exact List.mem_append_left _ listed

end Layer

end Tree

namespace Grammar

variable {g : Grammar} {i index site : Nat} {e : Expr} {t : Tree}

/-- The node acts, as far as its tree and the marks tell. -/
def nodeActs (g : Grammar) (i : Nat) : Bool := (g.tree? i).any (Tree.acts g.acting)

theorem acting_eq (defined : g.root? index = some i) : g.acting index = g.nodeActs i := by
  have shown := rootTrees_getElem? (g := g) index
  rw [defined, Option.map_some] at shown
  rw [Bool.eq_iff_iff, acting_iff, nodeActs]
  cases tree : g.tree? i with
  | some t =>
    rw [tree] at shown
    exact leadsToAction_iff (fun _ => acting_iff) shown
  | none =>
    refine iff_of_false (fun leads => ?_) Bool.false_ne_true
    obtain ⟨shown', -, -⟩ := leads
    cases tree.symm.trans (Option.some.inj (shown.symm.trans shown'))

theorem nodup_eraseDups (xs : List Nat) : xs.eraseDups.Nodup := by
  generalize size : xs.length = n
  induction n using Nat.strongRecOn generalizing xs with
  | _ n ih =>
    cases xs with
    | nil => exact List.nodup_nil
    | cons x rest =>
      have shorter := List.length_filter_le (fun y => !y == x) rest
      rw [List.length_cons] at size
      rw [List.eraseDups_cons, List.nodup_cons, List.mem_eraseDups]
      exact ⟨by simp, ih _ (by omega) _ rfl⟩

namespace WellFormed

variable (wellFormed : g.WellFormed)

include wellFormed

/-- Nodes that modify act by their trees. -/
theorem nodeActs_of_modifies (modifies : g.Modifies i) (rooted : g.Rooted i) : g.nodeActs i = true := by
  have shown {child : Nat} {body : Tree} (part : g.tree? child = some body) :
      g.nodeActs child = body.acts g.acting := by
    rw [nodeActs, part, Option.any_some]
  induction modifies with
  | action present acts =>
    obtain ⟨t, tree, layer⟩ := wellFormed.layer rooted present
    rw [shown tree]
    cases layer with
    | action => rfl
    | undo => rfl
    | _ => cases acts
  | part present member _ ih =>
    have acts := ih (rooted.child present (Expr.mem_children_of_open member))
    obtain ⟨t, tree, layer⟩ := wellFormed.layer rooted present
    rw [shown tree]
    cases layer with
    | terminal => cases member
    | reference => cases member
    | action => rfl
    | undo => rfl
    | sequence parts =>
      rw [Tree.acts, Tree.anyActs_eq, ← (Tree.bits_eq parts shown).1]
      exact List.any_eq_true.mpr ⟨_, member, acts⟩
    | choice parts =>
      rw [Tree.acts, Tree.anyActs_eq, ← (Tree.bits_eq parts shown).1]
      exact List.any_eq_true.mpr ⟨_, member, acts⟩
    | repetition part =>
      rw [List.mem_singleton.mp member, shown part] at acts
      exact acts
    | lookahead => cases member
  | reference present defined _ ih =>
    have acts := ih (.root defined)
    obtain ⟨t, tree, layer⟩ := wellFormed.layer rooted present
    rw [shown tree]
    cases layer with
    | reference =>
      rw [← acting_eq defined] at acts
      exact acts

/-- Nodes that act do so by their trees. -/
theorem nodeActs_of_acts (acts : g.Acts i) (rooted : g.Rooted i) : g.nodeActs i = true :=
  wellFormed.nodeActs_of_modifies acts.modifies rooted

/-- An exposed node is in need of a scope by its tree. -/
theorem isSite_of_exposed (exposed : g.Exposed i) (rooted : g.Rooted i) (tree : g.tree? i = some t) :
    t.IsSite g.acting := by
  have acted {child : Nat} {body : Tree} (acts : g.Acts child) (rooted : g.Rooted child)
      (part : g.tree? child = some body) : body.acts g.acting = true := by
    have acts := wellFormed.nodeActs_of_acts acts rooted
    rwa [nodeActs, part, Option.any_some] at acts
  rcases exposed with ⟨children, present, child, member, acts⟩ | ⟨child, sign, present, acts⟩
  · obtain ⟨t', tree', layer⟩ := wellFormed.layer rooted present
    cases tree.symm.trans tree'
    cases layer with
    | sequence parts =>
      obtain ⟨body, listed, part⟩ := Tree.exists_related (Tree.forall₂_dropLast parts) member
      have inside := rooted.child present (List.dropLast_subset _ member)
      exact ⟨body, listed, acted acts inside part⟩
  · obtain ⟨t', tree', layer⟩ := wellFormed.layer rooted present
    cases tree.symm.trans tree'
    cases layer with
    | lookahead part => exact acted acts (rooted.child present (List.mem_singleton_self _)) part

/-- The sites of a tree are nodes below its root that are in need of a scope by their own trees. -/
theorem isSite_of_mem (rooted : g.Rooted i) (tree : g.tree? i = some t) (listed : site ∈ t.undoSites g.acting) :
    g.Rooted site ∧ ∃ t, g.tree? site = some t ∧ t.IsSite g.acting := by
  refine wellFormed.rooted_induction (motive := fun i => g.Rooted i → ∀ t, g.tree? i = some t →
    site ∈ t.undoSites g.acting → g.Rooted site ∧ ∃ t, g.tree? site = some t ∧ t.IsSite g.acting)
    ?_ rooted rooted t tree listed
  intro i e rooted present parts _ t tree listed
  obtain ⟨t', tree', layer⟩ := wellFormed.layer rooted present
  cases tree.symm.trans tree'
  rcases layer.mem_undoSites listed with ⟨rfl, needs⟩ | ⟨child, member, body, part, listed⟩
  · exact ⟨rooted, t, tree, needs⟩
  · exact parts child member (rooted.child present member) body part listed

/-- The sites of a node are sites of a production. -/
theorem undoSites_of_rooted (rooted : g.Rooted i) :
    ∃ index root whole t, g.root? index = some root ∧ g.tree? root = some whole ∧ g.tree? i = some t ∧
      ∀ site ∈ t.undoSites g.acting, site ∈ whole.undoSites g.acting := by
  induction rooted with
  | @root index root defined =>
    obtain ⟨t, tree⟩ := wellFormed.exists_tree? (.root defined)
    exact ⟨index, root, t, t, defined, tree, tree, fun _ listed => listed⟩
  | part rooted present member ih =>
    obtain ⟨index, root, whole, t, defined, top, tree, inside⟩ := ih
    obtain ⟨t', tree', layer⟩ := wellFormed.layer rooted (expr?_of_node present)
    cases tree.symm.trans tree'
    obtain ⟨body, part, sites⟩ := layer.undoSites_of_branch member
    exact ⟨index, root, whole, body, defined, top, part, fun site listed => inside site (sites site listed)⟩

/-- Nothing right inside an action is open. -/
theorem not_underAction (isOpen : g.Open i) : g.underAction i = false := by
  cases isOpen with
  | root defined =>
    simp only [root?, Option.map_eq_some_iff] at defined
    obtain ⟨p, found, rfl⟩ := defined
    obtain ⟨node, here, top, -⟩ := wellFormed.root found
    simp [underAction, here, top]
  | part rooted present plain member =>
    obtain ⟨node, found, rfl⟩ := node_of_expr? present
    obtain ⟨part, here, inside, -⟩ := wellFormed.part found member
    simp [underAction, here, inside, present, plain]

/-- The sites of the grammar: the nodes within reach that are in need of a scope and have no action right around. -/
theorem mem_undoSites_iff : i ∈ g.undoSites ↔
    g.Rooted i ∧ g.underAction i = false ∧ ∃ t, g.tree? i = some t ∧ t.IsSite g.acting := by
  rw [undoSites, List.mem_eraseDups, List.mem_filter, List.mem_flatMap, Bool.not_eq_true']
  constructor
  · rintro ⟨⟨tree, member, listed⟩, free⟩
    obtain ⟨index, production⟩ := List.mem_iff_getElem?.mp member
    rw [rootTrees_getElem?, Option.map_eq_some_iff] at production
    obtain ⟨root, defined, rfl⟩ := production
    obtain ⟨t, tree⟩ := wellFormed.exists_tree? (.root defined)
    rw [tree] at listed
    obtain ⟨rooted, needs⟩ := wellFormed.isSite_of_mem (.root defined) tree listed
    exact ⟨rooted, free, needs⟩
  · rintro ⟨rooted, free, t, tree, needs⟩
    obtain ⟨index, root, whole, t', defined, top, tree', sites⟩ := wellFormed.undoSites_of_rooted rooted
    cases tree.symm.trans tree'
    obtain ⟨e, present⟩ := wellFormed.expr?_rooted rooted
    obtain ⟨t', tree', layer⟩ := wellFormed.layer rooted present
    cases tree.symm.trans tree'
    refine ⟨⟨some whole, ?_, sites i (layer.mem_undoSites_self needs)⟩, free⟩
    have production := rootTrees_getElem? (g := g) index
    rw [defined, Option.map_some, top] at production
    exact List.mem_of_getElem? production

/-- The sites include every exposed node with nothing right around it. -/
theorem mem_undoSites (isOpen : g.Open i) (exposed : g.Exposed i) : i ∈ g.undoSites := by
  obtain ⟨t, tree⟩ := wellFormed.exists_tree? isOpen.rooted
  exact wellFormed.mem_undoSites_iff.mpr ⟨isOpen.rooted, wellFormed.not_underAction isOpen, t, tree,
    wellFormed.isSite_of_exposed exposed isOpen.rooted tree⟩

theorem rooted_of_mem_sites (listed : i ∈ g.undoSites) :
    g.Rooted i ∧ ∀ t, g.expr? i ≠ some (.terminal t) := by
  obtain ⟨rooted, -, t, tree, needs⟩ := wellFormed.mem_undoSites_iff.mp listed
  refine ⟨rooted, fun terminal leaf => ?_⟩
  obtain ⟨t', tree', layer⟩ := wellFormed.layer rooted leaf
  cases tree.symm.trans tree'
  cases layer
  exact needs

/-- Scopes around nodes that include every exposed node with nothing around it shelter the grammar. -/
theorem sheltered_of_splices {sites : List Nat} (below : ∀ i ∈ sites, g.Rooted i)
    (all : ∀ {i}, g.Open i → g.Exposed i → i ∈ sites) :
    (sites.foldl (fun g i => (g.splice i .undo).2) g).WellFormed ∧
      (sites.foldl (fun g i => (g.splice i .undo).2) g).Sheltered := by
  induction sites generalizing g with
  | nil => exact ⟨wellFormed, fun isOpen exposed => List.not_mem_nil (all isOpen exposed)⟩
  | cons i rest ih =>
    have attached := wellFormed.attached (below i (List.mem_cons_self ..))
    refine ih (wellFormed.splice attached rfl) ?_ ?_
    · intro j member
      exact (below j (List.mem_cons_of_mem _ member)).splice rfl
    · intro j isOpen exposed
      obtain ⟨old, before⟩ := wellFormed.exposed_of_splice_undo attached exposed
      obtain ⟨wasOpen, other⟩ := wellFormed.open_of_splice_undo attached old isOpen
      exact List.mem_of_ne_of_mem other (all wasOpen before)

theorem injectUndo : g.injectUndo.2.WellFormed ∧ g.injectUndo.2.Sheltered :=
  wellFormed.sheltered_of_splices (fun _ listed => (wellFormed.rooted_of_mem_sites listed).1) wellFormed.mem_undoSites

/-- What no undo scope around an expression that is not a terminal changes, all of them do not change. -/
theorem injectUndo_induction {motive : Grammar → Prop}
    (keeps : ∀ {g : Grammar} {i : Nat}, g.WellFormed → g.Rooted i → (∀ t, g.expr? i ≠ some (.terminal t)) → motive g →
      motive (g.splice i .undo).2) (start : motive g) : motive g.injectUndo.2 := by
  have splices {sites : List Nat} {g : Grammar} (wellFormed : g.WellFormed)
      (below : ∀ i ∈ sites, g.Rooted i ∧ ∀ t, g.expr? i ≠ some (.terminal t)) (before : motive g) :
      motive (sites.foldl (fun g i => (g.splice i .undo).2) g) := by
    induction sites generalizing g with
    | nil => exact before
    | cons i rest ih =>
      obtain ⟨rooted, inner⟩ := below i (List.mem_cons_self ..)
      have attached := wellFormed.attached rooted
      refine ih (wellFormed.splice attached rfl) (fun j member => ?_) (keeps wellFormed rooted inner before)
      obtain ⟨rooted', inner'⟩ := below j (List.mem_cons_of_mem _ member)
      refine ⟨rooted'.splice rfl, fun t leaf => ?_⟩
      obtain ⟨-, same⟩ | ⟨-, e, before, same⟩ := wellFormed.expr?_of_splice attached leaf
      · cases same
      · cases e with
        | terminal => exact inner' _ before
        | _ => cases same
  exact splices wellFormed (fun _ listed => wellFormed.rooted_of_mem_sites listed) start

end WellFormed

/-- No body of `&e`, and no body of a repetition that must match twice, acts by its tree. -/
def hushed (g : Grammar) : Bool :=
  g.nodes.all fun node =>
    match node.expr with
    | .lookahead child .present => !g.nodeActs child
    | .repetition child min _ => min < 2 || !g.nodeActs child
    | _ => true

theorem quiet_of_hushed (wellFormed : g.WellFormed) (checked : g.hushed = true) : g.Quiet := by
  have node {i : Nat} {n : Node} (here : g.nodes[i]? = some n) := Array.all_eq_true_iff_forall_mem.mp checked n
    (Array.mem_of_getElem? here)
  have idle {child : Nat} (rooted : g.Rooted child) (quiet : (!g.nodeActs child) = true) : ¬ g.Acts child := by
    intro acts
    rw [wellFormed.nodeActs_of_acts acts rooted] at quiet
    cases quiet
  constructor
  · intro i child rooted present
    obtain ⟨n, here, same⟩ := node_of_expr? present
    have checked := node here
    rw [same] at checked
    exact idle (rooted.child present (List.mem_singleton_self _)) checked
  · intro i child min max rooted present twice
    obtain ⟨n, here, same⟩ := node_of_expr? present
    have checked := node here
    rw [same] at checked
    refine idle (rooted.child present (List.mem_singleton_self _)) (((Bool.or_eq_true _ _).mp checked).resolve_left ?_)
    intro once
    exact absurd (of_decide_eq_true once) (by omega)

end Grammar

end Packrat
