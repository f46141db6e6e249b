import Packrat.Proofs.Grammar.UndoScopes

/-! # Links before a splice

A splice mends nothing. The wrapper takes over the links of the node that it is put around, so if that node is
reached from a root, whatever these links contradict is still there: a grammar whose links agree with the undo scopes
in it is one whose links agreed without them (`injectUndo_wellFormed_iff`).
-/

namespace Packrat

namespace Tree

variable {acting : Nat → Bool}

/-- Sites are reached on the way down the tree, whether or not all links of the grammar agree. -/
theorem rooted_of_mem_undoSites {g : Grammar} {depth i site : Nat} {t : Tree} (rooted : g.Rooted i)
    (shown : g.unfold depth i = some t) (listed : site ∈ t.undoSites acting) : g.Rooted site := by
  induction depth generalizing i t with
  | zero => cases shown
  | succ depth ih =>
    obtain ⟨e, present, layer⟩ := Grammar.unfold_succ_eq_some.mp shown
    obtain ⟨rfl, -⟩ | ⟨child, member, body, part, listed⟩ := layer.mem_undoSites listed
    · exact rooted
    · exact ih (rooted.child present member) part listed

end Tree

namespace Grammar

variable {g : Grammar} {i j index : Nat} {wrap : Nat → Expr} {node other : Node}

theorem rooted_of_mem_undoSites (listed : i ∈ g.undoSites) : g.Rooted i := by
  rw [undoSites, List.mem_eraseDups, List.mem_filter, List.mem_flatMap] at listed
  obtain ⟨⟨tree, member, listed⟩, -⟩ := listed
  obtain ⟨p, defined, rfl⟩ := List.mem_map.mp member
  obtain ⟨k, found⟩ := List.mem_iff_getElem?.mp defined
  rw [Array.getElem?_toList] at found
  cases shown : g.tree? p.root with
  | none =>
    rw [shown] at listed
    cases listed
  | some t =>
    rw [shown] at listed
    exact Tree.rooted_of_mem_undoSites (rooted_root found) shown listed

theorem mem_children_relinked {child : Nat} (member : child ∈ other.expr.children) (others : child ≠ i) :
    child ∈ (g.relinked i node j other).expr.children := by
  unfold relinked
  split
  · rw [Expr.children_mapChildren]
    exact List.mem_map.mpr ⟨child, member, if_neg others⟩
  · exact member

/-- The wrapped node is no part but of the wrapper. -/
private theorem parent_of_wrapped {part : Node} (here : g.nodes[i]? = some node)
    (found : (g.splice i wrap).2.nodes[i]? = some part) : part.parent = some g.nodes.size := by
  cases found.symm.trans (splice_earlier wrap here here)
  exact if_pos rfl

section

variable (here : g.nodes[i]? = some node) (wellFormed : (g.splice i wrap).2.WellFormed)

include here wellFormed

theorem links_of_root (defined : g.root? index = some i) : node.parent = none ∧ node.owner = index := by
  obtain ⟨p, found, rfl⟩ := Option.map_eq_some_iff.mp defined
  have production := splice_production wrap here index
  rw [found, Option.map_some] at production
  split at production
  · next moved => exact moved
  · obtain ⟨root, below, top, -⟩ := wellFormed.root production
    cases top.symm.trans (parent_of_wrapped here below)

theorem links_of_part (present : g.nodes[j]? = some other) (member : i ∈ other.expr.children) :
    node.parent = some j := by
  by_contra elsewhere
  have kept := splice_earlier wrap here present
  rw [relinked, if_neg elsewhere] at kept
  obtain ⟨part, below, inside, -⟩ := wellFormed.part kept member
  cases inside.symm.trans (parent_of_wrapped here below)
  exact absurd (Array.getElem?_eq_some_iff.mp present).1 (Nat.lt_irrefl _)

/-- The links of a node agree with the way it is reached. -/
theorem links_of_rooted (rooted : g.Rooted i) : (node.parent = none ∧ g.root? node.owner = some i) ∨
    ∃ m above, node.parent = some m ∧ g.Rooted m ∧ g.nodes[m]? = some above ∧ i ∈ above.expr.children := by
  cases rooted with
  | root defined =>
    obtain ⟨top, rfl⟩ := links_of_root here wellFormed defined
    exact .inl ⟨top, defined⟩
  | part reached present member =>
    exact .inr ⟨_, _, links_of_part here wellFormed present member, reached, present, member⟩

variable (wraps : (wrap i).children = [i]) (rooted : g.Rooted i)

include rooted

theorem not_dangling : node.parent ≠ some g.nodes.size := by
  obtain ⟨top, -⟩ | ⟨m, above, inside, -, present, -⟩ := links_of_rooted here wellFormed rooted
  · rw [top]
    nofun
  · rw [inside]
    rintro ⟨⟩
    exact absurd (Array.getElem?_eq_some_iff.mp present).1 (Nat.lt_irrefl _)

/-- What is not the wrapper was there before, with the same links unless it is the wrapped node. -/
theorem exists_of_splice {after : Node} (found : (g.splice i wrap).2.nodes[j]? = some after) (old : j ≠ g.nodes.size)
    (others : j ≠ i) : ∃ part, g.nodes[j]? = some part ∧ part.parent = after.parent ∧ part.owner = after.owner := by
  cases earlier : g.nodes[j]? with
  | some part =>
    cases found.symm.trans (splice_earlier wrap here earlier)
    exact ⟨part, rfl, (if_neg others).symm, rfl⟩
  | none =>
    have inside := (Array.getElem?_eq_some_iff.mp found).1
    rw [size_splice ⟨node, here, not_dangling here wellFormed rooted⟩] at inside
    have outside := Array.getElem?_eq_none_iff.mp earlier
    omega

/-- No root was missing: only the wrapper is new, and it is the root where the node was. -/
theorem root_ne_size {p : Production} (found : g.productions[index]? = some p) : p.root ≠ g.nodes.size := by
  intro missing
  have small := Nat.ne_of_lt (Array.getElem?_eq_some_iff.mp here).1
  have production := splice_production wrap here index
  have wrapper := splice_wrapper wrap here (not_dangling here wellFormed rooted)
  have others : g.replaced i p.root = p.root := if_neg fun same => small (same.symm.trans missing)
  rw [found, Option.map_some, others, ite_self] at production
  obtain ⟨top, owned⟩ := wellFormed.owner_eq production (missing ▸ wrapper)
  obtain ⟨-, defined⟩ | ⟨m, above, inside, -⟩ := links_of_rooted here wellFormed rooted
  · rw [owned, root?, found, Option.map_some, missing] at defined
    exact small (Option.some.inj defined).symm
  · cases inside.symm.trans top

include wraps

/-- No part was missing: the wrapper is a part where the node was, and nowhere is it a part twice. -/
theorem part_ne_size {child : Nat} (present : g.nodes[j]? = some other) (member : child ∈ other.expr.children) :
    child ≠ g.nodes.size := by
  rintro rfl
  have small := Nat.ne_of_lt (Array.getElem?_eq_some_iff.mp here).1
  have kept := splice_earlier wrap here present
  have wrapper := splice_wrapper wrap here (not_dangling here wellFormed rooted)
  have inside := wellFormed.parent_eq kept (mem_children_relinked member (Ne.symm small)) wrapper
  obtain ⟨top, -⟩ | ⟨m, above, inside', reached, present', member'⟩ := links_of_rooted here wellFormed rooted
  · cases top.symm.trans inside
  · cases inside.symm.trans inside'
    cases present.symm.trans present'
    have distinct := wellFormed.distinct (reached.splice wraps) kept
    rw [relinked, if_pos inside', Expr.children_mapChildren] at distinct
    have same : g.replaced i i = g.replaced i g.nodes.size := by
      rw [replaced, replaced, if_pos rfl, if_neg (Ne.symm small)]
    exact small (List.inj_on_of_nodup_map distinct member' member same)

end

/-- Around a node that is reached from a root, a wrapper makes no other grammar well formed. -/
theorem wellFormed_of_splice (wraps : (wrap i).children = [i]) (wellFormed : (g.splice i wrap).2.WellFormed)
    (rooted : g.Rooted i) : g.WellFormed := by
  obtain missing | ⟨node, here⟩ := Option.eq_none_or_eq_some g.nodes[i]?
  · rwa [splice_of_missing missing] at wellFormed
  have wrapper := splice_wrapper wrap here (not_dangling here wellFormed rooted)
  constructor
  case index =>
    intro k p found
    have production := splice_production wrap here k
    rw [found, Option.map_some] at production
    have index := wellFormed.index production
    split at index <;> exact index
  case root =>
    intro k p found
    by_cases itself : p.root = i
    · have defined : g.root? k = some i := by rw [root?, found, Option.map_some, itself]
      exact ⟨node, itself ▸ here, links_of_root here wellFormed defined⟩
    · have production := splice_production wrap here k
      rw [found, Option.map_some, replaced, if_neg itself, ite_self] at production
      obtain ⟨root, below, top, owned⟩ := wellFormed.root production
      have there := root_ne_size here wellFormed rooted found
      obtain ⟨part, present, parent, owner⟩ := exists_of_splice here wellFormed rooted below there itself
      exact ⟨part, present, parent.trans top, owner.trans owned⟩
  case part =>
    intro j child other found member
    have kept := splice_earlier wrap here found
    by_cases itself : child = i
    · subst itself
      have inside := links_of_part here wellFormed found member
      refine ⟨node, here, inside, ?_⟩
      have above : g.nodes.size ∈ (g.relinked child node j other).expr.children := by
        rw [relinked, if_pos inside, Expr.children_mapChildren]
        exact List.mem_map.mpr ⟨child, member, if_pos rfl⟩
      obtain ⟨part, present, -, owned⟩ := wellFormed.part kept above
      cases wrapper.symm.trans present
      exact owned
    · obtain ⟨part, below, inside, owned⟩ := wellFormed.part kept (mem_children_relinked member itself)
      have there := part_ne_size here wellFormed wraps rooted found member
      obtain ⟨part', present, parent, owner⟩ := exists_of_splice here wellFormed rooted below there itself
      exact ⟨part', present, parent.trans inside, owner.trans owned⟩
  case owner =>
    intro j other found
    have owner := wellFormed.owner (splice_earlier wrap here found)
    rwa [size_productions_splice] at owner
  case target =>
    intro j target memo present
    obtain ⟨other, found, same⟩ := node_of_expr? present
    have moved := expr?_of_node (splice_earlier wrap here found)
    rw [relinked, same] at moved
    have target := @wellFormed.target j target memo (moved.trans (by split <;> rfl))
    rwa [size_productions_splice] at target
  case distinct =>
    intro j other reached found
    have distinct := wellFormed.distinct (reached.splice wraps) (splice_earlier wrap here found)
    rw [relinked] at distinct
    split at distinct
    · rw [Expr.children_mapChildren] at distinct
      exact distinct.of_map
    · exact distinct

/-- Undo scopes make no other grammar well formed. -/
theorem injectUndo_wellFormed_iff : g.injectUndo.2.WellFormed ↔ g.WellFormed := by
  have splices {sites : List Nat} {g : Grammar} (below : ∀ i ∈ sites, g.Rooted i)
      (wellFormed : (sites.foldl (fun g i => (g.splice i .undo).2) g).WellFormed) : g.WellFormed := by
    induction sites generalizing g with
    | nil => exact wellFormed
    | cons i rest ih =>
      refine wellFormed_of_splice rfl (ih (fun j member => ?_) wellFormed) (below i (List.mem_cons_self ..))
      exact (below j (List.mem_cons_of_mem _ member)).splice rfl
  exact ⟨splices fun _ listed => rooted_of_mem_undoSites listed, fun wellFormed => wellFormed.injectUndo.1⟩

end Grammar

end Packrat
