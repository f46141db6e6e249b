import Packrat.Builder
import Packrat.Proofs.Grammar.WellFormed

/-! # The arena of a builder

Nodes are added to the arena after their parts, which have been free until then. So the links of the
arena agree at all times, and discarding the last nodes of it breaks no link of those that stay.
-/

namespace Packrat

namespace Builder

variable {b : Builder} {count count' j owner owner' : Nat} {nodes : Array Node} {expr : Expr}

/-- The node is owned by the production, and is a part of nothing yet. -/
def Free (nodes : Array Node) (owner j : Nat) : Prop :=
  ∃ node, nodes[j]? = some node ∧ node.parent = none ∧ node.owner = owner

/-- The links of an arena agree, for `count` productions. -/
structure Linked (count : Nat) (nodes : Array Node) : Prop where
  owner : ∀ {j : Nat} {node : Node}, nodes[j]? = some node → node.owner < count
  target : ∀ {j : Nat} {node : Node} {target : Nat} {memo : Bool}, nodes[j]? = some node →
    node.expr = .reference target memo → target < count
  part : ∀ {j child : Nat} {node : Node}, nodes[j]? = some node → child ∈ node.expr.children →
    child < j ∧ ∃ part, nodes[child]? = some part ∧ part.parent = some j ∧ part.owner = node.owner
  distinct : ∀ {j : Nat} {node : Node}, nodes[j]? = some node → node.expr.children.Nodup

theorem Linked.empty : Linked count #[] := by
  constructor <;> intros <;> contradiction

theorem Linked.mono (linked : Linked count nodes) (le : count ≤ count') : Linked count' nodes where
  owner present := Nat.lt_of_lt_of_le (linked.owner present) le
  target present same := Nat.lt_of_lt_of_le (linked.target present same) le
  part := linked.part
  distinct := linked.distinct

theorem Free.lt_size (free : Free nodes owner j) : j < nodes.size := by
  obtain ⟨node, present, -⟩ := free
  exact (Array.getElem?_eq_some_iff.mp present).1

/-- Nodes of different productions are different. -/
theorem Free.owner_eq (free : Free nodes owner j) (free' : Free nodes owner' j) : owner = owner' := by
  obtain ⟨node, present, -, rfl⟩ := free
  obtain ⟨node', present', -, rfl⟩ := free'
  cases present.symm.trans present'
  rfl

private theorem getElem?_adopt (id : Nat) (children : List Nat) :
    (children.foldl (fun nodes child => nodes.modify child fun node => { node with parent := some id }) nodes)[j]? =
      nodes[j]?.map fun node => if j ∈ children then { node with parent := some id } else node := by
  induction children generalizing nodes with
  | nil => simp
  | cons child rest ih =>
    rw [List.foldl_cons, ih, Array.getElem?_modify]
    by_cases itself : child = j
    · simp [itself, Function.comp_def]
    · simp [itself, Ne.symm itself]

/-- The arena with a new node: its parts know it, the others stay as they are. -/
theorem allocParent_nodes (parts : ∀ child ∈ expr.children, child < b.nodes.size) :
    (b.allocParent owner expr).2.nodes[j]? =
      if j = b.nodes.size then some { expr, owner, span := b.coveringSpan expr.children }
      else b.nodes[j]?.map fun node =>
        if j ∈ expr.children then { node with parent := some b.nodes.size } else node := by
  have fresh : b.nodes.size ∉ expr.children := fun member => Nat.lt_irrefl _ (parts _ member)
  simp only [allocParent, alloc, Array.getElem?_modify, getElem?_adopt, Array.getElem?_push]
  by_cases last : j = b.nodes.size
  · simp [last, fresh]
  · simp [last, Ne.symm last]

/-- A node without parts is just put at the end. -/
theorem alloc_eq_allocParent (leaf : expr.children = []) : b.alloc owner expr = b.allocParent owner expr := by
  have nodes : (b.allocParent owner expr).2.nodes = b.nodes.push { expr, owner } := by
    refine Array.ext_getElem? fun j => ?_
    rw [allocParent_nodes (by simp [leaf]), Array.getElem?_push]
    simp [leaf, coveringSpan]
  change _ = (b.nodes.size, { b with nodes := (b.allocParent owner expr).2.nodes })
  rw [nodes]
  rfl

section

variable (parts : ∀ child ∈ expr.children, Free b.nodes owner child)

include parts

theorem Free.allocParent (free : Free b.nodes owner' j) (other : j ∉ expr.children) :
    Free (b.allocParent owner expr).2.nodes owner' j := by
  have small := free.lt_size
  obtain ⟨node, present, top, owned⟩ := free
  refine ⟨node, ?_, top, owned⟩
  rw [allocParent_nodes fun child member => (parts child member).lt_size, if_neg (Nat.ne_of_lt small), present,
    Option.map_some, if_neg other]

theorem free_allocParent : Free (b.allocParent owner expr).2.nodes owner (b.allocParent owner expr).1 := by
  refine ⟨{ expr, owner, span := b.coveringSpan expr.children }, ?_, rfl, rfl⟩
  rw [allocParent_nodes fun child member => (parts child member).lt_size]
  exact if_pos rfl

theorem Linked.allocParent (linked : Linked count b.nodes) (owned : owner < count) (distinct : expr.children.Nodup)
    (target : ∀ {target memo}, expr = .reference target memo → target < count) :
    Linked count (b.allocParent owner expr).2.nodes := by
  have parts' : ∀ child ∈ expr.children, child < b.nodes.size := fun child member => (parts child member).lt_size
  have node {j : Nat} {node : Node} (present : (b.allocParent owner expr).2.nodes[j]? = some node) :
      (j = b.nodes.size ∧ node.expr = expr ∧ node.owner = owner) ∨
        ∃ before, b.nodes[j]? = some before ∧ node.expr = before.expr ∧ node.owner = before.owner := by
    rw [allocParent_nodes parts'] at present
    split at present
    · next last =>
      cases present
      exact .inl ⟨last, rfl, rfl⟩
    · obtain ⟨before, found, rfl⟩ := Option.map_eq_some_iff.mp present
      refine .inr ⟨before, found, ?_⟩
      split <;> exact ⟨rfl, rfl⟩
  constructor
  case owner =>
    intro j n present
    obtain ⟨-, -, same⟩ | ⟨before, found, -, same⟩ := node present
    · rwa [same]
    · rw [same]
      exact linked.owner found
  case target =>
    intro j n target' memo present shown
    obtain ⟨-, same, -⟩ | ⟨before, found, same, -⟩ := node present
    · exact target (same ▸ shown)
    · exact linked.target found (same ▸ shown)
  case part =>
    intro j child n present member
    obtain ⟨rfl, same, owned⟩ | ⟨before, found, same, owned⟩ := node present
    · rw [same] at member
      have small := parts' child member
      obtain ⟨part, inside, -, sameOwner⟩ := parts child member
      refine ⟨small, { part with parent := some b.nodes.size }, ?_, rfl, sameOwner.trans owned.symm⟩
      rw [allocParent_nodes parts', if_neg (Nat.ne_of_lt small), inside, Option.map_some, if_pos member]
    · rw [same] at member
      obtain ⟨earlier, part, inside, parent, sameOwner⟩ := linked.part found member
      have small := (Array.getElem?_eq_some_iff.mp inside).1
      -- A part of another node is not free.
      have other : child ∉ expr.children := by
        intro listed
        obtain ⟨part', inside', top, -⟩ := parts child listed
        cases inside.symm.trans inside'
        cases parent.symm.trans top
      refine ⟨earlier, part, ?_, parent, sameOwner.trans owned.symm⟩
      rw [allocParent_nodes parts', if_neg (Nat.ne_of_lt small), inside, Option.map_some, if_neg other]
  case distinct =>
    intro j n present
    obtain ⟨-, same, -⟩ | ⟨before, found, same, -⟩ := node present
    · rwa [same]
    · rw [same]
      exact linked.distinct found

end

private theorem getElem?_extract_eq_some {size : Nat} {node : Node} :
    (nodes.extract 0 size)[j]? = some node ↔ j < size ∧ nodes[j]? = some node := by
  rw [Array.getElem?_extract]
  simp only [Nat.sub_zero, Nat.zero_add, Option.ite_none_right_eq_some, Nat.lt_min]
  constructor
  · rintro ⟨⟨small, -⟩, present⟩
    exact ⟨small, present⟩
  · rintro ⟨small, present⟩
    exact ⟨⟨small, (Array.getElem?_eq_some_iff.mp present).1⟩, present⟩

theorem Free.extract {size : Nat} (free : Free nodes owner j) (small : j < size) :
    Free (nodes.extract 0 size) owner j := by
  obtain ⟨node, present, top, owned⟩ := free
  exact ⟨node, getElem?_extract_eq_some.mpr ⟨small, present⟩, top, owned⟩

/-- Parts stand before what they are parts of, so none of them is lost first. -/
theorem Linked.extract {size : Nat} (linked : Linked count nodes) : Linked count (nodes.extract 0 size) := by
  constructor
  case owner =>
    intro j node present
    exact linked.owner (getElem?_extract_eq_some.mp present).2
  case target =>
    intro j node target memo present
    exact linked.target (getElem?_extract_eq_some.mp present).2
  case part =>
    intro j child node present member
    obtain ⟨small, present⟩ := getElem?_extract_eq_some.mp present
    obtain ⟨earlier, part, inside, links⟩ := linked.part present member
    exact ⟨earlier, part, getElem?_extract_eq_some.mpr ⟨Nat.lt_trans earlier small, inside⟩, links⟩
  case distinct =>
    intro j node present
    exact linked.distinct (getElem?_extract_eq_some.mp present).2

section

variable {f : Node → Option Span} {top : Nat}

private theorem getElem?_respan : (nodes.modify top fun node => { node with span := f node })[j]? =
    nodes[j]?.map fun node => if j = top then { node with span := f node } else node := by
  rw [Array.getElem?_modify]
  by_cases itself : top = j
  · simp [itself]
  · simp [itself, Ne.symm itself]

theorem Free.respan (free : Free nodes owner j) :
    Free (nodes.modify top fun node => { node with span := f node }) owner j := by
  obtain ⟨node, present, free⟩ := free
  refine ⟨_, by rw [getElem?_respan, present]; rfl, ?_⟩
  split <;> exact free

theorem Linked.respan (linked : Linked count nodes) :
    Linked count (nodes.modify top fun node => { node with span := f node }) := by
  have node {j : Nat} {node : Node}
      (present : (nodes.modify top fun node => { node with span := f node })[j]? = some node) :
      ∃ before, nodes[j]? = some before ∧ node.expr = before.expr ∧ node.owner = before.owner := by
    rw [getElem?_respan] at present
    obtain ⟨before, found, rfl⟩ := Option.map_eq_some_iff.mp present
    refine ⟨before, found, ?_⟩
    split <;> exact ⟨rfl, rfl⟩
  constructor
  case owner =>
    intro j n present
    obtain ⟨before, found, -, same⟩ := node present
    rw [same]
    exact linked.owner found
  case target =>
    intro j n target memo present shown
    obtain ⟨before, found, same, -⟩ := node present
    exact linked.target found (same ▸ shown)
  case part =>
    intro j child n present member
    obtain ⟨before, found, same, owned⟩ := node present
    obtain ⟨earlier, part, inside, parent, sameOwner⟩ := linked.part found (same ▸ member)
    refine ⟨earlier, _, by rw [getElem?_respan, inside]; rfl, ?_⟩
    rw [owned]
    split <;> exact ⟨parent, sameOwner⟩
  case distinct =>
    intro j n present
    obtain ⟨before, found, same, -⟩ := node present
    rw [same]
    exact linked.distinct found

end

end Builder

end Packrat
