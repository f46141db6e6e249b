import Packrat.Grammar.Tree
import Mathlib.Data.List.Forall2
import Mathlib.Data.List.Perm.Subperm

/-! # Well-formed grammars

The links of a well-formed grammar agree: roots are parts of nothing, and every part knows what it is
a part of. So the nodes above a node form a path that never meets the same node twice, and every node
that is reached from a root unfolds into a tree within the depth that `tree?` allows.
-/

namespace Packrat

/-- A view of the items that does not see a change of one of them. -/
theorem map_modify_of_same {α β : Type} {f : α → α} {g : α → β} (same : ∀ x, g (f x) = g x) (xs : Array α) (i : Nat) :
    (xs.modify i f).map g = xs.map g := by
  refine Array.ext_getElem? fun j => ?_
  rw [Array.getElem?_map, Array.getElem?_map, Array.getElem?_modify]
  split
  · rw [Option.map_map, funext same (f := g ∘ f)]
  · rfl

namespace Grammar

variable {g : Grammar} {problems : Problems} {i j index depth : Nat}

/-- The node is reached from the root of a production. -/
inductive Rooted (g : Grammar) : Nat → Prop
  | root {index i : Nat} (defined : g.root? index = some i) : Rooted g i
  | part {i child : Nat} {node : Node} (rooted : Rooted g i) (present : g.nodes[i]? = some node)
      (member : child ∈ node.expr.children) : Rooted g child

structure WellFormed (g : Grammar) : Prop where
  index : ∀ {i : Nat} {p : Production}, g.productions[i]? = some p → p.index = i
  root : ∀ {i : Nat} {p : Production}, g.productions[i]? = some p →
    ∃ node, g.nodes[p.root]? = some node ∧ node.parent = none ∧ node.owner = i
  part : ∀ {i child : Nat} {node : Node}, g.nodes[i]? = some node → child ∈ node.expr.children →
    ∃ part, g.nodes[child]? = some part ∧ part.parent = some i ∧ part.owner = node.owner
  owner : ∀ {i : Nat} {node : Node}, g.nodes[i]? = some node → node.owner < g.productions.size
  target : ∀ {i target : Nat} {memo : Bool}, g.expr? i = some (.reference target memo) →
    target < g.productions.size
  /-- With the links to the parents, no node is reached twice from the roots. -/
  distinct : ∀ {i : Nat} {node : Node}, g.Rooted i → g.nodes[i]? = some node → node.expr.children.Nodup

theorem node_of_expr? {e : Expr} (present : g.expr? i = some e) : ∃ node, g.nodes[i]? = some node ∧ node.expr = e := by
  simpa [expr?] using present

theorem expr?_of_nodes {exprs : List Expr} (same : g.nodes.toList.map Node.expr = exprs) (i : Nat) :
    g.expr? i = exprs[i]? := by
  rw [← same]
  simp [expr?]

theorem expr?_of_node {node : Node} (present : g.nodes[i]? = some node) : g.expr? i = some node.expr := by
  simp [expr?, present]

theorem expr?_of_lt (present : i < g.nodes.size) : g.expr? i = some g.nodes[i].expr :=
  expr?_of_node (Array.getElem?_eq_getElem present)

theorem lt_size_of_expr? {e : Expr} (present : g.expr? i = some e) : i < g.nodes.size := by
  obtain ⟨node, here, -⟩ := node_of_expr? present
  exact (Array.getElem?_eq_some_iff.mp here).1

theorem Rooted.child {e : Expr} {child : Nat} (rooted : g.Rooted i) (present : g.expr? i = some e)
    (member : child ∈ e.children) : g.Rooted child := by
  obtain ⟨node, here, rfl⟩ := node_of_expr? present
  exact .part rooted here member

theorem rooted_root {k : Nat} {p : Production} (found : g.productions[k]? = some p) : g.Rooted p.root :=
  @Rooted.root g k _ (congrArg (Option.map Production.root) found)

theorem root?_of_lt (defined : index < g.productions.size) : ∃ i, g.root? index = some i := by
  simp [root?, Array.getElem?_eq_getElem defined]

namespace WellFormed

variable (wellFormed : g.WellFormed)

include wellFormed

theorem expr?_root (defined : g.root? index = some i) : ∃ e, g.expr? i = some e := by
  simp only [root?, Option.map_eq_some_iff] at defined
  obtain ⟨p, here, rfl⟩ := defined
  obtain ⟨node, present, -⟩ := wellFormed.root here
  exact ⟨_, expr?_of_node present⟩

theorem expr?_child {e : Expr} {child : Nat} (present : g.expr? i = some e) (member : child ∈ e.children) :
    ∃ e', g.expr? child = some e' := by
  obtain ⟨node, here, rfl⟩ := node_of_expr? present
  obtain ⟨part, found, -⟩ := wellFormed.part here member
  exact ⟨_, expr?_of_node found⟩

theorem expr?_rooted (rooted : g.Rooted i) : ∃ e, g.expr? i = some e := by
  induction rooted with
  | root defined => exact wellFormed.expr?_root defined
  | part _ present member => exact wellFormed.expr?_child (expr?_of_node present) member

end WellFormed

theorem Rooted.of_problems (rooted : { g with problems }.Rooted i) : g.Rooted i := by
  induction rooted with
  | @root index _ defined => exact @Rooted.root g index _ defined
  | part _ present member ih => exact .part ih present member

theorem Rooted.with_problems (rooted : g.Rooted i) : { g with problems }.Rooted i := by
  induction rooted with
  | @root index _ defined => exact @Rooted.root { g with problems } index _ defined
  | part _ present member ih => exact .part ih present member

theorem WellFormed.with_problems (wellFormed : g.WellFormed) : { g with problems }.WellFormed :=
  { wellFormed with distinct := fun rooted present => wellFormed.distinct rooted.of_problems present }

/-- `path` lists what the node is a part of, the innermost first. -/
inductive Ancestry (g : Grammar) : Nat → List Nat → Prop
  | root {i : Nat} {node : Node} (present : g.nodes[i]? = some node) (top : node.parent = none) :
      Ancestry g i []
  | part {i parent : Nat} {node : Node} {path : List Nat} (present : g.nodes[i]? = some node)
      (inside : node.parent = some parent) (rest : Ancestry g parent path) :
      Ancestry g i (parent :: path)

namespace Ancestry

theorem deterministic {path path' : List Nat} (one : Ancestry g i path) (other : Ancestry g i path') :
    path = path' := by
  induction one generalizing path' with
  | root present top =>
    cases other with
    | root => rfl
    | part present' inside =>
      cases present.symm.trans present'
      cases top.symm.trans inside
  | part present inside _ ih =>
    cases other with
    | root present' top =>
      cases present.symm.trans present'
      cases inside.symm.trans top
    | part present' inside' rest =>
      cases present.symm.trans present'
      cases inside.symm.trans inside'
      rw [ih rest]

theorem lt_size {path : List Nat} (ancestry : Ancestry g i path) : i < g.nodes.size := by
  cases ancestry with
  | root present => exact (Array.getElem?_eq_some_iff.mp present).1
  | part present => exact (Array.getElem?_eq_some_iff.mp present).1

/-- Nodes on the path have shorter paths. -/
theorem of_mem {path : List Nat} (ancestry : Ancestry g i path) (member : j ∈ path) :
    ∃ path', Ancestry g j path' ∧ path'.length < path.length := by
  induction ancestry with
  | root => cases member
  | part _ _ rest ih =>
    rcases List.mem_cons.mp member with rfl | member
    · exact ⟨_, rest, Nat.lt_succ_self _⟩
    · obtain ⟨path', found, shorter⟩ := ih member
      exact ⟨path', found, Nat.lt_succ_of_lt shorter⟩

theorem nodup {path : List Nat} (ancestry : Ancestry g i path) : (i :: path).Nodup := by
  have fresh {i : Nat} {path : List Nat} (ancestry : Ancestry g i path) : i ∉ path := by
    intro member
    obtain ⟨path', found, shorter⟩ := ancestry.of_mem member
    rw [found.deterministic ancestry] at shorter
    exact Nat.lt_irrefl _ shorter
  induction ancestry with
  | root => exact List.nodup_cons.mpr ⟨List.not_mem_nil, List.nodup_nil⟩
  | part present inside rest ih => exact List.nodup_cons.mpr ⟨fresh (.part present inside rest), ih⟩

/-- A path has no room for all nodes. -/
theorem length_lt {path : List Nat} (ancestry : Ancestry g i path) : path.length < g.nodes.size := by
  have inside : (i :: path) ⊆ List.range g.nodes.size := by
    intro j member
    rw [List.mem_range]
    rcases List.mem_cons.mp member with rfl | member
    · exact ancestry.lt_size
    · obtain ⟨path', found, -⟩ := ancestry.of_mem member
      exact found.lt_size
  have fits := (ancestry.nodup.subperm inside).length_le
  rw [List.length_cons, List.length_range] at fits
  omega

end Ancestry

theorem WellFormed.ancestry (wellFormed : g.WellFormed) (rooted : g.Rooted i) :
    ∃ path, Ancestry g i path := by
  induction rooted with
  | root defined =>
    simp only [root?, Option.map_eq_some_iff] at defined
    obtain ⟨p, here, rfl⟩ := defined
    obtain ⟨node, present, top, -⟩ := wellFormed.root here
    exact ⟨[], .root present top⟩
  | part _ present member ih =>
    obtain ⟨path, above⟩ := ih
    obtain ⟨part, found, inside, -⟩ := wellFormed.part present member
    exact ⟨_, .part found inside above⟩

/-- The links of a node to its parts, its owner and its target, if it is a reference. -/
def nodeLinked (g : Grammar) (node : Node) (i : Nat) : Bool :=
  node.owner < g.productions.size &&
    (match node.expr with
      | .reference target _ => target < g.productions.size
      | _ => true) &&
    decide node.expr.children.Nodup &&
    node.expr.children.all fun child => g.nodes[child]?.any fun part =>
      part.parent == some i && part.owner == node.owner

/-- All links agree, and no node has a part twice. -/
def linked (g : Grammar) : Bool :=
  (g.productions.toList.zipIdx.all fun (p, i) =>
    p.index == i && g.nodes[p.root]?.any fun node => node.parent == none && node.owner == i) &&
    g.nodes.toList.zipIdx.all fun (node, i) => g.nodeLinked node i

private theorem all_zipIdx {α : Type} {p : α × Nat → Bool} {xs : Array α} {x : α}
    (all : xs.toList.zipIdx.all p = true) (present : xs[i]? = some x) : p (x, i) = true := by
  refine List.all_eq_true.mp all _ (List.mk_mem_zipIdx_iff_getElem?.mpr ?_)
  rwa [Array.getElem?_toList]

theorem wellFormed_of_linked (checked : g.linked = true) : g.WellFormed := by
  rw [linked, Bool.and_eq_true] at checked
  obtain ⟨productions, nodes⟩ := checked
  have production {i : Nat} {p : Production} (here : g.productions[i]? = some p) := all_zipIdx productions here
  have node {i : Nat} {n : Node} (here : g.nodes[i]? = some n) := all_zipIdx nodes here
  simp only [Bool.and_eq_true, beq_iff_eq, Option.any_eq_true] at production
  simp only [nodeLinked, Bool.and_eq_true, decide_eq_true_eq, List.all_eq_true, Option.any_eq_true,
    beq_iff_eq] at node
  refine ⟨fun here => (production here).1, fun here => (production here).2,
    fun here member => (node here).2 _ member, fun here => (node here).1.1.1, ?_,
    fun _ here => (node here).1.2⟩
  intro i target memo present
  obtain ⟨n, here, same⟩ := node_of_expr? present
  have inRange := (node here).1.1.2
  rw [same] at inRange
  simpa using inRange

end Grammar

end Packrat
