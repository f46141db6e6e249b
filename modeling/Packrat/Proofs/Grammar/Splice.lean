import Packrat.Proofs.Grammar.Actions
import Mathlib.Data.List.Nodup

/-! # Putting a node around another

Splicing puts a wrapper where a node stood, and the node becomes the only part of the wrapper. Of the other links it
changes those alone that the node itself names (`splice_earlier`, `splice_production`). Since the links of a
well-formed grammar agree, this is the same as replacing the node by the wrapper in all lists of parts and in all
roots (`splice_nodes`, `splice_productions`), and the grammar stays well formed. Nothing but the link of the node
itself may lead to the place that the wrapper takes (`Attached`). An undo scope around a node adds nothing that acts,
and the node it is put around is not open any more.
-/

namespace Packrat

namespace Expr

variable (f : Nat → Nat) (e : Expr)

@[simp] theorem children_mapChildren : (e.mapChildren f).children = e.children.map f := by
  cases e <;> rfl

@[simp] theorem openChildren_mapChildren : (e.mapChildren f).openChildren = e.openChildren.map f := by
  cases e <;> rfl

@[simp] theorem isAction_mapChildren : (e.mapChildren f).isAction = e.isAction := by
  cases e <;> rfl

theorem mapChildren_eq_self {f : Nat → Nat} {e : Expr} (same : ∀ child ∈ e.children, f child = child) :
    e.mapChildren f = e := by
  cases e with
  | terminal => rfl
  | reference => rfl
  | action => rw [mapChildren, same _ (List.mem_singleton_self _)]
  | undo => rw [mapChildren, same _ (List.mem_singleton_self _)]
  | sequence children => rw [mapChildren, List.map_congr_left (l := children) same, List.map_id']
  | choice children => rw [mapChildren, List.map_congr_left (l := children) same, List.map_id']
  | repetition => rw [mapChildren, same _ (List.mem_singleton_self _)]
  | lookahead => rw [mapChildren, same _ (List.mem_singleton_self _)]

@[simp] theorem mapChildren_id : e.mapChildren id = e := mapChildren_eq_self fun _ _ => rfl

@[simp] theorem mapChildren_mapChildren (h : Nat → Nat) : (e.mapChildren f).mapChildren h = e.mapChildren (h ∘ f) := by
  cases e <;> simp only [mapChildren, List.map_map, Function.comp_apply]

theorem mem_children_of_open {e : Expr} {child : Nat} (member : child ∈ e.openChildren) : child ∈ e.children := by
  cases e with
  | lookahead => cases member
  | _ => exact member

end Expr

namespace Grammar

variable {g : Grammar} {i j index : Nat} {wrap : Nat → Expr} {node other : Node}

/-- The node is there, and it does not pass for a part of the node that comes next. -/
def Attached (g : Grammar) (i : Nat) : Prop := ∃ node, g.nodes[i]? = some node ∧ node.parent ≠ some g.nodes.size

theorem Attached.lt_size (attached : g.Attached i) : i < g.nodes.size := by
  obtain ⟨node, here, -⟩ := attached
  exact (Array.getElem?_eq_some_iff.mp here).1

theorem Attached.parent_ne (attached : g.Attached i) (here : g.nodes[i]? = some node) :
    node.parent ≠ some g.nodes.size := by
  obtain ⟨node', here', inside⟩ := attached
  cases here.symm.trans here'
  exact inside

/-- The wrapper takes the place of the node `i`. -/
def replaced (g : Grammar) (i child : Nat) : Nat := if child = i then g.nodes.size else child

/-- The node that the wrapper is put around, and any other node itself. -/
def original (g : Grammar) (i j : Nat) : Nat := if j = g.nodes.size then i else j

theorem original_replaced {child : Nat} {e : Expr} (present : g.expr? child = some e) :
    g.original i (g.replaced i child) = child := by
  obtain ⟨node, found, -⟩ := node_of_expr? present
  have small := (Array.getElem?_eq_some_iff.mp found).1
  unfold original replaced
  split
  · next itself => rw [if_pos rfl, itself]
  · rw [if_neg (Nat.ne_of_lt small)]

/-- The node `j` of a grammar where a wrapper is put around the node `i`. -/
def rewired (g : Grammar) (i j : Nat) (node : Node) : Node :=
  { node with
    expr := node.expr.mapChildren (g.replaced i)
    parent := if j = i then some g.nodes.size else node.parent }

theorem splice_of_missing (missing : g.nodes[i]? = none) : (g.splice i wrap).2 = g := by
  rw [splice, missing]

/-- Around a root, the wrapper becomes the root. -/
theorem splice_of_root (here : g.nodes[i]? = some node) (top : node.parent = none) :
    (g.splice i wrap).2 = { g with
      productions := g.productions.modify node.owner fun p => { p with root := g.replaced i p.root }
      nodes := (g.nodes.push { node with expr := wrap i }).modify i fun n =>
        { n with parent := some g.nodes.size } } := by
  simp only [splice, here, top]
  rfl

/-- Around a part, the wrapper becomes a part of the parent. -/
theorem splice_of_part {parent : Nat} (here : g.nodes[i]? = some node) (inside : node.parent = some parent) :
    (g.splice i wrap).2 = { g with
      nodes := ((g.nodes.push { node with expr := wrap i }).modify parent fun p =>
        { p with expr := p.expr.mapChildren (g.replaced i) }).modify i fun n =>
          { n with parent := some g.nodes.size } } := by
  simp only [splice, here, inside]
  rfl

/-- A splice adds the wrapper. -/
theorem size_splice (attached : g.Attached i) (wrap : Nat → Expr) :
    (g.splice i wrap).2.nodes.size = g.nodes.size + 1 := by
  obtain ⟨node, here, -⟩ := attached
  rcases Option.eq_none_or_eq_some node.parent with top | ⟨parent, inside⟩
  · rw [splice_of_root here top]
    simp
  · rw [splice_of_part here inside]
    simp

/-- What a splice around the node `i`, here `node`, makes of the node `j`: only the parent that `node` names gets the
wrapper as a part. -/
def relinked (g : Grammar) (i : Nat) (node : Node) (j : Nat) (other : Node) : Node :=
  { other with
    expr := if node.parent = some j then other.expr.mapChildren (g.replaced i) else other.expr
    parent := if j = i then some g.nodes.size else other.parent }

theorem splice_earlier (wrap : Nat → Expr) (here : g.nodes[i]? = some node) (found : g.nodes[j]? = some other) :
    (g.splice i wrap).2.nodes[j]? = some (g.relinked i node j other) := by
  have old := Nat.ne_of_lt (Array.getElem?_eq_some_iff.mp found).1
  cases inside : node.parent with
  | none =>
    rw [splice_of_root here inside]
    simp only [Array.getElem?_modify, Array.getElem?_push, if_neg old, found]
    by_cases itself : j = i
    · simp [relinked, inside, itself]
    · simp [relinked, inside, itself, Ne.symm itself]
  | some parent =>
    rw [splice_of_part here inside]
    simp only [Array.getElem?_modify, Array.getElem?_push, if_neg old, found]
    by_cases upper : parent = j
    · by_cases itself : j = i
      · simp [relinked, inside, upper, itself]
      · simp [relinked, inside, upper, itself, Ne.symm itself]
    · by_cases itself : j = i
      · simp [relinked, inside, itself ▸ upper, itself]
      · simp [relinked, inside, upper, itself, Ne.symm itself]

theorem splice_wrapper (wrap : Nat → Expr) (here : g.nodes[i]? = some node)
    (attached : node.parent ≠ some g.nodes.size) :
    (g.splice i wrap).2.nodes[g.nodes.size]? = some { node with expr := wrap i } := by
  have old : i ≠ g.nodes.size := Nat.ne_of_lt (Array.getElem?_eq_some_iff.mp here).1
  cases inside : node.parent with
  | none =>
    rw [splice_of_root here inside]
    simp only [Array.getElem?_modify, Array.getElem?_push, if_pos, if_neg old, inside]
  | some parent =>
    have bound : parent ≠ g.nodes.size := fun same => attached (same ▸ inside)
    rw [splice_of_part here inside]
    simp only [Array.getElem?_modify, Array.getElem?_push, if_pos, if_neg old, if_neg bound, inside]

theorem splice_production (wrap : Nat → Expr) (here : g.nodes[i]? = some node) (index : Nat) :
    (g.splice i wrap).2.productions[index]? = g.productions[index]?.map fun p =>
      if node.parent = none ∧ node.owner = index then { p with root := g.replaced i p.root } else p := by
  cases inside : node.parent with
  | none =>
    rw [splice_of_root here inside]
    simp only [Array.getElem?_modify]
    by_cases owned : node.owner = index
    · simp [owned]
    · simp [owned]
  | some parent =>
    rw [splice_of_part here inside]
    simp

@[simp] theorem size_productions_splice (g : Grammar) (i : Nat) (wrap : Nat → Expr) :
    (g.splice i wrap).2.productions.size = g.productions.size := by
  obtain missing | ⟨node, here⟩ := Option.eq_none_or_eq_some g.nodes[i]?
  · rw [splice_of_missing missing]
  · cases inside : node.parent with
    | none => rw [splice_of_root here inside, Array.size_modify]
    | some parent => rw [splice_of_part here inside]

/-- Nodes that were reached from a root before still are. -/
theorem Rooted.splice (wraps : (wrap i).children = [i]) (reached : g.Rooted j) : (g.splice i wrap).2.Rooted j := by
  obtain missing | ⟨node, here⟩ := Option.eq_none_or_eq_some g.nodes[i]?
  · rwa [splice_of_missing missing]
  -- Where `i` is replaced, it is reached through the wrapper.
  have through {child : Nat} (attached : node.parent ≠ some g.nodes.size)
      (moved : (g.splice i wrap).2.Rooted (g.replaced i child)) : (g.splice i wrap).2.Rooted child := by
    unfold replaced at moved
    split at moved
    · next itself =>
      refine .part moved (splice_wrapper wrap here attached) ?_
      rw [wraps, itself]
      exact List.mem_singleton_self _
    · exact moved
  induction reached with
  | @root k root defined =>
    obtain ⟨p, found, rfl⟩ := Option.map_eq_some_iff.mp defined
    have production := splice_production wrap here k
    rw [found, Option.map_some] at production
    split at production
    · next moved =>
      refine through ?_ (rooted_root production)
      rw [moved.1]
      nofun
    · exact rooted_root production
  | @part j child above _ present member ih =>
    have kept := splice_earlier wrap here present
    by_cases inside : node.parent = some j
    · have old := Nat.ne_of_lt (Array.getElem?_eq_some_iff.mp present).1
      refine through (by rw [inside]; exact fun same => old (Option.some.inj same)) (.part ih kept ?_)
      rw [relinked, if_pos inside, Expr.children_mapChildren]
      exact List.mem_map_of_mem member
    · refine .part ih kept ?_
      rwa [relinked, if_neg inside]

namespace WellFormed

variable (wellFormed : g.WellFormed)

include wellFormed

theorem lt_size (rooted : g.Rooted i) : i < g.nodes.size := by
  obtain ⟨path, ancestry⟩ := wellFormed.ancestry rooted
  exact ancestry.lt_size

/-- A node is a part of its parent only. -/
theorem parent_eq {above part : Node} (present : g.nodes[j]? = some above) (member : i ∈ above.expr.children)
    (here : g.nodes[i]? = some part) : part.parent = some j := by
  obtain ⟨part', here', inside, -⟩ := wellFormed.part present member
  cases here.symm.trans here'
  exact inside

/-- A node is the root of its owner only. -/
theorem owner_eq {p : Production} (defined : g.productions[index]? = some p) (here : g.nodes[p.root]? = some node) :
    node.parent = none ∧ node.owner = index := by
  obtain ⟨node', here', top, owned⟩ := wellFormed.root defined
  cases here.symm.trans here'
  exact ⟨top, owned⟩

/-- What is reached from a root is a part of what is reached before. -/
theorem attached (rooted : g.Rooted i) : g.Attached i := by
  obtain ⟨e, present⟩ := wellFormed.expr?_rooted rooted
  obtain ⟨node, here, -⟩ := node_of_expr? present
  refine ⟨node, here, fun inside => ?_⟩
  cases rooted with
  | root defined =>
    simp only [root?, Option.map_eq_some_iff] at defined
    obtain ⟨p, found, rfl⟩ := defined
    cases inside.symm.trans (wellFormed.owner_eq found here).1
  | part above present member =>
    have small := wellFormed.lt_size above
    cases inside.symm.trans (wellFormed.parent_eq present member here)
    omega

theorem splice_nodes (attached : g.Attached i) (here : g.nodes[i]? = some node) :
    (g.splice i wrap).2.nodes[j]? =
      if j = g.nodes.size then some { node with expr := wrap i } else g.nodes[j]?.map (g.rewired i j) := by
  by_cases last : j = g.nodes.size
  · rw [if_pos last, last]
    exact splice_wrapper wrap here (attached.parent_ne here)
  rw [if_neg last]
  cases present : g.nodes[j]? with
  | none =>
    have outside := Array.getElem?_eq_none_iff.mp present
    rw [Array.getElem?_eq_none (by rw [size_splice attached]; omega), Option.map_none]
  | some above =>
    -- Apart from its parent, no node has `i` among its parts.
    have elsewhere (other : node.parent ≠ some j) : above.expr = above.expr.mapChildren (g.replaced i) := by
      refine (Expr.mapChildren_eq_self fun child member => if_neg ?_).symm
      rintro rfl
      exact other (wellFormed.parent_eq present member here)
    rw [splice_earlier wrap here present, Option.map_some, relinked, rewired]
    split
    · rfl
    · next other => rw [← elsewhere other]

theorem splice_productions (here : g.nodes[i]? = some node) :
    (g.splice i wrap).2.productions[index]? =
      g.productions[index]?.map fun p => { p with root := g.replaced i p.root } := by
  rw [splice_production wrap here]
  refine Option.map_congr fun p defined => ?_
  split
  · rfl
  · next other =>
    have elsewhere : p.root ≠ i := by
      rintro rfl
      exact other (wellFormed.owner_eq defined here)
    rw [replaced, if_neg elsewhere]

variable (attached : g.Attached i)

include attached

theorem splice_root? : (g.splice i wrap).2.root? index = (g.root? index).map (g.replaced i) := by
  obtain ⟨node, here, -⟩ := id attached
  rw [root?, wellFormed.splice_productions here, root?, Option.map_map, Option.map_map]
  rfl

/-- The expressions after a splice: the wrapper, and those from before with the wrapper put in. -/
theorem splice_expr? : (g.splice i wrap).2.expr? j =
    if j = g.nodes.size then some (wrap i) else (g.expr? j).map (Expr.mapChildren (g.replaced i)) := by
  obtain ⟨node, here, -⟩ := id attached
  rw [expr?, wellFormed.splice_nodes attached here]
  split
  · rfl
  · rw [expr?, Option.map_map, Option.map_map]
    rfl

theorem expr?_of_splice {e : Expr} (present : (g.splice i wrap).2.expr? j = some e) :
    (j = g.nodes.size ∧ e = wrap i) ∨
      j ≠ g.nodes.size ∧ ∃ e', g.expr? j = some e' ∧ e = e'.mapChildren (g.replaced i) := by
  rw [wellFormed.splice_expr? attached] at present
  split at present
  · next last => exact .inl ⟨last, (Option.some.inj present).symm⟩
  · next old =>
    obtain ⟨e', before, same⟩ := Option.map_eq_some_iff.mp present
    exact .inr ⟨old, e', before, same.symm⟩

/-- Nodes other than the wrapper that are reached from a root were reached before, and the wrapper is reached where the
node was. -/
theorem rooted_of_splice (wraps : (wrap i).children = [i]) (reached : (g.splice i wrap).2.Rooted j) :
    (j = g.nodes.size ∧ g.Rooted i) ∨ g.Rooted j := by
  have moved {child : Nat} (old : g.Rooted child) :
      (g.replaced i child = g.nodes.size ∧ g.Rooted i) ∨ g.Rooted (g.replaced i child) := by
    unfold replaced
    split
    · next itself => exact .inl ⟨rfl, itself ▸ old⟩
    · exact .inr old
  induction reached with
  | root defined =>
    rw [wellFormed.splice_root? attached, Option.map_eq_some_iff] at defined
    obtain ⟨root, defined, rfl⟩ := defined
    exact moved (.root defined)
  | part _ present member ih =>
    obtain ⟨rfl, same⟩ | ⟨old, e, before, same⟩ := wellFormed.expr?_of_splice attached (expr?_of_node present)
    · rw [same, wraps, List.mem_singleton] at member
      rcases ih with ⟨-, rooted⟩ | small
      · exact .inr (member ▸ rooted)
      · exact absurd (wellFormed.lt_size small) (Nat.lt_irrefl _)
    · rw [same, Expr.children_mapChildren, List.mem_map] at member
      obtain ⟨child, member, rfl⟩ := member
      have above := ih.resolve_left fun last => old last.1
      exact moved (above.child before member)

/-- The wrapper of a node is reached where the node was. -/
theorem rooted_wrapper (wraps : (wrap i).children = [i]) (rooted : g.Rooted i) : (g.splice i wrap).2.Rooted g.nodes.size := by
  have itself : g.replaced i i = g.nodes.size := if_pos rfl
  cases id rooted with
  | @root index _ defined =>
    refine @Rooted.root _ index _ ?_
    rw [wellFormed.splice_root? attached, defined, Option.map_some, itself]
  | @part above _ node reached present member =>
    have shown : (g.splice i wrap).2.expr? above = some (node.expr.mapChildren (g.replaced i)) := by
      rw [wellFormed.splice_expr? attached, if_neg (Nat.ne_of_lt (wellFormed.lt_size reached)), expr?_of_node present]
      rfl
    refine (reached.splice wraps).child shown ?_
    rw [Expr.children_mapChildren, ← itself]
    exact List.mem_map_of_mem member

/-- The wrapper as a node, and what became of the others. -/
private theorem splice_node (here : g.nodes[i]? = some node) {above : Node}
    (present : (g.splice i wrap).2.nodes[j]? = some above) :
    (j = g.nodes.size ∧ above = { node with expr := wrap i }) ∨
      ∃ before, g.nodes[j]? = some before ∧ above = g.rewired i j before := by
  rw [wellFormed.splice_nodes attached here] at present
  split at present
  · next last => exact .inl ⟨last, (Option.some.inj present).symm⟩
  · obtain ⟨before, found, same⟩ := Option.map_eq_some_iff.mp present
    exact .inr ⟨before, found, same.symm⟩

/-- In the place of a node there is a node with the same links. -/
private theorem splice_replaced (here : g.nodes[i]? = some node) {part : Node} (found : g.nodes[j]? = some part) :
    ∃ part', (g.splice i wrap).2.nodes[g.replaced i j]? = some part' ∧ part'.parent = part.parent ∧
      part'.owner = part.owner := by
  rw [wellFormed.splice_nodes attached here]
  unfold replaced
  split
  · next itself =>
    subst itself
    cases here.symm.trans found
    rw [if_pos rfl]
    exact ⟨_, rfl, rfl, rfl⟩
  · next other =>
    have small := (Array.getElem?_eq_some_iff.mp found).1
    rw [if_neg (Nat.ne_of_lt small), found]
    exact ⟨_, rfl, if_neg other, rfl⟩

theorem splice (wraps : (wrap i).children = [i]) : (g.splice i wrap).2.WellFormed := by
  obtain ⟨node, here, -⟩ := id attached
  constructor
  case index =>
    intro index p defined
    rw [wellFormed.splice_productions here, Option.map_eq_some_iff] at defined
    obtain ⟨before, defined, rfl⟩ := defined
    have index := wellFormed.index defined
    exact index
  case root =>
    intro index p defined
    rw [wellFormed.splice_productions here, Option.map_eq_some_iff] at defined
    obtain ⟨p, defined, rfl⟩ := defined
    obtain ⟨root, found, top, owned⟩ := wellFormed.root defined
    obtain ⟨part, found, sameParent, sameOwner⟩ := wellFormed.splice_replaced attached here found
    exact ⟨part, found, sameParent.trans top, sameOwner.trans owned⟩
  case part =>
    intro j child above present member
    obtain ⟨rfl, rfl⟩ | ⟨before, found, rfl⟩ := wellFormed.splice_node attached here present
    · rw [wraps, List.mem_singleton] at member
      subst member
      refine ⟨g.rewired child child node, ?_, if_pos rfl, rfl⟩
      rw [wellFormed.splice_nodes attached here, if_neg (Nat.ne_of_lt (attached.lt_size)), here]
      rfl
    · simp only [rewired, Expr.children_mapChildren, List.mem_map] at member
      obtain ⟨child, member, rfl⟩ := member
      obtain ⟨part, inside, parent, owned⟩ := wellFormed.part found member
      obtain ⟨part', found', sameParent, sameOwner⟩ := wellFormed.splice_replaced attached here inside
      exact ⟨part', found', sameParent.trans parent, sameOwner.trans owned⟩
  case owner =>
    intro j above present
    rw [size_productions_splice]
    obtain ⟨-, rfl⟩ | ⟨before, found, rfl⟩ := wellFormed.splice_node attached here present
    · have owner := wellFormed.owner here
      exact owner
    · have owner := wellFormed.owner found
      exact owner
  case target =>
    intro j target memo present
    rw [size_productions_splice]
    obtain ⟨-, same⟩ | ⟨-, e', before, same⟩ := wellFormed.expr?_of_splice attached present
    · rw [← same] at wraps
      cases wraps
    · cases e' with
      | reference => cases same; exact wellFormed.target before
      | _ => cases same
  case distinct =>
    intro j above reached present
    obtain ⟨-, rfl⟩ | ⟨before, found, rfl⟩ := wellFormed.splice_node attached here present
    · rw [wraps]
      exact List.nodup_cons.mpr ⟨List.not_mem_nil, List.nodup_nil⟩
    · have old := Nat.ne_of_lt (Array.getElem?_eq_some_iff.mp found).1
      have reached := (wellFormed.rooted_of_splice attached wraps reached).resolve_left fun last => old last.1
      simp only [rewired, Expr.children_mapChildren]
      refine (List.nodup_map_iff_inj_on (wellFormed.distinct reached found)).mpr ?_
      intro x listed y listed' same
      have inRange {x : Nat} (listed : x ∈ before.expr.children) : x < g.nodes.size :=
        wellFormed.lt_size (reached.child (expr?_of_node found) listed)
      have := inRange listed
      have := inRange listed'
      simp only [replaced] at same
      split at same <;> split at same <;> omega

/-- What acts beside an undo scope acted before; the scope acts like its body. -/
theorem acts_of_splice_undo (acts : (g.splice i .undo).2.Acts j) : g.Acts (g.original i j) := by
  induction acts with
  | action present =>
    obtain ⟨-, same⟩ | ⟨old, e, before, same⟩ := wellFormed.expr?_of_splice attached present
    · cases same
    · rw [original, if_neg old]
      cases e with
      | action => exact .action before
      | _ => cases same
  | part present member _ ih =>
    obtain ⟨last, rfl⟩ | ⟨old, e, before, rfl⟩ := wellFormed.expr?_of_splice attached present
    · rw [List.mem_singleton.mp member, original, if_neg (Nat.ne_of_lt (attached.lt_size))] at ih
      rw [original, if_pos last]
      exact ih
    · rw [original, if_neg old]
      rw [Expr.openChildren_mapChildren, List.mem_map] at member
      obtain ⟨child, member, rfl⟩ := member
      obtain ⟨e', part⟩ := wellFormed.expr?_child before (Expr.mem_children_of_open member)
      rw [original_replaced part] at ih
      exact .part before member ih
  | reference present defined _ ih =>
    obtain ⟨-, same⟩ | ⟨old, e, before, same⟩ := wellFormed.expr?_of_splice attached present
    · cases same
    · rw [wellFormed.splice_root? attached, Option.map_eq_some_iff] at defined
      obtain ⟨root, defined, rfl⟩ := defined
      obtain ⟨e', top⟩ := wellFormed.expr?_root defined
      rw [original_replaced top] at ih
      rw [original, if_neg old]
      cases e with
      | reference => cases same; exact .reference before defined ih
      | _ => cases same

/-- What is exposed beside an undo scope was exposed before. -/
theorem exposed_of_splice_undo (exposed : (g.splice i .undo).2.Exposed j) : j ≠ g.nodes.size ∧ g.Exposed j := by
  have acted {child : Nat} {e : Expr} (before : g.expr? j = some e) (member : child ∈ e.children)
      (acts : (g.splice i .undo).2.Acts (g.replaced i child)) : g.Acts child := by
    obtain ⟨e', part⟩ := wellFormed.expr?_child before member
    have acts := wellFormed.acts_of_splice_undo attached acts
    rwa [original_replaced part] at acts
  rcases exposed with ⟨children, present, child, member, acts⟩ | ⟨child, sign, present, acts⟩
  · obtain ⟨-, same⟩ | ⟨old, e, before, same⟩ := wellFormed.expr?_of_splice attached present
    · cases same
    · cases e with
      | sequence items =>
        cases same
        rw [← List.map_dropLast, List.mem_map] at member
        obtain ⟨child, member, rfl⟩ := member
        refine ⟨old, .inl ⟨items, before, child, member, ?_⟩⟩
        exact acted before (List.dropLast_subset _ member) acts
      | _ => cases same
  · obtain ⟨-, same⟩ | ⟨old, e, before, same⟩ := wellFormed.expr?_of_splice attached present
    · cases same
    · cases e with
      | lookahead =>
        cases same
        refine ⟨old, .inr ⟨_, _, before, ?_⟩⟩
        exact acted before (List.mem_singleton_self _) acts
      | _ => cases same

/-- What is open beside an undo scope was open before, and is not the body of the scope. -/
theorem open_of_splice_undo (old : j ≠ g.nodes.size) (isOpen : (g.splice i .undo).2.Open j) : g.Open j ∧ j ≠ i := by
  have back {child : Nat} (old : g.replaced i child ≠ g.nodes.size) : g.replaced i child = child ∧ child ≠ i := by
    unfold replaced at *
    split at old
    · exact absurd rfl old
    · next other => exact ⟨if_neg other, other⟩
  cases isOpen with
  | root defined =>
    rw [wellFormed.splice_root? attached, Option.map_eq_some_iff] at defined
    obtain ⟨root, defined, rfl⟩ := defined
    obtain ⟨same, other⟩ := back old
    rw [same]
    exact ⟨.root defined, other⟩
  | part above present plain member =>
    obtain ⟨-, rfl⟩ | ⟨upper, e, before, rfl⟩ := wellFormed.expr?_of_splice attached present
    · cases plain
    · have above := (wellFormed.rooted_of_splice attached rfl above).resolve_left fun last => upper last.1
      rw [Expr.isAction_mapChildren] at plain
      rw [Expr.children_mapChildren, List.mem_map] at member
      obtain ⟨child, member, rfl⟩ := member
      obtain ⟨same, other⟩ := back old
      rw [same]
      exact ⟨.part above before plain member, other⟩

end WellFormed

end Grammar

end Packrat
