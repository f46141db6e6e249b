import Packrat.Proofs.Grammar.Splice
import Packrat.Proofs.Grammar.Trees

/-! # Grammars with nodes put in

A grammar is dressed when nodes are put around some of its expressions: every expression is still where it was, and in
the place of a part or of a root stands a node that leads down to it. One splice dresses a grammar, wherever it is made,
and dresses add up. What a tree says is the same in a dressed grammar, if the nodes put in add nothing to it.
-/

namespace Packrat

/-- What can be put around an expression. -/
inductive Wrapper where
  | action (name : String) (bound : Bool)
  | undo
  | repetition (min max : Nat)
  | lookahead (sign : Lookahead)
deriving DecidableEq, Repr

namespace Wrapper

/-- The expression with the node `i` as its only part. -/
def around (w : Wrapper) (i : Nat) : Expr :=
  match w with
  | action name bound => .action i name bound
  | undo => .undo i
  | repetition min max => .repetition i min max
  | lookahead sign => .lookahead i sign

@[simp] theorem children_around (w : Wrapper) (i : Nat) : (w.around i).children = [i] := by
  cases w <;> rfl

@[simp] theorem mapChildren_around (w : Wrapper) (i : Nat) (f : Nat → Nat) :
    (w.around i).mapChildren f = w.around (f i) := by
  cases w <;> rfl

end Wrapper

namespace Grammar

variable {put put' : Nat → Expr → Prop} {place place' : Nat → Nat} {g g' g'' : Grammar} {i j k index : Nat} {e : Expr}

/-- From `j`, nodes that are put in lead down to `i`. -/
inductive Leads (g : Grammar) (put : Nat → Expr → Prop) (i : Nat) : Nat → Prop
  | here : Leads g put i i
  | down {j child : Nat} {e : Expr} (present : g.expr? j = some e) (inserted : put j e) (only : e.children = [child])
      (rest : Leads g put i child) : Leads g put i j

namespace Leads

theorem trans (first : g.Leads put j k) (second : g.Leads put i j) : g.Leads put i k := by
  induction first with
  | here => exact second
  | down present inserted only _ ih => exact .down present inserted only ih

theorem mono (leads : g.Leads put i j) (le : ∀ {j e}, put j e → put' j e) : g.Leads put' i j := by
  induction leads with
  | here => exact .here
  | down present inserted only _ ih => exact .down present (le inserted) only ih

theorem rooted (leads : g.Leads put i j) (rooted : g.Rooted j) : g.Rooted i := by
  induction leads with
  | here => exact rooted
  | down present _ only _ ih =>
    apply ih
    exact rooted.child present (only ▸ List.mem_singleton_self _)

end Leads

/-- The grammar `g'` is `g` with nodes put in, as `put` tells. The place of a node is taken by the outermost one around
it. -/
structure Dressed (put : Nat → Expr → Prop) (place : Nat → Nat) (g g' : Grammar) : Prop where
  productions : g'.productions = g.productions.map fun p => { p with root := place p.root }
  inner : ∀ {i e}, g.Rooted i → g.expr? i = some e → g'.expr? i = some (e.mapChildren place)
  leads : ∀ {i}, g.Rooted i → g'.Leads put i (place i)

namespace Dressed

theorem refl (put : Nat → Expr → Prop) (g : Grammar) : Dressed put id g g where
  productions := (Array.map_id _).symm
  inner _ present := by rwa [Expr.mapChildren_id]
  leads _ := .here

theorem mono (dressed : Dressed put place g g') (le : ∀ {j e}, put j e → put' j e) : Dressed put' place g g' where
  productions := dressed.productions
  inner := dressed.inner
  leads rooted := (dressed.leads rooted).mono le

theorem root? (dressed : Dressed put place g g') : g'.root? index = (g.root? index).map place := by
  rw [Grammar.root?, dressed.productions, Array.getElem?_map, Grammar.root?, Option.map_map, Option.map_map]
  rfl

theorem name (dressed : Dressed put place g g') : g'.name = g.name := by
  funext index
  rw [Grammar.name, dressed.productions, Array.getElem?_map, Grammar.name, Option.map_map]
  rfl

/-- A node is reached in its old place, and so is what stands there now. -/
theorem rooted (dressed : Dressed put place g g') (rooted : g.Rooted i) :
    g'.Rooted (place i) ∧ g'.Rooted i := by
  have both {i : Nat} (old : g.Rooted i) (reached : g'.Rooted (place i)) : g'.Rooted (place i) ∧ g'.Rooted i :=
    ⟨reached, (dressed.leads old).rooted reached⟩
  induction rooted with
  | @root index root defined =>
    apply both (.root defined)
    refine @Rooted.root g' index _ ?_
    rw [dressed.root?, defined, Option.map_some]
  | part above present member ih =>
    apply both (.part above present member)
    apply ih.2.child (dressed.inner above (expr?_of_node present))
    rw [Expr.children_mapChildren]
    exact List.mem_map_of_mem member

/-- Dresses add up if the nodes put in first pass for put in when others are put below them. -/
theorem trans (stable : ∀ {j e f}, put j e → put j (e.mapChildren f))
    (first : Dressed put place g g') (second : Dressed put place' g' g'') :
    Dressed put (place' ∘ place) g g'' where
  productions := by
    rw [second.productions, first.productions, Array.map_map]
    rfl
  inner rooted present := by
    rw [second.inner (first.rooted rooted).2 (first.inner rooted present), Expr.mapChildren_mapChildren]
  leads {i} rooted := by
    have along {j : Nat} (leads : g'.Leads put i j) (reached : g'.Rooted j) : g''.Leads put i (place' j) := by
      induction leads with
      | here => exact second.leads reached
      | @down j child e present inserted only _ ih =>
        have part := reached.child present (only ▸ List.mem_singleton_self _)
        apply (second.leads reached).trans
        refine .down (second.inner reached present) (stable inserted) ?_ (ih part)
        rw [Expr.children_mapChildren, only, List.map_singleton]
    exact along (first.leads rooted) (first.rooted rooted).1

/-- A view of trees stays the same in place, if it is made from the views of the branches and no node put in adds to
it. -/
theorem view {α : Type} {view view' : Tree → α} (wellFormed : g.WellFormed) (wellFormed' : g'.WellFormed)
    (dressed : Dressed put place g g')
    (congruent : ∀ {i e t t'}, g.Rooted i → Tree.Layer (fun child body =>
        g.tree? child = some body ∧ ∀ {body'}, g'.tree? (place child) = some body' → view' body' = view body) i e t →
      Tree.Layer (fun child body => g'.tree? child = some body) i (e.mapChildren place) t' → view' t' = view t)
    (silent : ∀ {i j child e t body}, place i ≠ i → g.Rooted i → put j e → g'.Leads put i child →
      Tree.Layer (fun child body => g'.tree? child = some body) j e t → e.children = [child] →
      g'.tree? child = some body → view' t = view' body)
    {t : Tree} (rooted : g.Rooted i) (shown : g.tree? i = some t) :
    ∃ t', g'.tree? (place i) = some t' ∧ view' t' = view t := by
  refine wellFormed.tree_induction
    (motive := fun i t => ∃ t', g'.tree? (place i) = some t' ∧ view' t' = view t) ?_ rooted shown
  intro i e t rooted present layer
  obtain ⟨reached, reached'⟩ := dressed.rooted rooted
  obtain ⟨inner, shown, layer'⟩ := wellFormed'.layer reached' (dressed.inner rooted present)
  have same : view' inner = view t := by
    refine congruent rooted (layer.mono fun _ part => ⟨part.1, fun {body'} shown => ?_⟩) layer'
    obtain ⟨-, body'', part', same⟩ := part
    cases part'.symm.trans shown
    exact same
  by_cases moved : place i = i
  · exact ⟨inner, by rw [moved, shown], same⟩
  have along {j : Nat} (leads : g'.Leads put i j) (reached : g'.Rooted j) :
      ∃ t', g'.tree? j = some t' ∧ view' t' = view t := by
    induction leads with
    | here => exact ⟨inner, shown, same⟩
    | @down j child e present inserted only rest ih =>
      obtain ⟨body, part, same⟩ := ih (reached.child present (only ▸ List.mem_singleton_self _))
      obtain ⟨t', shown, layer⟩ := wellFormed'.layer reached present
      exact ⟨t', shown, (silent moved rooted inserted rest layer only part).trans same⟩
  exact along (dressed.leads rooted) reached

end Dressed

variable {w : Wrapper} {node : Node}

/-- Around a node that is said to be a part of the one that comes next, the wrapper is put around itself. -/
theorem splice_of_dangling (here : g.nodes[i]? = some node) (dangling : node.parent = some g.nodes.size) :
    (g.splice i w.around).2 = { g with nodes := g.nodes.push { node with expr := w.around g.nodes.size } } := by
  have small := (Array.getElem?_eq_some_iff.mp here).1
  rw [splice_of_part here dangling]
  congr 1
  apply Array.ext_getElem?
  intro j
  simp only [Array.getElem?_modify, Array.getElem?_push]
  by_cases last : j = g.nodes.size
  · simp [last, Nat.ne_of_lt small, replaced]
  · by_cases itself : i = j
    · subst itself
      simp [last, Ne.symm last, here, ← dangling]
    · simp [last, Ne.symm last, itself]

namespace WellFormed

variable (wellFormed : g.WellFormed)

include wellFormed

theorem dressed_of_attached (attached : g.Attached i) :
    Dressed (fun j e => j = g.nodes.size ∧ e = w.around i) (g.replaced i) g (g.splice i w.around).2 where
  productions := by
    obtain ⟨node, here, -⟩ := id attached
    apply Array.ext_getElem?
    intro index
    rw [wellFormed.splice_productions here, Array.getElem?_map]
  inner rooted present := by
    rw [wellFormed.splice_expr? attached, if_neg (Nat.ne_of_lt (wellFormed.lt_size rooted)), present, Option.map_some]
  leads {j} rooted := by
    unfold replaced
    split
    · next itself =>
      subst itself
      refine @Leads.down _ _ _ _ _ (w.around j) ?_ ⟨rfl, rfl⟩ (Wrapper.children_around w j) .here
      rw [wellFormed.splice_expr? attached, if_pos rfl]
    · exact .here

/-- A node that refers to nothing but itself is out of reach. -/
theorem push_dangling (here : g.nodes[i]? = some node) (dangling : node.parent = some g.nodes.size) :
    { g with nodes := g.nodes.push { node with expr := w.around g.nodes.size } }.WellFormed ∧
      ∀ {j}, { g with nodes := g.nodes.push { node with expr := w.around g.nodes.size } }.Rooted j → g.Rooted j := by
  have pushed {j : Nat} {node' : Node}
      (present : (g.nodes.push { node with expr := w.around g.nodes.size })[j]? = some node') :
      (j = g.nodes.size ∧ node' = { node with expr := w.around g.nodes.size }) ∨ g.nodes[j]? = some node' := by
    rw [Array.getElem?_push] at present
    split at present
    · next last => exact .inl ⟨last, (Option.some.inj present).symm⟩
    · exact .inr present
  have kept {j : Nat} {node' : Node} (present : g.nodes[j]? = some node') :
      (g.nodes.push { node with expr := w.around g.nodes.size })[j]? = some node' := by
    have small := (Array.getElem?_eq_some_iff.mp present).1
    rw [Array.getElem?_push, if_neg (Nat.ne_of_lt small), present]
  have reached {j : Nat} (rooted : { g with nodes := g.nodes.push { node with expr := w.around g.nodes.size } }.Rooted j) :
      g.Rooted j := by
    induction rooted with
    | @root index root defined => exact @Rooted.root g index root defined
    | part _ present member ih =>
      obtain ⟨rfl, -⟩ | before := pushed present
      · exact absurd (wellFormed.lt_size ih) (Nat.lt_irrefl _)
      · exact .part ih before member
  refine ⟨?_, reached⟩
  constructor
  case index => exact wellFormed.index
  case root =>
    intro index p defined
    obtain ⟨root, found, links⟩ := wellFormed.root defined
    exact ⟨root, kept found, links⟩
  case part =>
    intro j child above present member
    obtain ⟨rfl, rfl⟩ | before := pushed present
    · rw [Wrapper.children_around, List.mem_singleton] at member
      subst member
      exact ⟨_, present, dangling, rfl⟩
    · obtain ⟨part, found, links⟩ := wellFormed.part before member
      exact ⟨part, kept found, links⟩
  case owner =>
    intro j above present
    obtain ⟨-, rfl⟩ | before := pushed present
    · have owner := wellFormed.owner here
      exact owner
    · exact wellFormed.owner before
  case target =>
    intro j target memo present
    obtain ⟨above, found, same⟩ := node_of_expr? present
    obtain ⟨-, rfl⟩ | before := pushed found
    · cases w <;> cases same
    · exact wellFormed.target ((expr?_of_node before).trans (congrArg some same))
  case distinct =>
    intro j above rooted present
    obtain ⟨rfl, -⟩ | before := pushed present
    · exact absurd (wellFormed.lt_size (reached rooted)) (Nat.lt_irrefl _)
    · exact wellFormed.distinct (reached rooted) before

omit wellFormed in
/-- A splice is made around a node, or it is in vain, since the node is missing or dangles. -/
theorem splice_cases (g : Grammar) (i : Nat) : g.Attached i ∨ g.nodes[i]? = none ∨
    ∃ node, g.nodes[i]? = some node ∧ node.parent = some g.nodes.size := by
  cases here : g.nodes[i]? with
  | none => exact .inr (.inl rfl)
  | some node =>
    by_cases dangling : node.parent = some g.nodes.size
    · exact .inr (.inr ⟨node, rfl, dangling⟩)
    · exact .inl ⟨node, here, dangling⟩

/-- A splice keeps a grammar well formed, wherever it is made. -/
theorem splice_around (i : Nat) (w : Wrapper) : (g.splice i w.around).2.WellFormed := by
  obtain attached | missing | ⟨node, here, dangling⟩ := splice_cases g i
  · exact wellFormed.splice attached (Wrapper.children_around w i)
  · rwa [splice_of_missing missing]
  · rw [splice_of_dangling here dangling]
    exact (wellFormed.push_dangling here dangling).1

/-- A splice dresses a grammar, wherever it is made. -/
theorem exists_dressed (i : Nat) (w : Wrapper) : ∃ place, (∀ j, place j ≠ j → j = i) ∧
    Dressed (fun j e => j = g.nodes.size ∧ e = w.around i) place g (g.splice i w.around).2 := by
  obtain attached | missing | ⟨node, here, dangling⟩ := splice_cases g i
  · refine ⟨g.replaced i, fun j moved => ?_, wellFormed.dressed_of_attached attached⟩
    by_contra other
    exact moved (if_neg other)
  · rw [splice_of_missing missing]
    exact ⟨id, fun _ moved => absurd rfl moved, .refl _ g⟩
  · refine ⟨id, fun _ moved => absurd rfl moved, ?_⟩
    rw [splice_of_dangling here dangling]
    refine ⟨(Array.map_id _).symm, fun rooted present => ?_, fun _ => .here⟩
    rw [expr?, Array.getElem?_push, if_neg (Nat.ne_of_lt (wellFormed.lt_size rooted)), Expr.mapChildren_id]
    exact present

end WellFormed

end Grammar

end Packrat
