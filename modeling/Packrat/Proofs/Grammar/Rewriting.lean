import Packrat.Proofs.Grammar.Dressed
import Packrat.Proofs.Grammar.MemoFlags
import Packrat.Proofs.Grammar.UndoScopes

/-! # Rewriting a grammar

A grammar is rewritten by undo scopes, by memo flags and by nodes put around others, in any order and any number. What
was there before keeps its operator, its owner and its span, the back-links stay exact, and taking out the nodes put in
gives the trees that the flags alone would have given.
-/

namespace Packrat

inductive Rewriting where
  | injectUndo
  | injectMemo
  | setMemo (i : Nat) (memo : Bool)
  | splice (i : Nat) (w : Wrapper)
deriving DecidableEq, Repr

namespace Rewriting

def apply (step : Rewriting) (g : Grammar) : Grammar :=
  match step with
  | injectUndo => g.injectUndo.2
  | injectMemo => g.injectMemo.2
  | setMemo i memo => g.setMemo i memo
  | splice i w => (g.splice i w.around).2

/-- The step changes memo flags and nothing else. -/
def flagsOnly : Rewriting → Bool
  | injectMemo | setMemo .. => true
  | injectUndo | splice .. => false

end Rewriting

/-- One step after the other. -/
def Grammar.rewrite (g : Grammar) (steps : List Rewriting) : Grammar := steps.foldl (fun g step => step.apply g) g

namespace Expr

variable (f : Nat → Nat) (e : Expr)

/-- The expression with another memo flag, if it is a reference. -/
def flagged (memo : Bool) : Expr → Expr
  | reference target _ => reference target memo
  | e => e

theorem plain_mapChildren : (e.mapChildren f).plain = e.plain.mapChildren f := by
  cases e <;> rfl

/-- The expression with the memo flag that is asked for, if any. -/
def marked : Option Bool → Expr → Expr
  | some memo, e => e.flagged memo
  | none, e => e

theorem marked_mapChildren (mark : Option Bool) : (e.mapChildren f).marked mark = (e.marked mark).mapChildren f := by
  cases mark <;> cases e <;> rfl

@[simp] theorem children_marked (mark : Option Bool) : (e.marked mark).children = e.children := by
  cases mark <;> cases e <;> rfl

/-- Flags are set on references only. -/
theorem marked_eq_self {e : Expr} (mark : Option Bool) (inner : e.children ≠ []) : e.marked mark = e := by
  cases mark <;> cases e <;> first | rfl | exact absurd rfl inner

theorem terminal_of_marked {e : Expr} {mark : Option Bool} {t : Terminal} (same : e.marked mark = terminal t) :
    e = terminal t := by
  cases mark with
  | none => exact same
  | some memo =>
    cases e with
    | terminal => exact same
    | _ => cases same

/-- An expression is a reference to a production. -/
def RefersTo (target : Nat) (e : Expr) : Prop := ∃ memo, e = reference target memo

theorem refersTo_plain {target : Nat} : e.plain.RefersTo target ↔ e.RefersTo target := by
  cases e <;> simp [RefersTo, plain]

theorem refersTo_mapChildren {target : Nat} : (e.mapChildren f).RefersTo target ↔ e.RefersTo target := by
  cases e <;> simp [RefersTo, mapChildren]

end Expr

/-- The same node, up to the links to other nodes and the memo flag. -/
structure Node.Resembles (node node' : Node) : Prop where
  owner : node'.owner = node.owner
  span : node'.span = node.span
  expr : ∃ f, node'.expr.plain = (node.expr.mapChildren f).plain

namespace Node.Resembles

variable {node node' node'' : Node}

theorem refl (node : Node) : node.Resembles node := ⟨rfl, rfl, id, by rw [Expr.mapChildren_id]⟩

theorem trans (first : node.Resembles node') (second : node'.Resembles node'') : node.Resembles node'' := by
  obtain ⟨f, same⟩ := first.expr
  obtain ⟨f', same'⟩ := second.expr
  refine ⟨second.owner.trans first.owner, second.span.trans first.span, f' ∘ f, ?_⟩
  rw [same', Expr.plain_mapChildren, same, ← Expr.plain_mapChildren, Expr.mapChildren_mapChildren]

theorem refersTo {target : Nat} (resembles : node.Resembles node') :
    node'.expr.RefersTo target ↔ node.expr.RefersTo target := by
  obtain ⟨f, same⟩ := resembles.expr
  rw [← Expr.refersTo_plain, same, Expr.refersTo_plain, Expr.refersTo_mapChildren]

end Node.Resembles

namespace Grammar

variable {g g' g'' : Grammar} {i j k : Nat} {w : Wrapper} {node : Node}

/-- Every node and every production is still there, and no node is a new reference. -/
structure Outgrows (g g' : Grammar) : Prop where
  productions : g'.productions.map (fun p => { p with root := 0 }) = g.productions.map fun p => { p with root := 0 }
  earlier : ∀ {k : Nat} {node : Node}, g.nodes[k]? = some node → ∃ node', g'.nodes[k]? = some node' ∧ node.Resembles node'
  later : ∀ {k target : Nat} {node' : Node}, g'.nodes[k]? = some node' → g.nodes[k]? = none → ¬ node'.expr.RefersTo target

namespace Outgrows

theorem refl (g : Grammar) : g.Outgrows g :=
  ⟨rfl, fun here => ⟨_, here, .refl _⟩, fun here missing => by cases here.symm.trans missing⟩

theorem trans (first : g.Outgrows g') (second : g'.Outgrows g'') : g.Outgrows g'' where
  productions := second.productions.trans first.productions
  earlier here := by
    obtain ⟨node', here', resembles⟩ := first.earlier here
    obtain ⟨node'', here'', resembles'⟩ := second.earlier here'
    exact ⟨node'', here'', resembles.trans resembles'⟩
  later {k target node''} here'' missing := by
    cases here' : g'.nodes[k]? with
    | none => exact second.later here'' here'
    | some node' =>
      obtain ⟨same, found, resembles⟩ := second.earlier here'
      cases here''.symm.trans found
      rw [resembles.refersTo]
      exact first.later here' missing

theorem size_le (outgrows : g.Outgrows g') : g.nodes.size ≤ g'.nodes.size := by
  by_contra shrunk
  have present : g'.nodes.size < g.nodes.size := Nat.lt_of_not_le shrunk
  obtain ⟨node', here, -⟩ := outgrows.earlier (Array.getElem?_eq_getElem present)
  rw [Array.getElem?_eq_none (Nat.le_refl _)] at here
  cases here

end Outgrows

theorem SameButMemo.outgrows (same : g.SameButMemo g') : g.Outgrows g' where
  productions := by rw [same.productions]
  earlier {k node} here := by
    obtain ⟨node', here', plain⟩ := same.symm.node here
    have owner := congrArg Node.owner plain
    have span := congrArg Node.span plain
    have expr := congrArg Node.expr plain
    exact ⟨node', here', owner, span, id, by rwa [Expr.mapChildren_id]⟩
  later {k target node'} here missing := by
    obtain ⟨node, found, -⟩ := same.node here
    cases found.symm.trans missing

theorem not_refersTo_around {target : Nat} : ¬ (w.around i).RefersTo target := by
  rintro ⟨memo, same⟩
  cases w <;> cases same

/-- A node at the end, which is no reference. -/
theorem outgrows_push (plain : ∀ target, ¬ node.expr.RefersTo target) :
    g.Outgrows { g with nodes := g.nodes.push node } where
  productions := rfl
  earlier {k before} found := by
    have old := Nat.ne_of_lt (Array.getElem?_eq_some_iff.mp found).1
    refine ⟨before, ?_, .refl before⟩
    rw [Array.getElem?_push, if_neg old, found]
  later {k target after} found missing := by
    rw [Array.getElem?_push, missing] at found
    split at found
    · cases found
      exact plain target
    · cases found

/-- Other links of a node. -/
theorem outgrows_modifyNode {f : Node → Node} (resembles : ∀ node : Node, node.Resembles (f node)) (i : Nat) :
    g.Outgrows (g.modifyNode i f) where
  productions := rfl
  earlier {k before} found := by
    rw [modifyNode, Array.getElem?_modify, found]
    split
    · exact ⟨f before, rfl, resembles before⟩
    · exact ⟨before, rfl, .refl before⟩
  later {k target after} found missing := by
    rw [modifyNode, Array.getElem?_modify, missing] at found
    split at found <;> cases found

/-- Another root of a production. -/
theorem outgrows_root (root : Production → Nat) (index : Nat) :
    g.Outgrows { g with productions := g.productions.modify index fun p => { p with root := root p } } := by
  have same := map_modify_of_same (f := fun p => { p with root := root p }) (g := fun p => { p with root := 0 })
    (fun _ => rfl) g.productions index
  exact { Outgrows.refl g with productions := same }

theorem splice_outgrows (g : Grammar) (i : Nat) (w : Wrapper) : g.Outgrows (g.splice i w.around).2 := by
  cases here : g.nodes[i]? with
  | none =>
    rw [splice_of_missing here]
    exact .refl g
  | some node =>
    have pushed : g.Outgrows { g with nodes := g.nodes.push { node with expr := w.around i } } :=
      outgrows_push fun _ => not_refersTo_around
    have lower (n : Node) : n.Resembles { n with parent := some g.nodes.size } :=
      ⟨rfl, rfl, id, by rw [Expr.mapChildren_id]⟩
    have below {h : Grammar} : h.Outgrows (h.modifyNode i fun n => { n with parent := some g.nodes.size }) :=
      outgrows_modifyNode lower i
    cases inside : node.parent with
    | none =>
      rw [splice_of_root here inside]
      exact (pushed.trans (outgrows_root (fun p => g.replaced i p.root) node.owner)).trans below
    | some parent =>
      have rewired : ∀ n : Node, n.Resembles { n with expr := n.expr.mapChildren (g.replaced i) } :=
        fun n => ⟨rfl, rfl, g.replaced i, rfl⟩
      rw [splice_of_part here inside]
      exact (pushed.trans (outgrows_modifyNode rewired parent)).trans below

/-- Every production knows the references to it in the order of the arena, and their owners. -/
structure Backlinked (g : Grammar) : Prop where
  references : ∀ {index : Nat} {p : Production}, g.productions[index]? = some p → p.references.Pairwise (· < ·) ∧
    ∀ i, i ∈ p.references ↔ ∃ node : Node, g.nodes[i]? = some node ∧ node.expr.RefersTo index
  referencedBy : ∀ {index : Nat} {p : Production}, g.productions[index]? = some p → p.referencedBy.Pairwise (· < ·) ∧
    ∀ owner, owner ∈ p.referencedBy ↔
      ∃ (i : Nat) (node : Node), g.nodes[i]? = some node ∧ node.expr.RefersTo index ∧ node.owner = owner

theorem mem_referencesTo {nodes : Array Node} {index i owner : Nat} : (i, owner) ∈ referencesTo nodes index ↔
    ∃ node, nodes[i]? = some node ∧ node.expr.RefersTo index ∧ node.owner = owner := by
  simp only [referencesTo, List.mem_filterMap, Prod.exists, List.mk_mem_zipIdx_iff_getElem?, Array.getElem?_toList]
  constructor
  · rintro ⟨node, j, here, found⟩
    split at found
    · next target memo same =>
      split at found
      · next itself =>
        cases found
        exact ⟨node, here, ⟨memo, itself ▸ same⟩, rfl⟩
      · cases found
    · cases found
  · rintro ⟨node, here, ⟨memo, same⟩, rfl⟩
    exact ⟨node, i, here, by simp only [same, if_true]⟩

/-- Back-links are exact when a grammar is put together. -/
theorem assemble_backlinked (productions : Array Production) (nodes : Array Node) (source : Option String) :
    (assemble productions nodes source).Backlinked := by
  have linked {index : Nat} {p : Production} (defined : (assemble productions nodes source).productions[index]? = some p) :
      p.references = (referencesTo nodes index).map Prod.fst ∧
        p.referencedBy = ((referencesTo nodes index).map Prod.snd).eraseDups.mergeSort := by
    rw [assemble, Array.getElem?_mapIdx, Option.map_eq_some_iff] at defined
    obtain ⟨before, -, rfl⟩ := defined
    exact ⟨rfl, rfl⟩
  constructor
  · intro index p defined
    rw [(linked defined).1]
    constructor
    · have places : nodes.toList.zipIdx.Pairwise fun a b => a.2 < b.2 := by
        rw [← List.pairwise_map (f := Prod.snd) (R := (· < ·)), List.zipIdx_map_snd]
        exact List.pairwise_lt_range'
      rw [referencesTo, List.pairwise_map, List.pairwise_filterMap]
      refine places.imp fun {a b} before x found y found' => ?_
      have place {a : Node × Nat} {x : Nat × Nat} (found : (match a.1.expr with
          | .reference target _ => if target = index then some (a.2, a.1.owner) else none
          | _ => none) = some x) : x.1 = a.2 := by
        split at found
        · split at found
          · cases found
            rfl
          · cases found
        · cases found
      rw [place found, place found']
      exact before
    · intro i
      simp only [List.mem_map, Prod.exists, exists_and_right, exists_eq_right, mem_referencesTo]
      exact ⟨fun ⟨_, node, here, refers, _⟩ => ⟨node, here, refers⟩, fun ⟨node, here, refers⟩ => ⟨_, node, here, refers, rfl⟩⟩
  · intro index p defined
    rw [(linked defined).2]
    constructor
    · have sorted := @List.pairwise_mergeSort Nat (fun a b => decide (a ≤ b)) (by simp; omega) (by simp; omega)
        ((referencesTo nodes index).map Prod.snd).eraseDups
      have distinct := (List.mergeSort_perm ((referencesTo nodes index).map Prod.snd).eraseDups (· ≤ ·)).nodup_iff.mpr
        (nodup_eraseDups _)
      refine (sorted.and distinct).imp fun {a b} both => ?_
      have := of_decide_eq_true both.1
      have := both.2
      omega
    · intro owner
      simp only [List.mem_mergeSort, List.mem_eraseDups, List.mem_map, Prod.exists, exists_eq_right, mem_referencesTo]
      rfl

namespace Outgrows

variable (outgrows : g.Outgrows g')

include outgrows

theorem refersTo {index owner : Nat} : (∃ node, g'.nodes[i]? = some node ∧ node.expr.RefersTo index ∧ node.owner = owner) ↔
    ∃ node, g.nodes[i]? = some node ∧ node.expr.RefersTo index ∧ node.owner = owner := by
  constructor
  · rintro ⟨node', here', refers, owned⟩
    cases here : g.nodes[i]? with
    | none => exact absurd refers (outgrows.later here' here)
    | some node =>
      obtain ⟨same, found, resembles⟩ := outgrows.earlier here
      cases here'.symm.trans found
      exact ⟨node, rfl, resembles.refersTo.mp refers, resembles.owner.symm.trans owned⟩
  · rintro ⟨node, here, refers, owned⟩
    obtain ⟨node', found, resembles⟩ := outgrows.earlier here
    exact ⟨node', found, resembles.refersTo.mpr refers, resembles.owner.trans owned⟩

theorem production {index : Nat} {p' : Production} (defined : g'.productions[index]? = some p') :
    ∃ p, g.productions[index]? = some p ∧ { p' with root := 0 } = { p with root := 0 } := by
  have rows := congrArg (·[index]?) outgrows.productions
  simp only [Array.getElem?_map, defined, Option.map_some] at rows
  obtain ⟨p, found, same⟩ := Option.map_eq_some_iff.mp rows.symm
  exact ⟨p, found, same.symm⟩

theorem backlinked (backlinked : g.Backlinked) : g'.Backlinked := by
  have anyOwner {grammar : Grammar} {i index : Nat} :
      (∃ node, grammar.nodes[i]? = some node ∧ node.expr.RefersTo index) ↔
        ∃ owner node, grammar.nodes[i]? = some node ∧ node.expr.RefersTo index ∧ node.owner = owner :=
    ⟨fun ⟨node, here, refers⟩ => ⟨_, node, here, refers, rfl⟩, fun ⟨_, node, here, refers, _⟩ => ⟨node, here, refers⟩⟩
  constructor
  · intro index p' defined
    obtain ⟨p, found, same⟩ := outgrows.production defined
    have references : p'.references = p.references := (Production.mk.inj same).2.2.2.2.2.2.1
    obtain ⟨ascending, listed⟩ := backlinked.references found
    rw [references]
    refine ⟨ascending, fun i => ?_⟩
    rw [listed, anyOwner, anyOwner]
    exact exists_congr fun owner => outgrows.refersTo.symm
  · intro index p' defined
    obtain ⟨p, found, same⟩ := outgrows.production defined
    have referencedBy : p'.referencedBy = p.referencedBy := (Production.mk.inj same).2.2.2.2.2.2.2
    obtain ⟨ascending, listed⟩ := backlinked.referencedBy found
    rw [referencedBy]
    refine ⟨ascending, fun owner => ?_⟩
    rw [listed]
    exact exists_congr fun i => outgrows.refersTo.symm

end Outgrows

/-- A node that passes for a part of another one is among its parts. -/
def Parented (g : Grammar) : Prop := ∀ {i above : Nat} {node : Node}, g.nodes[i]? = some node →
  node.parent = some above → ∃ upper, g.nodes[above]? = some upper ∧ i ∈ upper.expr.children

theorem SameButMemo.parented (same : g.SameButMemo g') (parented : g.Parented) : g'.Parented := by
  intro i above node' here' inside
  obtain ⟨node, here, plain⟩ := same.node here'
  obtain ⟨parent, -, -⟩ := Node.links_of_plain plain
  obtain ⟨upper, found, member⟩ := parented here (parent.trans inside)
  obtain ⟨upper', found', plain'⟩ := same.symm.node found
  obtain ⟨-, -, children⟩ := Node.links_of_plain plain'
  exact ⟨upper', found', children ▸ member⟩

theorem WellFormed.splice_parented (wellFormed : g.WellFormed) (parented : g.Parented) (i : Nat) (w : Wrapper) :
    (g.splice i w.around).2.Parented := by
  obtain attached | missing | ⟨node, here, dangling⟩ := splice_cases g i
  · obtain ⟨node, here, -⟩ := id attached
    intro j above after found inside
    -- Links lead to where they led before, except that of the node itself, which leads to the wrapper.
    have within {j : Nat} {before : Node} (found : g.nodes[j]? = some before) (inside : before.parent = some above) :
        ∃ upper, (g.splice i w.around).2.nodes[above]? = some upper ∧ g.replaced i j ∈ upper.expr.children := by
      obtain ⟨upper, present, member⟩ := parented found inside
      have old := Nat.ne_of_lt (Array.getElem?_eq_some_iff.mp present).1
      refine ⟨g.rewired i above upper, ?_, ?_⟩
      · rw [wellFormed.splice_nodes attached here, if_neg old, present, Option.map_some]
      · rw [rewired, Expr.children_mapChildren]
        exact List.mem_map_of_mem member
    rw [wellFormed.splice_nodes attached here] at found
    split at found
    · next last =>
      cases found
      have placed := within here inside
      rwa [replaced, if_pos rfl, ← last] at placed
    · obtain ⟨before, present, rfl⟩ := Option.map_eq_some_iff.mp found
      by_cases itself : j = i
      · rw [rewired, if_pos itself] at inside
        cases inside
        refine ⟨{ node with expr := w.around i }, ?_, ?_⟩
        · rw [wellFormed.splice_nodes attached here, if_pos rfl]
        · rw [Wrapper.children_around, itself]
          exact List.mem_singleton_self _
      · rw [rewired, if_neg itself] at inside
        have placed := within present inside
        rwa [replaced, if_neg itself] at placed
  · rwa [splice_of_missing missing]
  · obtain ⟨upper, present, -⟩ := parented here dangling
    rw [Array.getElem?_eq_none (Nat.le_refl _)] at present
    cases present

/-- Flags change nothing but references, and these as `mark` tells. -/
structure Flags (mark : Nat → Option Bool) (g g' : Grammar) : Prop where
  sameButMemo : g.SameButMemo g'
  expr? : ∀ i, g'.expr? i = (g.expr? i).map (Expr.marked (mark i))

theorem flags_setMemo (g : Grammar) (i : Nat) (memo : Bool) :
    Flags (fun j => if i = j then some memo else none) g (g.setMemo i memo) where
  sameButMemo := sameButMemo_setMemo g i memo
  expr? j := by
    simp only [Grammar.expr?, setMemo, modifyNode, Array.getElem?_modify]
    split
    · rw [Option.map_map, Option.map_map]
      congr 1
      funext node
      rcases node with ⟨⟨⟩, owner, parent, span⟩ <;> rfl
    · rw [Option.map_map]
      rfl

theorem flags_injectMemo (g : Grammar) : Flags (fun _ => some true) g g.injectMemo.2 where
  sameButMemo := sameButMemo_injectMemo g
  expr? j := by
    simp only [Grammar.expr?, injectMemo, Array.getElem?_map, Option.map_map]
    congr 1
    funext node
    rcases node with ⟨⟨⟩, owner, parent, span⟩ <;> rfl

variable {put : Nat → Expr → Prop} {place : Nat → Nat} {mark : Nat → Option Bool} {h h' : Grammar}

/-- A grammar stays dressed when flags are set in both. -/
theorem Dressed.flags (dressed : Dressed put place g g') (flags : Flags mark g h) (flags' : Flags mark g' h') :
    Dressed put place h h' where
  productions := by rw [flags'.sameButMemo.productions, dressed.productions, flags.sameButMemo.productions]
  inner {i e} rooted present := by
    rw [flags.expr?] at present
    obtain ⟨before, found, rfl⟩ := Option.map_eq_some_iff.mp present
    rw [flags'.expr?, dressed.inner (flags.sameButMemo.rooted rooted) found, Option.map_some, Expr.marked_mapChildren]
  leads {i} rooted := by
    have along {j : Nat} (leads : g'.Leads put i j) : h'.Leads put i j := by
      induction leads with
      | here => exact .here
      | @down j child e present inserted only _ ih =>
        refine .down ?_ inserted only ih
        rw [flags'.expr?, present, Option.map_some, Expr.marked_eq_self _ (by rw [only]; exact List.cons_ne_nil _ _)]
    exact along (dressed.leads (flags.sameButMemo.rooted rooted))

/-- One splice after the other. -/
def splices (g : Grammar) (sites : List (Nat × Wrapper)) : Grammar :=
  sites.foldl (fun g site => (g.splice site.1 site.2.around).2) g

theorem injectUndo_eq (g : Grammar) : g.injectUndo.2 = g.splices (g.undoSites.map fun i => (i, .undo)) := by
  rw [splices, List.foldl_map]
  rfl

theorem splices_outgrows (g : Grammar) (sites : List (Nat × Wrapper)) : g.Outgrows (g.splices sites) := by
  induction sites generalizing g with
  | nil => exact .refl g
  | cons site rest ih => exact (g.splice_outgrows site.1 site.2).trans (ih _)

theorem WellFormed.splices (wellFormed : g.WellFormed) (sites : List (Nat × Wrapper)) :
    (g.splices sites).WellFormed ∧ g.Outgrows (g.splices sites) ∧ (g.Parented → (g.splices sites).Parented) ∧
      ∃ place, (∀ j, place j ≠ j → ∃ site ∈ sites, site.1 = j) ∧
        Dressed (fun j e => g.nodes.size ≤ j ∧ ∃ site ∈ sites, ∃ child, e = site.2.around child) place g
          (g.splices sites) := by
  induction sites generalizing g with
  | nil => exact ⟨wellFormed, .refl g, id, id, fun _ moved => absurd rfl moved, .refl _ g⟩
  | cons site rest ih =>
    have outgrows := g.splice_outgrows site.1 site.2
    obtain ⟨place, moved, dressed⟩ := wellFormed.exists_dressed site.1 site.2
    obtain ⟨wellFormed', outgrows', parented', place', moved', dressed'⟩ := ih (wellFormed.splice_around site.1 site.2)
    refine ⟨wellFormed', outgrows.trans outgrows', fun parented => parented' fun {_ _ _} => ?_, place' ∘ place,
      fun j changed => ?_, ?_⟩
    · exact wellFormed.splice_parented parented site.1 site.2
    · by_cases first : place j = j
      · rw [Function.comp_apply, first] at changed
        obtain ⟨other, member, same⟩ := moved' j changed
        exact ⟨other, List.mem_cons_of_mem _ member, same⟩
      · exact ⟨site, List.mem_cons_self .., (moved j first).symm⟩
    · refine Dressed.trans ?_ (dressed.mono ?_) (dressed'.mono ?_)
      · rintro j e f ⟨new, other, member, child, rfl⟩
        exact ⟨new, other, member, f child, Wrapper.mapChildren_around ..⟩
      · rintro j e ⟨rfl, rfl⟩
        exact ⟨Nat.le_refl _, site, List.mem_cons_self .., _, rfl⟩
      · rintro j e ⟨new, other, member, child, rfl⟩
        exact ⟨Nat.le_trans outgrows.size_le new, other, List.mem_cons_of_mem _ member, child, rfl⟩

end Grammar

end Packrat
