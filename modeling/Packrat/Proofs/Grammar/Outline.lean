import Packrat.Proofs.Grammar.Dressed
import Packrat.Proofs.Grammar.Rendering
import Packrat.Proofs.Grammar.UndoScopes

/-! # Outlines

The outline of a grammar lists its definitions in order, each with what its right-hand side says. An undo scope adds
nothing to it, since it is put around an expression that then says the same in its place. The text of a grammar is that
of its outline.
-/

namespace Packrat

namespace Tree

variable {names : Nat → String} {branch branch' : Nat → Tree → Prop} {i j : Nat} {e : Expr} {t t' : Tree}

/-- The same operator over parts that say the same says the same. -/
theorem Layer.phrase_eq {f : Nat → Nat} (layer : Layer branch i e t) (layer' : Layer branch' j (e.mapChildren f) t')
    (same : ∀ {child body body'}, branch child body → branch' (f child) body' → body'.phrase names = body.phrase names) :
    t'.phrase names = t.phrase names := by
  have items {children : List Nat} {items items' : List Tree} (parts : List.Forall₂ branch children items)
      (parts' : List.Forall₂ branch' (children.map f) items') : phrases names items' = phrases names items := by
    induction parts generalizing items' with
    | nil =>
      cases parts'
      rfl
    | cons head _ ih =>
      cases parts' with
      | cons head' tail' => rw [phrases, phrases, same head head', ih tail']
  cases layer with
  | terminal =>
    cases layer'
    rfl
  | reference =>
    cases layer'
    rfl
  | action part =>
    cases layer' with
    | action part' => rw [phrase, phrase, same part part']
  | undo part =>
    cases layer' with
    | undo part' => rw [phrase, phrase, same part part']
  | sequence parts =>
    cases layer' with
    | sequence parts' => rw [phrase, phrase, items parts parts']
  | choice parts =>
    cases layer' with
    | choice parts' => rw [phrase, phrase, items parts parts']
  | repetition part =>
    cases layer' with
    | repetition part' => rw [phrase, phrase, same part part']
  | lookahead part =>
    cases layer' with
    | lookahead part' => rw [phrase, phrase, same part part']

end Tree

namespace Grammar

variable {g : Grammar} {i j : Nat} {p : Phrase}

/-- What an expression says. -/
def phrase? (g : Grammar) (i : Nat) : Option Phrase := (g.tree? i).map (Tree.phrase g.name)

/-- The definitions in order, with what their right-hand sides say. -/
def outline (g : Grammar) : List (String × Option Phrase) :=
  (g.productions.toList.filter Production.defined).map fun p => (p.name, g.phrase? p.root)

def arena (g : Grammar) : Arena where
  expr? := g.expr?
  name? k := g.productions[k]?.map Production.name

/-- No undo scope is right around the empty text. -/
def ScopesFilled (g : Grammar) : Prop :=
  ∀ {i child}, g.expr? i = some (.undo child) → g.expr? child ≠ some (.terminal .nil)

namespace WellFormed

variable (wellFormed : g.WellFormed)

include wellFormed

/-- Where an arena shows a phrase, the tree says it. -/
theorem phrase?_of_shows (rooted : g.Rooted i) (shown : g.arena.Shows p i) : g.phrase? i = some p := by
  have each {items : List Phrase} (ih : ∀ item ∈ items, ∀ {i}, g.Rooted i → g.arena.Shows item i → g.phrase? i = some item)
      {children : List Nat} {trees : List Tree} (reached : ∀ child ∈ children, g.Rooted child)
      (all : g.arena.ShowsAll items children)
      (parts : List.Forall₂ (fun child body => g.tree? child = some body) children trees) :
      Tree.phrases g.name trees = items := by
    rw [Arena.showsAll_iff] at all
    induction all generalizing trees with
    | nil =>
      cases parts
      rfl
    | cons head _ tail =>
      cases parts with
      | cons part parts =>
        have first := ih _ (List.mem_cons_self ..) (reached _ (List.mem_cons_self ..)) head
        rw [phrase?, part, Option.map_some] at first
        rw [Tree.phrases, Option.some.inj first, tail (fun item member => ih item (List.mem_cons_of_mem _ member))
          (fun child member => reached child (List.mem_cons_of_mem _ member)) parts]
  have single {i : Nat} {e : Expr} {child : Nat} {body : Tree} {q : Phrase} (rooted : g.Rooted i)
      (present : g.expr? i = some e) (only : e.children = [child]) (part : g.tree? child = some body)
      (ih : g.Rooted child → g.phrase? child = some q) : body.phrase g.name = q := by
    have said := ih (rooted.child present (only ▸ List.mem_singleton_self _))
    rw [phrase?, part, Option.map_some] at said
    exact Option.some.inj said
  induction p using Phrase.induction generalizing i with
  | terminal t =>
    obtain ⟨tree, shown', layer⟩ := wellFormed.layer rooted shown
    rw [phrase?, shown']
    cases layer
    rfl
  | reference name memo =>
    obtain ⟨target, present, named⟩ := shown
    obtain ⟨tree, shown', layer⟩ := wellFormed.layer rooted present
    have same : g.name target = name := by
      change g.productions[target]?.map Production.name = some name at named
      rw [Grammar.name, named, Option.getD_some]
    rw [phrase?, shown']
    cases layer
    rw [Option.map_some, Tree.phrase, same]
  | action name body ih =>
    obtain ⟨child, bound, present, part⟩ := shown
    obtain ⟨tree, shown', layer⟩ := wellFormed.layer rooted present
    rw [phrase?, shown']
    cases layer with
    | action part' => rw [Option.map_some, Tree.phrase, single rooted present rfl part' fun reached => ih reached part]
  | sequence items ih =>
    obtain ⟨children, present, all⟩ := shown
    obtain ⟨tree, shown', layer⟩ := wellFormed.layer rooted present
    rw [phrase?, shown']
    cases layer with
    | sequence parts =>
      rw [Option.map_some, Tree.phrase, each (fun item member _ => ih item member) (fun _ => rooted.child present) all parts]
  | choice items ih =>
    obtain ⟨children, present, all⟩ := shown
    obtain ⟨tree, shown', layer⟩ := wellFormed.layer rooted present
    rw [phrase?, shown']
    cases layer with
    | choice parts =>
      rw [Option.map_some, Tree.phrase, each (fun item member _ => ih item member) (fun _ => rooted.child present) all parts]
  | repetition min max body ih =>
    obtain ⟨child, present, part⟩ := shown
    obtain ⟨tree, shown', layer⟩ := wellFormed.layer rooted present
    rw [phrase?, shown']
    cases layer with
    | repetition part' => rw [Option.map_some, Tree.phrase, single rooted present rfl part' fun reached => ih reached part]
  | lookahead sign body ih =>
    obtain ⟨child, present, part⟩ := shown
    obtain ⟨tree, shown', layer⟩ := wellFormed.layer rooted present
    rw [phrase?, shown']
    cases layer with
    | lookahead part' => rw [Option.map_some, Tree.phrase, single rooted present rfl part' fun reached => ih reached part]

end WellFormed

namespace Dressed

variable {place : Nat → Nat} {g' : Grammar} (wellFormed : g.WellFormed) (wellFormed' : g'.WellFormed)
  (dressed : Dressed (fun _ e => ∃ child, e = .undo child) place g g')

include wellFormed wellFormed' dressed

/-- In the place of an expression there is one that says the same. -/
theorem phrase? (rooted : g.Rooted i) : g'.phrase? (place i) = g.phrase? i := by
  obtain ⟨t, shown⟩ := wellFormed.exists_tree? rooted
  obtain ⟨t', shown', same⟩ : ∃ t', g'.tree? (place i) = some t' ∧ t'.phrase g.name = t.phrase g.name := by
    refine dressed.view wellFormed wellFormed' (fun _ layer layer' => layer.phrase_eq layer' fun part => part.2) ?_ rooted
      shown
    rintro i j child _ t body - - ⟨_, rfl⟩ - layer only part
    cases only
    cases layer with
    | undo part' =>
      cases part.symm.trans part'
      rfl
  rw [Grammar.phrase?, shown', Grammar.phrase?, shown, dressed.name, Option.map_some, Option.map_some, same]

theorem outline : g'.outline = g.outline := by
  rw [Grammar.outline, dressed.productions, Array.toList_map, List.filter_map, List.map_map, Grammar.outline]
  apply List.map_congr_left
  intro p member
  obtain ⟨k, found⟩ := List.mem_iff_getElem?.mp (List.mem_filter.mp member).1
  rw [Array.getElem?_toList] at found
  exact congrArg (Prod.mk p.name) (dressed.phrase? wellFormed wellFormed' (rooted_root found))

end Dressed

namespace WellFormed

variable (wellFormed : g.WellFormed)

include wellFormed

section Splice

variable (attached : g.Attached i)

include attached

theorem splice_outline : (g.splice i .undo).2.outline = g.outline :=
  Dressed.outline wellFormed (wellFormed.splice attached rfl)
    ((wellFormed.dressed_of_attached (w := .undo) attached).mono fun inserted => ⟨_, inserted.2⟩)

theorem splice_scopesFilled (inner : ∀ t, g.expr? i ≠ some (.terminal t)) (filled : g.ScopesFilled) :
    (g.splice i .undo).2.ScopesFilled := by
  intro j child present empty
  -- The wrapper is a scope itself, so what was a terminal is one still.
  have before : ∃ t, g.expr? child = some (.terminal t) ∧ t = .nil := by
    obtain ⟨-, same⟩ | ⟨-, e, before, same⟩ := wellFormed.expr?_of_splice attached empty
    · cases same
    · cases e with
      | terminal t => exact ⟨t, before, (Expr.terminal.inj same).symm⟩
      | _ => cases same
  obtain ⟨t, before, rfl⟩ := before
  obtain ⟨-, same⟩ | ⟨-, e, scope, same⟩ := wellFormed.expr?_of_splice attached present
  · cases same
    exact inner _ before
  · cases e with
    | undo child' =>
      obtain rfl : child = g.replaced i child' := Expr.undo.inj same
      have other : child' ≠ i := by
        rintro rfl
        rw [replaced, if_pos rfl] at before
        obtain ⟨node, found, -⟩ := node_of_expr? before
        exact Nat.lt_irrefl _ (Array.getElem?_eq_some_iff.mp found).1
      rw [replaced, if_neg other] at before
      exact filled scope before
    | _ => cases same

end Splice

theorem injectUndo_outline : g.injectUndo.2.outline = g.outline :=
  wellFormed.injectUndo_induction (motive := fun g' => g'.outline = g.outline)
    (fun wellFormed rooted _ same => (wellFormed.splice_outline (wellFormed.attached rooted)).trans same) rfl

theorem injectUndo_scopesFilled (filled : g.ScopesFilled) : g.injectUndo.2.ScopesFilled :=
  wellFormed.injectUndo_induction (motive := ScopesFilled)
    (fun wellFormed rooted inner filled => wellFormed.splice_scopesFilled (wellFormed.attached rooted) inner filled) filled

theorem spelled (filled : g.ScopesFilled) (rooted : g.Rooted i) {t : Tree} (shown : g.tree? i = some t) :
    t.Spelled g.name := by
  refine wellFormed.tree_induction (motive := fun _ t => t.Spelled g.name) ?_ rooted shown
  intro i e t rooted present layer
  refine layer.spelled (fun part => part.2) ?_
  rintro child body rfl ⟨part, -⟩
  have reached := rooted.child present (List.mem_singleton_self _)
  obtain ⟨e, inside⟩ := wellFormed.expr?_rooted reached
  obtain ⟨t, shown, layer⟩ := wellFormed.layer reached inside
  cases part.symm.trans shown
  cases layer with
  | @terminal t =>
    cases t with
    | nil => exact absurd inside (filled present)
    | _ => rfl
  | _ => rfl

end WellFormed

/-- A definition as a line of text. -/
def definitionLine (d : String × Phrase) : List Char := d.1.toList ++ ' ' :: ':' :: ' ' :: (d.2.chars ++ " ;\n".toList)

theorem WellFormed.text_eq {definitions : List (String × Phrase)} (wellFormed : g.WellFormed) (filled : g.ScopesFilled)
    (outlined : g.outline = definitions.map (Prod.map id some)) :
    g.text.toList = definitions.flatMap definitionLine := by
  have lines {ps : List Production} {definitions : List (String × Phrase)}
      (listed : ∀ p ∈ ps, g.productions[p.index]? = some p)
      (outlined : ((ps.filter Production.defined).map fun p => (p.name, g.phrase? p.root)) =
        definitions.map (Prod.map id some)) :
      (ps.filterMap fun p => if p.defined then some (g.productionText p.index ++ "\n") else none).flatMap String.toList =
        definitions.flatMap definitionLine := by
    induction ps generalizing definitions with
    | nil =>
      obtain rfl := List.map_eq_nil_iff.mp outlined.symm
      rfl
    | cons p rest ih =>
      have later := fun q member => listed q (List.mem_cons_of_mem p member)
      cases defined : p.defined with
      | false =>
        rw [List.filter_cons_of_neg (Bool.eq_false_iff.mp defined)] at outlined
        rw [List.filterMap_cons_none (by rw [defined, if_neg Bool.false_ne_true])]
        exact ih later outlined
      | true =>
        rw [List.filter_cons_of_pos defined, List.map_cons] at outlined
        obtain ⟨⟨name, q⟩, others, rfl, same, tail⟩ := List.map_eq_cons_iff.mp outlined.symm
        obtain ⟨rfl, said⟩ := Prod.ext_iff.mp same
        have here := listed p (List.mem_cons_self ..)
        have said : (g.tree? p.root).map (Tree.phrase g.name) = some q := said.symm
        obtain ⟨t, shown, rfl⟩ := Option.map_eq_some_iff.mp said
        have text := (wellFormed.spelled filled (rooted_root here) shown).text
        rw [List.filterMap_cons_some (by rw [defined, if_pos rfl]), List.flatMap_cons, List.flatMap_cons,
          ih later tail.symm]
        simp [productionText, here, exprText, shown, text, definitionLine]
  rw [text, String.toList_join]
  refine lines (fun p member => ?_) outlined
  obtain ⟨k, found⟩ := List.mem_iff_getElem?.mp member
  rw [Array.getElem?_toList] at found
  rw [wellFormed.index found]
  exact found

end Grammar

end Packrat
