import Packrat.Grammar.Render
import Packrat.Proofs.Grammar.Heights
import Packrat.Proofs.Grammar.Rewriting

/-! # Undo scopes have no text

Wherever undo scopes are put into a grammar, also around each other and around nodes that no root leads to, the texts
of its productions and of its expressions stay as they were. An action is the exception: it is written without a text in
its parentheses only if its body is the empty text itself, so that a scope around that body shows.
-/

namespace Packrat

namespace Tree

variable {names : Nat → String} {t t' t'' : Tree} {items items' : List Tree}

/-- Written alike, with parentheses in the same places. -/
structure WrittenAs (names : Nat → String) (t t' : Tree) : Prop where
  text : t'.text names = t.text names
  atom : t'.isAtom = t.isAtom
  choice : t'.isChoice = t.isChoice
  sequence : t'.isSequence = t.isSequence
  lookahead : t'.isLookahead = t.isLookahead

namespace WrittenAs

theorem refl (t : Tree) : WrittenAs names t t := ⟨rfl, rfl, rfl, rfl, rfl⟩

theorem trans (first : WrittenAs names t t') (second : WrittenAs names t' t'') : WrittenAs names t t'' :=
  ⟨second.text.trans first.text, second.atom.trans first.atom, second.choice.trans first.choice,
    second.sequence.trans first.sequence, second.lookahead.trans first.lookahead⟩

/-- A scope looks like its body. -/
theorem undo (id : Nat) (t : Tree) : WrittenAs names t (.undo id t) := ⟨by rw [Tree.text], rfl, rfl, rfl, rfl⟩

end WrittenAs

theorem texts_eq (same : List.Forall₂ (WrittenAs names) items items') (needed : Tree → Bool)
    (kept : ∀ {t t'}, WrittenAs names t t' → needed t' = needed t) :
    texts names needed items' = texts names needed items := by
  induction same with
  | nil => rfl
  | cons head _ ih => rw [texts, texts, kept head, head.text, ih]

/-- Expressions are written alike if their parts are, and an action also if the same one of them is empty. -/
theorem writtenAs_of_layers {branch branch' : Nat → Tree → Prop} {place : Nat → Nat} {i : Nat} {e : Expr}
    (layer : Layer branch i e t) (layer' : Layer branch' i (e.mapChildren place) t')
    (parts : ∀ {child body body'}, child ∈ e.children → branch child body → branch' (place child) body' →
      WrittenAs names body body' ∧ ((∃ name bound, e = .action child name bound) → body'.isNil = body.isNil)) :
    WrittenAs names t t' ∧ t'.isNil = t.isNil := by
  have listed {children : List Nat} (within : ∀ child ∈ children, child ∈ e.children) {items items' : List Tree}
      (shown : List.Forall₂ branch children items) (shown' : List.Forall₂ branch' (children.map place) items') :
      List.Forall₂ (WrittenAs names) items items' := by
    induction shown generalizing items' with
    | nil =>
      cases shown'
      exact .nil
    | cons head _ ih =>
      cases shown' with
      | cons head' rest' =>
        refine .cons (parts (within _ List.mem_cons_self) head head').1 (ih (fun child member => ?_) rest')
        exact within child (List.mem_cons_of_mem _ member)
  cases layer with
  | terminal =>
    cases layer'
    exact ⟨.refl _, rfl⟩
  | reference =>
    cases layer'
    exact ⟨.refl _, rfl⟩
  | action part =>
    cases layer' with
    | action part' =>
      obtain ⟨same, empty⟩ := parts (List.mem_singleton_self _) part part'
      refine ⟨⟨?_, rfl, rfl, rfl, rfl⟩, rfl⟩
      rw [Tree.text, Tree.text, same.text, empty ⟨_, _, rfl⟩]
  | undo part =>
    cases layer' with
    | undo part' =>
      obtain ⟨same, -⟩ := parts (List.mem_singleton_self _) part part'
      refine ⟨⟨?_, same.atom, same.choice, same.sequence, same.lookahead⟩, rfl⟩
      rw [Tree.text, Tree.text, same.text]
  | sequence shown =>
    cases layer' with
    | sequence shown' =>
      refine ⟨⟨?_, rfl, rfl, rfl, rfl⟩, rfl⟩
      rw [Tree.text, Tree.text, texts_eq (listed (fun _ member => member) shown shown')]
      intro t t' same
      rw [same.sequence, same.choice]
  | choice shown =>
    cases layer' with
    | choice shown' =>
      refine ⟨⟨?_, rfl, rfl, rfl, rfl⟩, rfl⟩
      rw [Tree.text, Tree.text, texts_eq (listed (fun _ member => member) shown shown') _ WrittenAs.choice]
  | repetition part =>
    cases layer' with
    | repetition part' =>
      obtain ⟨same, -⟩ := parts (List.mem_singleton_self _) part part'
      refine ⟨⟨?_, rfl, rfl, rfl, rfl⟩, rfl⟩
      rw [Tree.text, Tree.text, same.text, same.atom, same.lookahead]
  | lookahead part =>
    cases layer' with
    | lookahead part' =>
      obtain ⟨same, -⟩ := parts (List.mem_singleton_self _) part part'
      refine ⟨⟨?_, rfl, rfl, rfl, rfl⟩, rfl⟩
      rw [Tree.text, Tree.text, same.text, same.atom]

end Tree

namespace Grammar

variable {g g' : Grammar} {place : Nat → Nat} {i j : Nat} {e : Expr}

/-- The expression is the empty body of an action. -/
def EmptyBody (g : Grammar) (i : Nat) : Prop :=
  g.expr? i = some (.terminal .nil) ∧ ∃ a name bound, g.expr? a = some (.action i name bound)

theorem expr?_of_isNil {t : Tree} (shown : g.tree? i = some t) (empty : t.isNil = true) :
    g.expr? i = some (.terminal .nil) := by
  obtain ⟨e, present, layer⟩ := tree?_eq_some_iff.mp shown
  cases layer with
  | @terminal leaf =>
    cases leaf with
    | nil => exact present
    | _ => cases empty
  | _ => cases empty

/-- Every expression is still where it was, or a scope with nothing else in it has taken its place. -/
structure Enclosed (place : Nat → Nat) (g g' : Grammar) : Prop where
  name : g'.name = g.name
  root? : ∀ index, g'.root? index = (g.root? index).map place
  expr? : ∀ {i e}, g.expr? i = some e → g'.expr? i = some (e.mapChildren place)
  scope : ∀ {i}, place i = i ∨ g'.expr? (place i) = some (.undo i)
  origin : ∀ {i e}, g'.expr? i = some e → (∃ e', g.expr? i = some e' ∧ e = e'.mapChildren place) ∨ ∃ body, e = .undo body
  /-- No scope is put around the empty body of an action. -/
  full : ∀ {i}, g.EmptyBody i → place i = i

namespace Enclosed

variable (enclosed : Enclosed place g g')

include enclosed

/-- The tree that is in the place of a node now. -/
private theorem tree?_place {t : Tree} (shown : g'.tree? i = some t) :
    ∃ t', g'.tree? (place i) = some t' ∧ (t' = t ∨ t' = .undo (place i) t ∧ place i ≠ i) := by
  by_cases still : place i = i
  · exact ⟨t, still.symm ▸ shown, .inl rfl⟩
  · have scope := enclosed.scope.resolve_left still
    exact ⟨_, tree?_eq_some_iff.mpr ⟨_, scope, .undo shown⟩, .inr ⟨rfl, still⟩⟩

/-- A node that has a tree still has one, and is written alike. -/
theorem writtenAs {t : Tree} (shown : g.tree? i = some t) : ∃ t', g'.tree? i = some t' ∧
    t.WrittenAs g.name t' ∧ t'.isNil = t.isNil := by
  refine tree?_induction (motive := fun i t => ∃ t', g'.tree? i = some t' ∧ t.WrittenAs g.name t' ∧ t'.isNil = t.isNil)
    ?_ shown
  intro i e t present layer
  have parts : ∀ child ∈ (e.mapChildren place).children, ∃ body, g'.tree? child = some body := by
    intro child member
    rw [Expr.children_mapChildren, List.mem_map] at member
    obtain ⟨child, member, rfl⟩ := member
    obtain ⟨body, -, body', shown, -⟩ := layer.exists_branch member
    obtain ⟨scope, shown, -⟩ := enclosed.tree?_place shown
    exact ⟨scope, shown⟩
  obtain ⟨t', layer'⟩ := exists_layer i parts
  refine ⟨t', tree?_eq_some_iff.mpr ⟨_, enclosed.expr? present, layer'⟩, ?_⟩
  refine Tree.writtenAs_of_layers layer layer' fun {child body scope} member part shown' => ?_
  obtain ⟨old, body', shown, same, emptied⟩ := part
  obtain ⟨scope', shown'', here⟩ := enclosed.tree?_place shown
  cases shown'.symm.trans shown''
  rcases here with rfl | ⟨rfl, moved⟩
  · exact ⟨same, fun _ => emptied⟩
  · refine ⟨same.trans (.undo _ _), ?_⟩
    rintro ⟨name, bound, rfl⟩
    change false = body.isNil
    cases empty : body.isNil with
    | false => rfl
    | true => exact absurd (enclosed.full ⟨expr?_of_isNil old empty, _, _, _, present⟩) moved

/-- A node that has a tree now had one. -/
private theorem exists_tree?_of (wellFormed : g.WellFormed) {t : Tree} (shown : g'.tree? i = some t)
    (present : g.expr? i = some e) : ∃ t, g.tree? i = some t := by
  refine tree?_induction (motive := fun i _ => ∀ {k e}, (k = i ∨ g'.expr? i = some (.undo k)) → g.expr? k = some e →
    ∃ t, g.tree? k = some t) ?_ shown (.inl rfl) present
  intro i e' t present' layer k e here present
  rcases here with rfl | scope
  · cases (enclosed.expr? present).symm.trans present'
    have parts : ∀ child ∈ e.children, ∃ body, g.tree? child = some body := by
      intro child member
      have placed : place child ∈ (e.mapChildren place).children := by
        rw [Expr.children_mapChildren]
        exact List.mem_map_of_mem member
      obtain ⟨body, -, old⟩ := layer.exists_branch placed
      obtain ⟨e', part⟩ := wellFormed.expr?_child present member
      exact old (enclosed.scope.imp_left Eq.symm) part
    obtain ⟨t, layer⟩ := exists_layer k parts
    exact ⟨t, tree?_eq_some_iff.mpr ⟨e, present, layer⟩⟩
  · cases scope.symm.trans present'
    cases layer with
    | undo part => exact part.2 (.inl rfl) present

theorem exprText_eq (wellFormed : g.WellFormed) (present : g.expr? i = some e) : g'.exprText i = g.exprText i := by
  rw [exprText, exprText, enclosed.name]
  cases shown : g.tree? i with
  | some t =>
    obtain ⟨t', shown', same, -⟩ := enclosed.writtenAs shown
    rw [shown', Option.map_some, same.text, Option.map_some]
  | none =>
    cases shown' : g'.tree? i with
    | none => rfl
    | some t =>
      obtain ⟨t', found⟩ := enclosed.exists_tree?_of wellFormed shown' present
      cases shown.symm.trans found

/-- What is in the place of an expression has its text. -/
theorem exprText_place (i : Nat) : g'.exprText (place i) = g'.exprText i := by
  rcases enclosed.scope (i := i) with still | scope
  · rw [still]
  · rw [exprText, exprText]
    congr 1
    ext text
    simp only [Option.map_eq_some_iff]
    constructor
    · rintro ⟨t, shown, rfl⟩
      obtain ⟨e, present, layer⟩ := tree?_eq_some_iff.mp shown
      cases scope.symm.trans present
      cases layer with
      | undo part => exact ⟨_, part, by rw [Tree.text]⟩
    · rintro ⟨t, shown, rfl⟩
      exact ⟨_, tree?_eq_some_iff.mpr ⟨_, scope, .undo shown⟩, by rw [Tree.text]⟩

theorem productionText_eq (wellFormed : g.WellFormed) (index : Nat) :
    g'.productionText index = g.productionText index := by
  have unfolded (g : Grammar) : g.productionText index =
      (g.root? index).elim "" fun root => g.name index ++ " : " ++ g.exprText root ++ " ;" := by
    rw [productionText, Grammar.root?, Grammar.name]
    cases g.productions[index]? <;> rfl
  rw [unfolded, unfolded, enclosed.root?, enclosed.name]
  cases defined : g.root? index with
  | none => rfl
  | some root =>
    obtain ⟨e, present⟩ := wellFormed.expr?_root defined
    rw [Option.map_some, Option.elim_some, Option.elim_some, enclosed.exprText_place,
      enclosed.exprText_eq wellFormed present]

/-- Only what was the empty body of an action before is one. -/
theorem emptyBody_of (empty : g'.EmptyBody i) : g.EmptyBody i := by
  obtain ⟨leaf, a, name, bound, action⟩ := empty
  obtain ⟨e, present, same⟩ | ⟨body, same⟩ := enclosed.origin leaf
  · cases e with
    | terminal t =>
      cases same
      refine ⟨present, ?_⟩
      obtain ⟨e, present, same⟩ | ⟨body, same⟩ := enclosed.origin action
      · cases e with
        | action child name bound =>
          cases same
          rcases enclosed.scope (i := child) with still | scope
          · rw [still]
            exact ⟨a, name, bound, present⟩
          · cases scope.symm.trans leaf
        | _ => cases same
      · cases same
    | _ => cases same
  · cases same

end Enclosed

/-- Putting one scope in. -/
theorem WellFormed.exists_enclosed (wellFormed : g.WellFormed) (full : ¬ g.EmptyBody i) :
    ∃ place, Enclosed place g (g.splice i Wrapper.undo.around).2 := by
  obtain attached | missing | ⟨node, here, dangling⟩ := splice_cases g i
  · refine ⟨g.replaced i, (wellFormed.dressed_of_attached attached).name, fun _ => wellFormed.splice_root? attached,
      fun {j e} present => ?_, fun {j} => ?_, fun {j e} present => ?_, fun {j} empty => if_neg ?_⟩
    · have small := lt_size_of_expr? present
      rw [wellFormed.splice_expr? attached, if_neg (Nat.ne_of_lt small), present, Option.map_some]
    · unfold replaced
      split
      · next itself =>
        right
        rw [wellFormed.splice_expr? attached, if_pos rfl, itself]
        rfl
      · exact .inl rfl
    · obtain ⟨-, same⟩ | ⟨-, e', before, same⟩ := wellFormed.expr?_of_splice attached present
      · exact .inr ⟨i, same⟩
      · exact .inl ⟨e', before, same⟩
    · rintro rfl
      exact full empty
  · rw [splice_of_missing missing]
    exact ⟨id, rfl, fun _ => (Option.map_id' ..).symm, fun present => by rwa [Expr.mapChildren_id], .inl rfl,
      fun present => .inl ⟨_, present, (Expr.mapChildren_id _).symm⟩, fun _ => rfl⟩
  · rw [splice_of_dangling here dangling]
    refine ⟨id, rfl, fun _ => (Option.map_id' ..).symm, fun {j e} present => ?_, .inl rfl, fun {j e} present => ?_,
      fun _ => rfl⟩
    · rw [expr?, Array.getElem?_push, if_neg (Nat.ne_of_lt (lt_size_of_expr? present)), Expr.mapChildren_id]
      exact present
    · rw [expr?, Array.getElem?_push] at present
      split at present
      · exact .inr ⟨_, (Option.some.inj present).symm⟩
      · exact .inl ⟨e, present, (Expr.mapChildren_id _).symm⟩

/-- Undo scopes have no text: wherever they are put in, but not around the empty body of an action, every production and
every expression is written as before. -/
theorem undo_scopes_unwritten (wellFormed : g.WellFormed) (sites : List Nat) (full : ∀ i ∈ sites, ¬ g.EmptyBody i) :
    (∀ index, (g.splices (sites.map fun i => (i, .undo))).productionText index = g.productionText index) ∧
      ∀ i < g.nodes.size, (g.splices (sites.map fun i => (i, .undo))).exprText i = g.exprText i := by
  induction sites generalizing g with
  | nil => exact ⟨fun _ => rfl, fun _ _ => rfl⟩
  | cons site rest ih =>
    obtain ⟨place, enclosed⟩ := wellFormed.exists_enclosed (full site List.mem_cons_self)
    obtain ⟨productions, expressions⟩ := ih (wellFormed.splice_around site .undo)
      fun i member empty => full i (List.mem_cons_of_mem _ member) (enclosed.emptyBody_of empty)
    refine ⟨fun index => (productions index).trans (enclosed.productionText_eq wellFormed index), fun i small => ?_⟩
    have present := expr?_of_lt small
    have grown := lt_size_of_expr? (enclosed.expr? present)
    exact (expressions i grown).trans (enclosed.exprText_eq wellFormed present)

end Grammar

namespace Sample

/-- `A : ('a' / !'b')* $f('c') ;` -/
def guarded : Grammar where
  productions := #[{ name := "A", index := 0, root := 0, defined := true }]
  nodes := #[
    { expr := .sequence [1, 6], owner := 0 },
    { expr := .repetition 2 0 unbounded, owner := 0, parent := some 0 },
    { expr := .choice [3, 4], owner := 0, parent := some 1 },
    { expr := .terminal (.token "a" true), owner := 0, parent := some 2 },
    { expr := .lookahead 5 .absent, owner := 0, parent := some 2 },
    { expr := .terminal (.token "b" true), owner := 0, parent := some 4 },
    { expr := .action 7 "f" false, owner := 0, parent := some 0 },
    { expr := .terminal (.token "c" true), owner := 0, parent := some 6 }]
  problems := []
  source := none

/-- Two scopes around the choice, a third one between them, and scopes around a root and around the body of an action. -/
theorem guarded_unwritten : guarded.WellFormed ∧ (∀ i ∈ [2, 2, 8, 5, 7, 0], ¬ guarded.EmptyBody i) ∧
    (guarded.splices ([2, 2, 8, 5, 7, 0].map fun i => (i, .undo))).nodes.size = 14 ∧
    guarded.productionText 0 = "A : ('a' / !'b')* $f('c') ;" ∧
    (∀ index, (guarded.splices ([2, 2, 8, 5, 7, 0].map fun i => (i, .undo))).productionText index =
      guarded.productionText index) ∧
    ∀ i < guarded.nodes.size, (guarded.splices ([2, 2, 8, 5, 7, 0].map fun i => (i, .undo))).exprText i =
      guarded.exprText i := by
  have wellFormed : guarded.WellFormed := Grammar.wellFormed_of_linked (by decide)
  have written : ∀ i ∈ [2, 2, 8, 5, 7, 0], guarded.expr? i ≠ some (.terminal .nil) := by decide
  have full : ∀ i ∈ [2, 2, 8, 5, 7, 0], ¬ guarded.EmptyBody i := fun i member empty => written i member empty.1
  exact ⟨wellFormed, full, by decide +kernel, by decide +kernel,
    Grammar.undo_scopes_unwritten wellFormed [2, 2, 8, 5, 7, 0] full⟩

/-- `A : $f() ;` -/
def idleAction : Grammar where
  productions := #[{ name := "A", index := 0, root := 1, defined := true }]
  nodes := #[
    { expr := .terminal .nil, owner := 0, parent := some 1 },
    { expr := .action 0 "f" false, owner := 0 }]
  problems := []
  source := none

/-- A scope around the empty body of an action shows. -/
theorem idle_action_rewritten : idleAction.WellFormed ∧ idleAction.productionText 0 = "A : $f() ;" ∧
    (idleAction.splice 0 Wrapper.undo.around).2.productionText 0 = "A : $f('') ;" :=
  ⟨Grammar.wellFormed_of_linked (by decide), by decide +kernel, by decide +kernel⟩

end Sample

end Packrat
