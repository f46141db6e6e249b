import Packrat.Proofs.Grammar.Rendering
import Packrat.Proofs.Grammar.Rewriting

/-! # Trees and texts of a rewritten grammar

The trees of a rewritten grammar are those that the flags alone give, with nodes put in. Taking these nodes out gives
the trees back. Undo scopes have no text, so a grammar with undo scopes and flags has the text of one with the flags,
and without the signs for the flags it has the text it had at first.
-/

namespace Packrat

namespace Tree

mutual

/-- The tree with the nodes from `bound` on taken out, if these have a single branch. -/
def without (bound : Nat) : Tree → Tree
  | terminal id t => terminal id t
  | reference id target memo => reference id target memo
  | action id name bound' body =>
    if bound ≤ id then body.without bound else action id name bound' (body.without bound)
  | undo id body => if bound ≤ id then body.without bound else undo id (body.without bound)
  | sequence id items => sequence id (allWithout bound items)
  | choice id items => choice id (allWithout bound items)
  | repetition id min max body =>
    if bound ≤ id then body.without bound else repetition id min max (body.without bound)
  | lookahead id sign body =>
    if bound ≤ id then body.without bound else lookahead id sign (body.without bound)

def allWithout (bound : Nat) : List Tree → List Tree
  | [] => []
  | t :: rest => t.without bound :: allWithout bound rest

end

variable {branch branch' : Nat → Tree → Prop} {i j bound : Nat} {e e' : Expr} {t t' : Tree} {f : Nat → Nat}

theorem Layer.without_eq (layer : Layer branch i e t) (layer' : Layer branch' i (e.mapChildren f) t') (old : i < bound)
    (same : ∀ {child body body'}, branch child body → branch' (f child) body' → body'.without bound = body) :
    t'.without bound = t := by
  have stays : ¬ bound ≤ i := Nat.not_le_of_lt old
  have items {children : List Nat} {items items' : List Tree} (parts : List.Forall₂ branch children items)
      (parts' : List.Forall₂ branch' (children.map f) items') : allWithout bound items' = items := by
    induction parts generalizing items' with
    | nil =>
      cases parts'
      rfl
    | cons head _ ih =>
      cases parts' with
      | cons head' tail' => rw [allWithout, same head head', ih tail']
  cases layer with
  | terminal =>
    cases layer'
    rfl
  | reference =>
    cases layer'
    rfl
  | action part =>
    cases layer' with
    | action part' => rw [without, if_neg stays, same part part']
  | undo part =>
    cases layer' with
    | undo part' => rw [without, if_neg stays, same part part']
  | sequence parts =>
    cases layer' with
    | sequence parts' => rw [without, items parts parts']
  | choice parts =>
    cases layer' with
    | choice parts' => rw [without, items parts parts']
  | repetition part =>
    cases layer' with
    | repetition part' => rw [without, if_neg stays, same part part']
  | lookahead part =>
    cases layer' with
    | lookahead part' => rw [without, if_neg stays, same part part']

/-- A node that is put in is taken out. -/
theorem Layer.without_around {w : Wrapper} (layer : Layer branch j (w.around i) t) (new : bound ≤ j) :
    ∃ body, branch i body ∧ t.without bound = body.without bound := by
  cases w with
  | action =>
    cases layer with
    | action part => exact ⟨_, part, by rw [without, if_pos new]⟩
  | undo =>
    cases layer with
    | undo part => exact ⟨_, part, by rw [without, if_pos new]⟩
  | repetition =>
    cases layer with
    | repetition part => exact ⟨_, part, by rw [without, if_pos new]⟩
  | lookahead =>
    cases layer with
    | lookahead part => exact ⟨_, part, by rw [without, if_pos new]⟩

end Tree

/-- Some of the characters of a text, and what decides on parentheses around it. -/
structure Wording where
  chars : List Char
  isNil : Bool := false
  isAtom : Bool := false
  isChoice : Bool := false
  isSequence : Bool := false
  isLookahead : Bool := false

/-- What is kept of the text in parentheses, if they are needed. -/
def Wording.grouped (keep : Char → Bool) (needed : Bool) (w : Wording) : List Char :=
  if needed then ['('].filter keep ++ w.chars ++ [')'].filter keep else w.chars

namespace Tree

variable {branch branch' : Nat → Tree → Prop} {i j : Nat} {e e' : Expr} {t t' body : Tree} {items : List Tree}
  {f : Nat → Nat} {keep : Char → Bool} {names : Nat → String}

def wording (keep : Char → Bool) (names : Nat → String) (t : Tree) : Wording where
  chars := (t.text names).toList.filter keep
  isNil := t.isNil
  isAtom := t.isAtom
  isChoice := t.isChoice
  isSequence := t.isSequence
  isLookahead := t.isLookahead

theorem filter_grouped (needed : Bool) (t : Tree) :
    (grouped needed (t.text names)).toList.filter keep = (t.wording keep names).grouped keep needed := by
  cases needed with
  | true => simp only [grouped, Wording.grouped, if_true, String.toList_append, List.filter_append]; rfl
  | false => rfl

private theorem filter_intercalate (keep : Char → Bool) (separator : List Char) (parts : List (List Char)) :
    (separator.intercalate parts).filter keep = (separator.filter keep).intercalate (parts.map (List.filter keep)) := by
  induction parts with
  | nil => rfl
  | cons first rest ih =>
    cases rest with
    | nil => simp [List.intercalate]
    | cons second rest =>
      simp only [List.intercalate, List.intersperse_cons_cons, List.flatten_cons, List.filter_append, List.map_cons] at *
      rw [ih]

/-- Texts with separators are worded from the wordings, if these tell which texts need parentheses. -/
theorem filter_texts {separator : String} (needed : Tree → Bool) (decides : Wording → Bool)
    (told : ∀ t, needed t = decides (t.wording keep names)) :
    (separator.intercalate (texts names needed items)).toList.filter keep = (separator.toList.filter keep).intercalate
      ((items.map (wording keep names)).map fun w => w.grouped keep (decides w)) := by
  rw [String.toList_intercalate, filter_intercalate, texts_eq_map, List.map_map, List.map_map, List.map_map]
  congr 1
  apply List.map_congr_left
  intro t _
  simp only [Function.comp_apply, filter_grouped, told]

theorem wording_action {name : String} {bound : Bool} : (action i name bound body).wording keep names =
    { chars := ("$" ++ name ++ "(").toList.filter keep ++
        (if (body.wording keep names).isNil then [] else (body.wording keep names).chars) ++ [')'].filter keep
      isAtom := true } := by
  have chars : ((action i name bound body).text names).toList.filter keep = ("$" ++ name ++ "(").toList.filter keep ++
      (if body.isNil then [] else (body.text names).toList.filter keep) ++ [')'].filter keep := by
    rw [text, String.toList_append, String.toList_append, List.filter_append, List.filter_append]
    cases body.isNil <;> rfl
  rw [wording, chars]
  rfl

theorem wording_undo : (undo i body).wording keep names = { body.wording keep names with isNil := false } := rfl

theorem wording_sequence : (sequence i items).wording keep names =
    { chars := (" ".toList.filter keep).intercalate ((items.map (wording keep names)).map fun w =>
        w.grouped keep (w.isSequence || w.isChoice))
      isSequence := true } := by
  rw [← filter_texts (fun t => t.isSequence || t.isChoice) (fun w => w.isSequence || w.isChoice) fun _ => rfl]
  rfl

theorem wording_choice : (choice i items).wording keep names =
    { chars := (" / ".toList.filter keep).intercalate ((items.map (wording keep names)).map fun w =>
        w.grouped keep w.isChoice)
      isChoice := true } := by
  rw [← filter_texts isChoice Wording.isChoice fun _ => rfl]
  rfl

theorem wording_repetition {min max : Nat} : (repetition i min max body).wording keep names =
    { chars := (body.wording keep names).grouped keep
        (!(body.wording keep names).isAtom && !(body.wording keep names).isLookahead) ++
          (boundsText min max).toList.filter keep } := by
  rw [wording, text, String.toList_append, List.filter_append, filter_grouped]
  rfl

theorem wording_lookahead {sign : Lookahead} : (lookahead i sign body).wording keep names =
    { chars := sign.symbol.toList.filter keep ++
        (body.wording keep names).grouped keep (!(body.wording keep names).isAtom)
      isLookahead := true } := by
  rw [wording, text, String.toList_append, List.filter_append, filter_grouped]
  rfl

/-- The same operator over parts of the same wording has the same wording, and so have references whose flags differ if
the sign of the flag is not kept. -/
theorem Layer.wording_eq (layer : Layer branch i e t) (layer' : Layer branch' j e' t')
    (similar : e' = e.mapChildren f ∨
      keep '@' = false ∧ ∃ target memo memo', e = .reference target memo ∧ e' = .reference target memo')
    (same : ∀ {child body body'}, branch child body → branch' (f child) body' →
      body'.wording keep names = body.wording keep names) :
    t'.wording keep names = t.wording keep names := by
  have parts {children : List Nat} {items items' : List Tree} (parts : List.Forall₂ branch children items)
      (parts' : List.Forall₂ branch' (children.map f) items') :
      items'.map (wording keep names) = items.map (wording keep names) := by
    induction parts generalizing items' with
    | nil =>
      cases parts'
      rfl
    | cons head _ ih =>
      cases parts' with
      | cons head' tail' => rw [List.map_cons, List.map_cons, same head head', ih tail']
  obtain rfl | ⟨hidden, target, memo, memo', rfl, rfl⟩ := similar
  · cases layer with
    | @terminal t =>
      cases layer'
      cases t <;> rfl
    | reference =>
      cases layer'
      rfl
    | action part =>
      cases layer' with
      | action part' => rw [wording_action, wording_action, same part part']
    | undo part =>
      cases layer' with
      | undo part' => rw [wording_undo, wording_undo, same part part']
    | sequence branches =>
      cases layer' with
      | sequence branches' => rw [wording_sequence, wording_sequence, parts branches branches']
    | choice branches =>
      cases layer' with
      | choice branches' => rw [wording_choice, wording_choice, parts branches branches']
    | repetition part =>
      cases layer' with
      | repetition part' => rw [wording_repetition, wording_repetition, same part part']
    | lookahead part =>
      cases layer' with
      | lookahead part' => rw [wording_lookahead, wording_lookahead, same part part']
  · cases layer
    cases layer'
    have unsigned (memo : Bool) : ((if memo then "@" else "") ++ names target).toList.filter keep =
        (names target).toList.filter keep := by
      cases memo <;> simp [hidden]
    rw [wording, wording, text, text, unsigned, unsigned]
    rfl

end Tree

namespace Grammar

variable {g g' : Grammar} {i : Nat} {t : Tree} {keep : Char → Bool} {place : Nat → Nat} {put : Nat → Expr → Prop}
  {bound : Nat}

/-- A grammar without the nodes put in has the trees it had. -/
theorem Dressed.without (wellFormed : g.WellFormed) (wellFormed' : g'.WellFormed) (dressed : Dressed put place g g')
    (new : ∀ {j e}, put j e → g.nodes.size ≤ j ∧ ∃ (w : Wrapper) (child : Nat), e = w.around child) :
    g'.rootTrees.map (Option.map (Tree.without g.nodes.size)) = g.rootTrees := by
  apply List.ext_getElem?
  intro index
  rw [List.getElem?_map, rootTrees_getElem?, rootTrees_getElem?, dressed.root?]
  cases defined : g.root? index with
  | none => rfl
  | some root =>
    obtain ⟨t, shown⟩ := wellFormed.exists_tree? (.root defined)
    obtain ⟨t', shown', same⟩ : ∃ t', g'.tree? (place root) = some t' ∧ t'.without g.nodes.size = id t := by
      refine dressed.view wellFormed wellFormed' ?_ ?_ (.root defined) shown
      · intro i e t t' rooted layer layer'
        exact layer.without_eq layer' (wellFormed.lt_size rooted) fun part => part.2
      · intro i j child e t body _ _ inserted _ layer only part
        obtain ⟨late, w, child', rfl⟩ := new inserted
        rw [Wrapper.children_around, List.singleton_inj] at only
        subst only
        obtain ⟨body', part', same⟩ := layer.without_around late
        cases part.symm.trans part'
        exact same
    simp only [Option.map_some, shown', shown, same, id]

/-- The text of a grammar is made from the wordings of its trees. -/
theorem filter_text (wellFormed : g.WellFormed)
    (productions : g'.productions.map (fun p => { p with root := 0 }) = g.productions.map fun p => { p with root := 0 })
    (same : ∀ {index root root'}, g.root? index = some root → g'.root? index = some root' →
      (g'.tree? root').map (Tree.wording keep g'.name) = (g.tree? root).map (Tree.wording keep g.name)) :
    g'.text.toList.filter keep = g.text.toList.filter keep := by
  have each (g : Grammar) (ps : List Production) : ((ps.filterMap fun p =>
      if p.defined then some (g.productionText p.index ++ "\n") else none).flatMap String.toList).filter keep =
      ps.flatMap fun p => if p.defined then (g.productionText p.index ++ "\n").toList.filter keep else [] := by
    induction ps with
    | nil => rfl
    | cons p rest ih =>
      rw [List.flatMap_cons, ← ih]
      cases defined : p.defined with
      | false =>
        rw [List.filterMap_cons_none (by rw [defined, if_neg Bool.false_ne_true]), if_neg Bool.false_ne_true]
        rfl
      | true =>
        rw [List.filterMap_cons_some (by rw [defined, if_pos rfl]), List.flatMap_cons, List.filter_append, if_pos rfl]
  have lines (g : Grammar) : g.text.toList.filter keep = (g.productions.map fun p => { p with root := 0 }).toList.flatMap
      fun p => if p.defined then (g.productionText p.index ++ "\n").toList.filter keep else [] := by
    rw [text, String.toList_join, each, Array.toList_map, List.flatMap_map]
  rw [lines, lines, productions]
  apply List.flatMap_congr
  intro p listed
  rw [Array.toList_map, List.mem_map] at listed
  obtain ⟨p, listed, rfl⟩ := listed
  obtain ⟨index, here⟩ := List.mem_iff_getElem?.mp listed
  rw [Array.getElem?_toList] at here
  obtain rfl := wellFormed.index here
  have rows := congrArg (·[p.index]?) productions
  simp only [Array.getElem?_map, here, Option.map_some] at rows
  obtain ⟨p', here', alike⟩ := Option.map_eq_some_iff.mp rows
  have name : p'.name = p.name := (Production.mk.inj alike).1
  have told := same (congrArg (Option.map Production.root) here) (congrArg (Option.map Production.root) here')
  have said : (g'.exprText p'.root).toList.filter keep = (g.exprText p.root).toList.filter keep := by
    rw [exprText, exprText]
    cases shown : g.tree? p.root with
    | none =>
      rw [shown, Option.map_none, Option.map_eq_none_iff] at told
      rw [told]
      rfl
    | some t =>
      rw [shown, Option.map_some, Option.map_eq_some_iff] at told
      obtain ⟨t', shown', wording⟩ := told
      have chars := congrArg Wording.chars wording
      rw [shown']
      exact chars
  have line : (g'.productionText p.index).toList.filter keep = (g.productionText p.index).toList.filter keep := by
    simp only [productionText, here, here', String.toList_append, List.filter_append, said, name]
  simp only [String.toList_append, List.filter_append, line]

/-- The empty text is a terminal. -/
theorem isNil_eq_false {e : Expr} (present : g.expr? i = some e) (inner : ∀ t, e ≠ .terminal t)
    (shown : g.tree? i = some t) : t.isNil = false := by
  obtain ⟨depth, room⟩ : ∃ depth, g.nodes.size = depth + 1 :=
    Nat.exists_eq_add_one_of_ne_zero (Nat.ne_of_gt (Nat.zero_lt_of_lt (lt_size_of_expr? present)))
  rw [tree?, room] at shown
  obtain ⟨e', present', layer⟩ := unfold_succ_eq_some.mp shown
  cases present.symm.trans present'
  cases layer with
  | terminal => exact absurd rfl (inner _)
  | _ => rfl

/-- Undo scopes around other than terminals do not show in the text. -/
theorem Dressed.text (wellFormed : g.WellFormed) (wellFormed' : g'.WellFormed) (dressed : Dressed put place g g')
    (undo : ∀ {j e}, put j e → ∃ child, e = .undo child)
    (inner : ∀ {i}, g.Rooted i → place i ≠ i → ∀ t, g.expr? i ≠ some (.terminal t)) : g'.text = g.text := by
  have kept : g'.text.toList.filter (fun _ => true) = g.text.toList.filter (fun _ => true) := by
    apply filter_text wellFormed
    · rw [dressed.productions, Array.map_map]
      rfl
    · intro index root root' defined defined'
      rw [dressed.root?, defined] at defined'
      cases defined'
      obtain ⟨t, shown⟩ := wellFormed.exists_tree? (.root defined)
      obtain ⟨t', shown', same⟩ : ∃ t', g'.tree? (place root) = some t' ∧
          t'.wording (fun _ => true) g.name = t.wording (fun _ => true) g.name := by
        refine dressed.view wellFormed wellFormed' ?_ ?_ (.root defined) shown
        · intro i e t t' _ layer layer'
          exact layer.wording_eq layer' (.inl rfl) fun part => part.2
        · intro i j child e t body moved rooted inserted leads layer only part
          obtain ⟨_, rfl⟩ := undo inserted
          cases only
          cases layer with
          | undo part' =>
            cases part.symm.trans part'
            -- What is right inside is another scope or the node itself, and that one is no terminal.
            have visible : body.isNil = false := by
              cases leads with
              | here =>
                obtain ⟨e, present⟩ := wellFormed.expr?_rooted rooted
                refine isNil_eq_false (dressed.inner rooted present) (fun t terminal => ?_) part
                cases e with
                | terminal t => exact inner rooted moved t present
                | _ => cases terminal
              | down present inserted =>
                obtain ⟨_, rfl⟩ := undo inserted
                exact isNil_eq_false present nofun part
            rw [Tree.wording_undo, Tree.wording, visible]
      rw [dressed.name, shown, shown', Option.map_some, Option.map_some, same]
  rwa [List.filter_true, List.filter_true, String.toList_inj] at kept

/-- Without the signs for the flags, grammars that differ in memo flags have the same text. -/
theorem SameButMemo.text (same : g.SameButMemo g') (wellFormed : g.WellFormed) :
    g'.text.toList.filter (· ≠ '@') = g.text.toList.filter (· ≠ '@') := by
  have names : g'.name = g.name := by
    funext index
    rw [name, same.productions, name]
  apply filter_text wellFormed
  · rw [same.productions]
  · intro index root root' defined defined'
    cases defined'.symm.trans (same.root?.trans defined)
    obtain ⟨t, shown⟩ := wellFormed.exists_tree? (.root defined)
    obtain ⟨t', shown', told⟩ : ∃ t', g'.tree? root = some t' ∧
        t'.wording (· ≠ '@') g.name = t.wording (· ≠ '@') g.name := by
      refine wellFormed.tree_induction (motive := fun i t => ∃ t', g'.tree? i = some t' ∧
        t'.wording (· ≠ '@') g.name = t.wording (· ≠ '@') g.name) ?_ (.root defined) shown
      intro i e t rooted present layer
      obtain ⟨e', present', plain⟩ := same.symm.expr? present
      obtain ⟨t', shown', layer'⟩ := (same.wellFormed wellFormed).layer (same.symm.rooted rooted) present'
      refine ⟨t', shown', layer.wording_eq (f := id) layer' ?_ ?_⟩
      · cases e with
        | reference target memo =>
          obtain ⟨memo', rfl⟩ := Expr.plain_reference plain
          exact .inr ⟨rfl, target, memo, memo', rfl, rfl⟩
        | _ =>
          refine .inl ((Expr.eq_of_plain plain ?_).trans (Expr.mapChildren_id _).symm)
          rintro _ _ ⟨⟩
      · rintro child body body' ⟨-, body'', part, told⟩ part'
        cases part'.symm.trans part
        exact told
    rw [names, shown, shown', Option.map_some, Option.map_some, told]

/-- What becomes of a grammar, beside what the flags alone make of it. In a quiet rewriting all nodes put in are undo
scopes, and none of them is around a terminal. -/
structure Rewritten (quiet : Prop) (bound : Nat) (g g' : Grammar) : Prop where
  beside : g.WellFormed
  wellFormed : g'.WellFormed
  room : bound ≤ g'.nodes.size
  dressed : ∃ place, (∀ {i}, quiet → g.Rooted i → place i ≠ i → ∀ t, g.expr? i ≠ some (.terminal t)) ∧
    Dressed (fun j e => bound ≤ j ∧ ∃ (w : Wrapper) (child : Nat), e = w.around child ∧ (quiet → w = .undo)) place g g'

namespace Rewritten

variable {quiet : Prop} {mark : Nat → Option Bool} {h h' : Grammar} {sites : List (Nat × Wrapper)}

theorem refl (quiet : Prop) (wellFormed : g.WellFormed) : Rewritten quiet g.nodes.size g g :=
  ⟨wellFormed, wellFormed, Nat.le_refl _, id, fun _ _ moved => absurd rfl moved, .refl _ g⟩

theorem splices (rewritten : Rewritten quiet bound g g')
    (silent : quiet → ∀ site ∈ sites, site.2 = .undo ∧ ∀ t, g'.expr? site.1 ≠ some (.terminal t)) :
    Rewritten quiet bound g (g'.splices sites) := by
  obtain ⟨beside, wellFormed, room, place, inner, dressed⟩ := rewritten
  obtain ⟨wellFormed', outgrows, -, place', moved, dressed'⟩ := wellFormed.splices sites
  refine ⟨beside, wellFormed', Nat.le_trans room outgrows.size_le, place' ∘ place, ?_, ?_⟩
  · intro i isQuiet rooted changed t present
    by_cases first : place i = i
    · rw [Function.comp_apply, first] at changed
      obtain ⟨site, member, rfl⟩ := moved i changed
      exact (silent isQuiet site member).2 t (dressed.inner rooted present)
    · exact inner isQuiet rooted first t present
  · refine dressed.trans ?_ (dressed'.mono ?_)
    · rintro j e f ⟨late, w, child, rfl, undo⟩
      exact ⟨late, w, f child, Wrapper.mapChildren_around .., undo⟩
    · rintro j e ⟨late, site, member, child, rfl⟩
      exact ⟨Nat.le_trans room late, site.2, child, rfl, fun isQuiet => (silent isQuiet site member).1⟩

theorem flags (rewritten : Rewritten quiet bound g g') (flags : Flags mark g h) (flags' : Flags mark g' h') :
    Rewritten quiet bound h h' := by
  obtain ⟨beside, wellFormed, room, place, inner, dressed⟩ := rewritten
  refine ⟨flags.sameButMemo.wellFormed beside, flags'.sameButMemo.wellFormed wellFormed,
    Nat.le_trans room flags'.sameButMemo.outgrows.size_le, place, ?_, dressed.flags flags flags'⟩
  intro i isQuiet rooted moved t present
  rw [flags.expr?] at present
  obtain ⟨e, before, terminal⟩ := Option.map_eq_some_iff.mp present
  obtain rfl := Expr.terminal_of_marked terminal
  exact inner isQuiet (flags.sameButMemo.rooted rooted) moved t before

end Rewritten

variable {step : Rewriting} {steps : List Rewriting}

/-- The flags alone that a rewriting sets. -/
def flagged (g : Grammar) (steps : List Rewriting) : Grammar := g.rewrite (steps.filter Rewriting.flagsOnly)

/-- One step of a rewriting, beside the flags it sets. -/
theorem Rewritten.apply {quiet : Prop} (rewritten : Rewritten quiet bound g g')
    (bounded : quiet → ∀ i w, step ≠ .splice i w) :
    Rewritten quiet bound (if step.flagsOnly then step.apply g else g) (step.apply g') ∧ g'.Outgrows (step.apply g') ∧
      (g'.Parented → (step.apply g').Parented) := by
  cases step with
  | injectUndo =>
    obtain ⟨-, outgrows, parented, -⟩ := rewritten.wellFormed.splices (g'.undoSites.map fun i => (i, .undo))
    have spliced : Rewriting.injectUndo.apply g' = g'.splices (g'.undoSites.map fun i => (i, .undo)) := injectUndo_eq g'
    rw [spliced]
    refine ⟨rewritten.splices fun _ site member => ?_, outgrows, parented⟩
    obtain ⟨i, listed, rfl⟩ := List.mem_map.mp member
    exact ⟨rfl, (rewritten.wellFormed.rooted_of_mem_sites listed).2⟩
  | injectMemo =>
    have same := sameButMemo_injectMemo g'
    exact ⟨rewritten.flags (flags_injectMemo g) (flags_injectMemo g'), same.outgrows, same.parented⟩
  | setMemo i memo =>
    have same := sameButMemo_setMemo g' i memo
    exact ⟨rewritten.flags (flags_setMemo g i memo) (flags_setMemo g' i memo), same.outgrows, same.parented⟩
  | splice i w =>
    obtain ⟨-, outgrows, parented, -⟩ := rewritten.wellFormed.splices [(i, w)]
    have spliced : Rewritten quiet bound g (g'.splices [(i, w)]) := rewritten.splices fun isQuiet =>
      absurd rfl (bounded isQuiet i w)
    exact ⟨spliced, outgrows, parented⟩

theorem Rewritten.rewrite {quiet : Prop} (rewritten : Rewritten quiet bound g g')
    (bounded : quiet → ∀ i w, .splice i w ∉ steps) :
    Rewritten quiet bound (g.flagged steps) (g'.rewrite steps) ∧ g'.Outgrows (g'.rewrite steps) ∧
      (g'.Parented → (g'.rewrite steps).Parented) := by
  induction steps generalizing g g' with
  | nil => exact ⟨rewritten, .refl g', id⟩
  | cons step rest ih =>
    have first : quiet → ∀ i w, step ≠ .splice i w := fun isQuiet i w same =>
      bounded isQuiet i w (same ▸ List.mem_cons_self ..)
    obtain ⟨next, outgrows, parented⟩ := rewritten.apply first
    obtain ⟨final, outgrows', parented'⟩ := ih next fun isQuiet i w member =>
      bounded isQuiet i w (List.mem_cons_of_mem _ member)
    refine ⟨?_, outgrows.trans outgrows', fun before => parented' (parented before)⟩
    have flags : g.flagged (step :: rest) = (if step.flagsOnly then step.apply g else g).flagged rest := by
      rw [Grammar.flagged, List.filter_cons]
      cases step.flagsOnly <;> rfl
    rw [flags]
    exact final

theorem sameButMemo_flagged (g : Grammar) (steps : List Rewriting) : g.SameButMemo (g.flagged steps) := by
  induction steps generalizing g with
  | nil => exact rfl
  | cons step rest ih =>
    cases step with
    | injectUndo => exact ih g
    | injectMemo => exact (sameButMemo_injectMemo g).trans (ih _)
    | setMemo i memo => exact (sameButMemo_setMemo g i memo).trans (ih _)
    | splice i w => exact ih g

/-- However a grammar is rewritten, it stays well formed, and links upwards stay true to links downwards. Every node is
where it was, with its owner, its span and its operator. Back-links stay exact. Taking out the nodes put in gives the
trees that the flags alone give. Unless a node was put around another by hand, the text is that of the flags alone, and
without their signs it is what it was. -/
theorem rewrite_intact (wellFormed : g.WellFormed) (steps : List Rewriting) :
    (g.rewrite steps).WellFormed ∧ (g.Parented → (g.rewrite steps).Parented) ∧
      (∀ {i : Nat} {node : Node}, g.nodes[i]? = some node →
        ∃ node', (g.rewrite steps).nodes[i]? = some node' ∧ node.Resembles node') ∧
      (g.Backlinked → (g.rewrite steps).Backlinked) ∧
      ((g.rewrite steps).rootTrees.map (Option.map (Tree.without g.nodes.size)) = (g.flagged steps).rootTrees ∧
        g.SameButMemo (g.flagged steps)) ∧
      ((∀ i w, .splice i w ∉ steps) → (g.rewrite steps).text = (g.flagged steps).text ∧
        (g.rewrite steps).text.toList.filter (· ≠ '@') = g.text.toList.filter (· ≠ '@')) := by
  have flags := sameButMemo_flagged g steps
  obtain ⟨rewritten, outgrows, parented⟩ := (Rewritten.refl (∀ i w, .splice i w ∉ steps) wellFormed).rewrite id
  obtain ⟨beside, wellFormed', room, place, inner, dressed⟩ := rewritten
  refine ⟨wellFormed', parented, outgrows.earlier, outgrows.backlinked, ⟨?_, flags⟩, fun quiet => ?_⟩
  · have size : (g.flagged steps).nodes.size = g.nodes.size :=
      Nat.le_antisymm flags.symm.outgrows.size_le flags.outgrows.size_le
    rw [← size] at dressed ⊢
    exact dressed.without beside wellFormed' fun ⟨late, w, child, same, _⟩ => ⟨late, w, child, same⟩
  · have text : (g.rewrite steps).text = (g.flagged steps).text := by
      refine dressed.text beside wellFormed' ?_ fun rooted moved => inner quiet rooted moved
      rintro j e ⟨-, w, child, rfl, undo⟩
      rw [undo quiet]
      exact ⟨child, rfl⟩
    exact ⟨text, text ▸ flags.text wellFormed⟩

end Grammar

namespace Sample

/-- `note : word $mark(word) !word; word : .;` -/
def note : Grammar := .assemble
  #[{ name := "note", index := 0, root := 5, defined := true }, { name := "word", index := 1, root := 6, defined := true }]
  #[{ expr := .reference 1 false, owner := 0, parent := some 5 },
    { expr := .reference 1 true, owner := 0, parent := some 2 },
    { expr := .action 1 "mark" true, owner := 0, parent := some 5 },
    { expr := .reference 1 false, owner := 0, parent := some 4 },
    { expr := .lookahead 3 .absent, owner := 0, parent := some 5 },
    { expr := .sequence [0, 2, 4], owner := 0 },
    { expr := .terminal .any, owner := 1 }] none

theorem note_rewritten : note.WellFormed ∧ note.Backlinked ∧
    (note.rewrite [.injectUndo, .setMemo 0 true, .splice 2 (.repetition 0 1), .injectMemo]).Backlinked ∧
    (note.rewrite [.injectUndo, .injectMemo]).text.toList.filter (· ≠ '@') = note.text.toList.filter (· ≠ '@') := by
  have wellFormed : note.WellFormed := Grammar.wellFormed_of_linked (by decide)
  have backlinked : note.Backlinked := Grammar.assemble_backlinked ..
  refine ⟨wellFormed, backlinked, (Grammar.rewrite_intact wellFormed _).2.2.2.1 backlinked, ?_⟩
  apply ((Grammar.rewrite_intact wellFormed [.injectUndo, .injectMemo]).2.2.2.2.2 _).2
  intro i w
  simp

end Sample

end Packrat
