import Packrat.Proofs.Builder.Build
import Packrat.Proofs.Builder.Phrases
import Packrat.Proofs.Grammar.Outline

/-! # What a built grammar says

Building keeps what a builder holds: expressions stay what they are, references lead to productions of the same name in
their new places, and the definitions come first, in the order they were made. So the outline of a built grammar is that
of its builder.
-/

namespace Packrat

namespace Builder

variable {b b' : Builder} {definitions : List (String × Phrase)}

/-- `b'` is `b` with right-hand sides for some productions that have no definition. -/
structure Completes (b b' : Builder) : Prop where
  embeds : b.arena.Embeds b'.arena
  names : ∀ id, b'.arena.name? id = b.arena.name? id
  defines : ∀ {id root}, Defines b'.productions id root ↔ Defines b.productions id root
  exprs : ∀ {i e}, b'.arena.expr? i = some e → b.arena.expr? i = some e ∨ e = .terminal .nil

theorem Completes.refl (b : Builder) : Completes b b := ⟨.refl _, fun _ => rfl, Iff.rfl, .inl⟩

theorem Completes.fill (before : Completes b b') (id : Nat) : Completes b (b'.fill id) := by
  unfold Builder.fill
  split
  · exact before
  · next free =>
    have grown {i : Nat} {e : Expr} : ({ b' with nodes := b'.nodes.push ⟨.terminal .nil, id, none, none⟩ } : Builder).arena.expr? i
        = some e ↔ if i = b'.nodes.size then e = .terminal .nil else b'.arena.expr? i = some e := by
      simp only [arena, Array.getElem?_push]
      split
      · simp [eq_comm]
      · rfl
    have named (k : Nat) : (b'.productions.modify id fun p => { p with root := b'.nodes.size })[k]?.map Production.name =
        b'.productions[k]?.map Production.name := by
      rw [Array.getElem?_modify]
      split
      · rw [Option.map_map]
        rfl
      · rfl
    refine ⟨before.embeds.trans (.of_grown (fun {i e} present => ?_) fun {k name} known => ?_), ?_, ?_, ?_⟩
    · exact grown.mpr (by rw [if_neg (Nat.ne_of_lt (lt_of_expr? present))]; exact present)
    · exact (named k).trans known
    · exact fun k => (named k).trans (before.names k)
    · intro k root
      change Defines (b'.productions.modify id _) k root ↔ _
      rw [← before.defines, defines_modify]
      split
      · next itself =>
        subst itself
        constructor
        · rintro ⟨p, found, defined, -⟩
          exact absurd (isDefined_iff.mpr ⟨p.root, p, found, defined, rfl⟩) free
        · intro defines
          exact absurd (isDefined_iff.mpr ⟨root, defines⟩) free
      · rfl
    · intro i e present
      have present := grown.mp present
      split at present
      · exact .inr present
      · exact before.exprs present

theorem completes_fillUndefined (b : Builder) : Completes b b.fillUndefined :=
  fillUndefined_induction (motive := fun b' _ => Completes b b') (fun _ _ before => before.fill _) (.refl b)

theorem assembled_expr? (b : Builder) (i : Nat) : b.assembled.expr? i =
    b.fillUndefined.nodes[i]?.map fun node => (renumber b.finalOrder.idxOf node).expr := by
  rw [Grammar.expr?, assembled_nodes, Option.map_map]
  rfl

theorem Sound.embeds_assembled (sound : b.Sound) : b.fillUndefined.arena.Embeds b.assembled.arena where
  expr {i e} plain present := by
    obtain ⟨node, found, rfl⟩ := Option.map_eq_some_iff.mp present
    change b.assembled.expr? i = _
    rw [assembled_expr?, found, Option.map_some, renumber]
    split
    · next target memo same => exact absurd same (plain target memo)
    · rfl
  reference {i target memo name} present named := by
    obtain ⟨node, found, same⟩ := Option.map_eq_some_iff.mp present
    obtain ⟨p, there, rfl⟩ := Option.map_eq_some_iff.mp named
    have inside := (Array.getElem?_eq_some_iff.mp there).1
    rw [size_fillUndefined] at inside
    refine ⟨b.finalOrder.idxOf target, ?_, ?_⟩
    · change b.assembled.expr? i = _
      rw [assembled_expr?, found, Option.map_some, renumber, same]
    · change b.assembled.productions[_]?.map _ = _
      rw [sound.assembled_productions, List.getElem?_idxOf (sound.mem_finalOrder.mpr inside), Option.bind_some, there]
      rfl

/-- The production of the grammar that a production of the builder becomes. -/
def Becomes (b : Builder) (id : Nat) (p : Production) : Prop :=
  (∃ k : Nat, b.assembled.productions[k]? = some p) ∧ b.arena.name? id = some p.name ∧ b.isDefined id = p.defined ∧
    ∀ {root}, Defines b.productions id root → p.root = root

private theorem forall₂_of_getElem? {α β : Type} {R : α → β → Prop} {xs : List α} {ys : List β}
    (each : ∀ k : Nat, Option.Rel R xs[k]? ys[k]?) : List.Forall₂ R xs ys := by
  induction xs generalizing ys with
  | nil =>
    cases ys with
    | nil => exact .nil
    | cons y ys => cases each 0
  | cons x xs ih =>
    cases ys with
    | nil => cases each 0
    | cons y ys =>
      have head : Option.Rel R (some x) (some y) := each 0
      cases head with
      | some head => exact .cons head (ih fun k => each (k + 1))

theorem Sound.becomes (sound : b.Sound) : List.Forall₂ b.Becomes b.finalOrder b.assembled.productions.toList := by
  refine forall₂_of_getElem? fun k => ?_
  have completes := completes_fillUndefined b
  have here := sound.assembled_productions k
  rw [← Array.getElem?_toList] at here
  cases listed : b.finalOrder[k]? with
  | none =>
    rw [listed, Option.bind_none] at here
    rw [here]
    exact .none
  | some id =>
    have inside := sound.mem_finalOrder.mp (List.mem_of_getElem? listed)
    have small : id < b.fillUndefined.productions.size := by rwa [size_fillUndefined]
    have found := Array.getElem?_eq_getElem small
    rw [listed, Option.bind_some, found, Option.map_some] at here
    rw [here]
    refine .some ⟨⟨k, Array.getElem?_toList.symm.trans here⟩, ?_, ?_, ?_⟩
    · rw [← completes.names]
      exact congrArg (Option.map Production.name) found
    · refine Bool.eq_iff_iff.mpr (isDefined_iff.trans ?_)
      simp only [← completes.defines]
      constructor
      · rintro ⟨root, p, found', defined, -⟩
        cases found.symm.trans found'
        exact defined
      · exact fun defined => ⟨_, _, found, defined, rfl⟩
    · intro root defines
      obtain ⟨p, found', -, rfl⟩ := completes.defines.mpr defines
      cases found.symm.trans found'
      rfl

/-- The outline of the grammar is that of the builder. -/
theorem Outlines.assembled_outline (outlines : b.Outlines definitions) :
    b.assembled.outline = definitions.map (Prod.map id some) := by
  have sound := outlines.balanced.sound
  have wellFormed := sound.wellFormed_assembled outlines.idle
  have embeds := (completes_fillUndefined b).embeds.trans sound.embeds_assembled
  have rest {ids : List Nat} {ps : List Production} (undefined : ∀ id ∈ ids, b.isDefined id = false)
      (become : List.Forall₂ b.Becomes ids ps) : ps.filter Production.defined = [] := by
    induction become with
    | nil => rfl
    | cons head _ ih =>
      obtain ⟨-, -, same, -⟩ := head
      rw [List.filter_cons_of_neg, ih fun id member => undefined id (List.mem_cons_of_mem _ member)]
      rw [← same, undefined _ (List.mem_cons_self ..)]
      exact Bool.false_ne_true
  have listed {definitions : List (String × Phrase)} {ids ids' : List Nat} {ps : List Production}
      (realize : List.Forall₂ b.Realizes definitions ids) (undefined : ∀ id ∈ ids', b.isDefined id = false)
      (become : List.Forall₂ b.Becomes (ids ++ ids') ps) :
      ((ps.filter Production.defined).map fun p => (p.name, b.assembled.phrase? p.root)) =
        definitions.map (Prod.map id some) := by
    induction realize generalizing ps with
    | nil => rw [rest undefined become, List.map_nil, List.map_nil]
    | @cons d k _ _ head _ ih =>
      cases become with
      | @cons _ p _ ps first others =>
        obtain ⟨named, root, defines, shown⟩ := head
        obtain ⟨⟨_, found⟩, named', flag, same⟩ := first
        have flag := flag.symm.trans (isDefined_iff.mpr ⟨root, defines⟩)
        obtain rfl := same defines
        have said := wellFormed.phrase?_of_shows (Grammar.rooted_root found) (shown.embed embeds)
        rw [List.filter_cons_of_pos flag, List.map_cons, List.map_cons, ih others, said,
          ← Option.some.inj (named.symm.trans named')]
        rfl
  refine listed outlines.each (fun id member => ?_) sound.becomes
  exact Bool.not_eq_true' _ ▸ (List.mem_filter.mp member).2

private theorem regular_renumber {index : Nat → Nat} {node : Node} (regular : node.expr.Regular) :
    (renumber index node).expr.Regular := by
  obtain ⟨expr, owner, parent, span⟩ := node
  cases expr with
  | reference => trivial
  | _ => exact regular

/-- The operators of a grammar have the parts they need, and it has no undo scopes yet. -/
theorem Balanced.regular_assembled (balanced : b.Balanced) {i : Nat} {e : Expr} (present : b.assembled.expr? i = some e) :
    e.Regular := by
  rw [assembled_expr?] at present
  obtain ⟨node, found, rfl⟩ := Option.map_eq_some_iff.mp present
  refine regular_renumber ?_
  have before := (completes_fillUndefined b).exprs (congrArg (Option.map Node.expr) found)
  rcases before with before | same
  · exact balanced.regular before
  · rw [same]
    trivial

end Builder

namespace Grammar

variable {g : Grammar}

/-- Apart from undo scopes, the operators have the parts they need. -/
def Regular (g : Grammar) : Prop := ∀ {i e}, g.expr? i = some e → (∀ child, e ≠ .undo child) → e.Regular

theorem WellFormed.injectUndo_regular (wellFormed : g.WellFormed) (regular : g.Regular) : g.injectUndo.2.Regular := by
  refine wellFormed.injectUndo_induction (motive := Regular) ?_ regular
  intro g i wellFormed rooted _ regular j e present plain
  obtain ⟨-, rfl⟩ | ⟨-, e, before, rfl⟩ := wellFormed.expr?_of_splice (wellFormed.attached rooted) present
  · exact absurd rfl (plain i)
  · have kept {children : List Nat} (several : 2 ≤ children.length) : 2 ≤ (children.map (g.replaced i)).length := by
      rwa [List.length_map]
    cases e with
    | undo => exact absurd rfl (plain _)
    | sequence => exact kept (regular before nofun)
    | choice => exact kept (regular before nofun)
    | repetition =>
      have bounds := regular before nofun
      exact bounds
    | _ => trivial

end Grammar

/-- A built grammar has the outline of its builder, with operators and scopes as they should be. -/
theorem Builder.Outlines.built {b : Builder} {definitions : List (String × Phrase)} (outlines : b.Outlines definitions) :
    b.assembled.injectUndo.2.outline = definitions.map (Prod.map id some) ∧ b.assembled.injectUndo.2.ScopesFilled ∧
      b.assembled.injectUndo.2.Regular := by
  have wellFormed := outlines.balanced.sound.wellFormed_assembled outlines.idle
  have regular {i : Nat} {e : Expr} (present : b.assembled.expr? i = some e) : e.Regular :=
    outlines.balanced.regular_assembled present
  refine ⟨wellFormed.injectUndo_outline.trans outlines.assembled_outline, wellFormed.injectUndo_scopesFilled ?_,
    wellFormed.injectUndo_regular fun present _ => regular present⟩
  exact fun present => absurd (regular present) id

end Packrat
