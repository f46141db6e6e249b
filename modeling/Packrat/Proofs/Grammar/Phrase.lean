import Packrat.Proofs.Grammar.Trees

/-! # Phrases

What an expression says, apart from where it lies in an arena: its parts stand in it, a reference tells the name of
its production, and there are no undo scopes. Two grammars that say the same in the same order need not agree in
the numbers of their nodes.
-/

namespace Packrat

inductive Phrase where
  | terminal (terminal : Terminal)
  | reference (name : String) (memo : Bool)
  | action (name : String) (body : Phrase)
  | sequence (items : List Phrase)
  | choice (items : List Phrase)
  | repetition (min max : Nat) (body : Phrase)
  | lookahead (sign : Lookahead) (body : Phrase)
deriving Repr

/-- What holds of a phrase if it holds of its parts, holds of every phrase. -/
@[elab_as_elim]
theorem Phrase.induction {motive : Phrase → Prop} (terminal : ∀ t, motive (.terminal t))
    (reference : ∀ name memo, motive (.reference name memo))
    (action : ∀ name body, motive body → motive (.action name body))
    (sequence : ∀ items, (∀ item ∈ items, motive item) → motive (.sequence items))
    (choice : ∀ items, (∀ item ∈ items, motive item) → motive (.choice items))
    (repetition : ∀ min max body, motive body → motive (.repetition min max body))
    (lookahead : ∀ sign body, motive body → motive (.lookahead sign body)) (p : Phrase) : motive p := by
  refine @Phrase.rec motive (fun items => ∀ item ∈ items, motive item) terminal reference action sequence choice
    repetition lookahead ?_ ?_ p
  · intro item member
    cases member
  · intro first rest head tail item member
    rcases List.mem_cons.mp member with rfl | member
    · exact head
    · exact tail item member

namespace Tree

mutual

/-- What a tree says, where `names` names the productions. -/
def phrase (names : Nat → String) : Tree → Phrase
  | terminal _ t => .terminal t
  | reference _ target memo => .reference (names target) memo
  | action _ name _ body => .action name (body.phrase names)
  | undo _ body => body.phrase names
  | sequence _ items => .sequence (phrases names items)
  | choice _ items => .choice (phrases names items)
  | repetition _ min max body => .repetition min max (body.phrase names)
  | lookahead _ sign body => .lookahead sign (body.phrase names)

def phrases (names : Nat → String) : List Tree → List Phrase
  | [] => []
  | t :: rest => t.phrase names :: phrases names rest

end

theorem phrases_eq_map (names : Nat → String) (items : List Tree) : phrases names items = items.map (phrase names) := by
  induction items with
  | nil => rfl
  | cons t rest ih => rw [phrases, ih, List.map_cons]

end Tree

/-- What is in an arena: expressions by index, and the names of the productions that they refer to. -/
structure Arena where
  expr? : Nat → Option Expr
  name? : Nat → Option String

namespace Arena

variable {a a' : Arena} {p : Phrase} {ps : List Phrase} {i : Nat} {ids : List Nat}

mutual

/-- The expression is the phrase. -/
def Shows (a : Arena) : Phrase → Nat → Prop
  | .terminal t, i => a.expr? i = some (.terminal t)
  | .reference name memo, i => ∃ target, a.expr? i = some (.reference target memo) ∧ a.name? target = some name
  | .action name body, i => ∃ child bound, a.expr? i = some (.action child name bound) ∧ a.Shows body child
  | .sequence items, i => ∃ children, a.expr? i = some (.sequence children) ∧ a.ShowsAll items children
  | .choice items, i => ∃ children, a.expr? i = some (.choice children) ∧ a.ShowsAll items children
  | .repetition min max body, i => ∃ child, a.expr? i = some (.repetition child min max) ∧ a.Shows body child
  | .lookahead sign body, i => ∃ child, a.expr? i = some (.lookahead child sign) ∧ a.Shows body child

/-- The expressions are the phrases, one by one. -/
def ShowsAll (a : Arena) : List Phrase → List Nat → Prop
  | [], ids => ids = []
  | p :: rest, ids => ∃ i others, ids = i :: others ∧ a.Shows p i ∧ a.ShowsAll rest others

end

theorem showsAll_iff : a.ShowsAll ps ids ↔ List.Forall₂ a.Shows ps ids := by
  induction ps generalizing ids with
  | nil => rw [ShowsAll, List.forall₂_nil_left_iff]
  | cons p rest ih =>
    simp only [ShowsAll, List.forall₂_cons_left_iff, ih]
    constructor
    · rintro ⟨i, others, rfl, here, tail⟩
      exact ⟨i, others, here, tail, rfl⟩
    · rintro ⟨i, others, here, tail, rfl⟩
      exact ⟨i, others, rfl, here, tail⟩

theorem showsAll_concat :
    a.ShowsAll (ps ++ [p]) ids ↔ ∃ below i, ids = below ++ [i] ∧ a.ShowsAll ps below ∧ a.Shows p i := by
  induction ps generalizing ids with
  | nil =>
    simp only [List.nil_append, ShowsAll]
    constructor
    · rintro ⟨i, _, rfl, shown, rfl⟩
      exact ⟨[], i, rfl, rfl, shown⟩
    · rintro ⟨_, i, rfl, rfl, shown⟩
      exact ⟨i, [], rfl, shown, rfl⟩
  | cons first rest ih =>
    simp only [List.cons_append, ShowsAll, ih]
    constructor
    · rintro ⟨j, _, rfl, head, below, i, rfl, tail, shown⟩
      exact ⟨j :: below, i, rfl, ⟨j, below, rfl, head, tail⟩, shown⟩
    · rintro ⟨_, i, rfl, ⟨j, below, rfl, head, tail⟩, shown⟩
      exact ⟨j, below ++ [i], rfl, head, below, i, rfl, tail, shown⟩

/-- References are still to productions of the same name, and the other expressions are the same. -/
structure Embeds (a a' : Arena) : Prop where
  expr : ∀ {i e}, (∀ target memo, e ≠ .reference target memo) → a.expr? i = some e → a'.expr? i = some e
  reference : ∀ {i target memo name}, a.expr? i = some (.reference target memo) → a.name? target = some name →
    ∃ target', a'.expr? i = some (.reference target' memo) ∧ a'.name? target' = some name

theorem Embeds.refl (a : Arena) : a.Embeds a := ⟨fun _ present => present, fun present named => ⟨_, present, named⟩⟩

theorem Embeds.trans {a'' : Arena} (first : a.Embeds a') (second : a'.Embeds a'') : a.Embeds a'' where
  expr plain present := second.expr plain (first.expr plain present)
  reference present named := by
    obtain ⟨target, present, named⟩ := first.reference present named
    exact second.reference present named

/-- An arena with more expressions and productions. -/
theorem Embeds.of_grown (exprs : ∀ {i e}, a.expr? i = some e → a'.expr? i = some e)
    (names : ∀ {id name}, a.name? id = some name → a'.name? id = some name) : a.Embeds a' :=
  ⟨fun _ present => exprs present, fun present named => ⟨_, exprs present, names named⟩⟩

theorem Shows.embed (embeds : a.Embeds a') (shown : a.Shows p i) : a'.Shows p i := by
  have each {items : List Phrase} (ih : ∀ item ∈ items, ∀ {i}, a.Shows item i → a'.Shows item i) {children : List Nat}
      (all : a.ShowsAll items children) : a'.ShowsAll items children := by
    rw [showsAll_iff] at *
    induction all with
    | nil => exact .nil
    | cons head _ tail =>
      exact .cons (ih _ (List.mem_cons_self ..) head) (tail fun item member => ih item (List.mem_cons_of_mem _ member))
  induction p using Phrase.induction generalizing i with
  | terminal t => exact embeds.expr nofun shown
  | reference name memo =>
    obtain ⟨target, present, named⟩ := shown
    exact embeds.reference present named
  | action name body ih =>
    obtain ⟨child, bound, present, part⟩ := shown
    exact ⟨child, bound, embeds.expr nofun present, ih part⟩
  | sequence items ih =>
    obtain ⟨children, present, parts⟩ := shown
    exact ⟨children, embeds.expr nofun present, each (fun item member _ => ih item member) parts⟩
  | choice items ih =>
    obtain ⟨children, present, parts⟩ := shown
    exact ⟨children, embeds.expr nofun present, each (fun item member _ => ih item member) parts⟩
  | repetition min max body ih =>
    obtain ⟨child, present, part⟩ := shown
    exact ⟨child, embeds.expr nofun present, ih part⟩
  | lookahead sign body ih =>
    obtain ⟨child, present, part⟩ := shown
    exact ⟨child, embeds.expr nofun present, ih part⟩

theorem ShowsAll.embed (embeds : a.Embeds a') (all : a.ShowsAll ps ids) : a'.ShowsAll ps ids := by
  rw [showsAll_iff] at *
  exact all.imp fun _ _ shown => shown.embed embeds

end Arena

end Packrat
