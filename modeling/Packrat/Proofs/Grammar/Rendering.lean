import Packrat.Grammar.Render
import Packrat.Proofs.Grammar.Phrase

/-! # The text of a phrase

A phrase tells the text of an expression: undo scopes have no text, and what needs parentheses can be seen from the
operators. So the text of a grammar is that of its definitions. A phrase and its normal form, where the empty text and
intervals of one character are tokens, have the same text.
-/

namespace Packrat

namespace Phrase

def isNil : Phrase → Bool
  | terminal .nil => true
  | _ => false

def isAtom : Phrase → Bool
  | terminal _ | reference .. | action .. => true
  | _ => false

def isChoice : Phrase → Bool
  | choice _ => true
  | _ => false

def isSequence : Phrase → Bool
  | sequence _ => true
  | _ => false

def isLookahead : Phrase → Bool
  | lookahead .. => true
  | _ => false

/-- Parentheses around a text if they are needed. -/
def grouped (needed : Bool) (text : List Char) : List Char := if needed then '(' :: (text ++ [')']) else text

mutual

/-- The characters of a phrase as text. -/
def chars : Phrase → List Char
  | terminal t => t.text.toList
  | reference name memo => (if memo then ['@'] else []) ++ name.toList
  | action name body => '$' :: (name.toList ++ '(' :: ((if body.isNil then [] else body.chars) ++ [')']))
  | sequence items => [' '].intercalate (itemChars (fun p => p.isSequence || p.isChoice) items)
  | choice items => [' ', '/', ' '].intercalate (itemChars isChoice items)
  | repetition min max body =>
    grouped (!body.isAtom && !body.isLookahead) body.chars ++ (Tree.boundsText min max).toList
  | lookahead sign body => sign.symbol.toList ++ grouped (!body.isAtom) body.chars

/-- The texts of several phrases, those with `needed` in parentheses. -/
def itemChars (needed : Phrase → Bool) : List Phrase → List (List Char)
  | [] => []
  | p :: rest => grouped (needed p) p.chars :: itemChars needed rest

end

theorem itemChars_eq_map (needed : Phrase → Bool) (items : List Phrase) :
    itemChars needed items = items.map fun p => grouped (needed p) p.chars := by
  induction items with
  | nil => rfl
  | cons p rest ih => rw [itemChars, ih, List.map_cons]

end Phrase

namespace Tree

variable {names : Nat → String} {branch : Nat → Tree → Prop} {i : Nat} {e : Expr} {t : Tree}

theorem phrase_visible (t : Tree) : t.visible.phrase names = t.phrase names := by
  fun_induction visible t with
  | case1 id body ih => exact ih
  | case2 => rfl

theorem visible_ne_undo (t : Tree) (id : Nat) (body : Tree) : t.visible ≠ undo id body := by
  fun_induction visible t with
  | case1 _ _ ih => exact ih
  | case2 t plain => exact plain id body

/-- The operator below the undo scopes is that of the phrase. -/
theorem phrase_operator (names : Nat → String) (t : Tree) : (t.phrase names).isAtom = t.isAtom ∧
    (t.phrase names).isChoice = t.isChoice ∧ (t.phrase names).isSequence = t.isSequence ∧
      (t.phrase names).isLookahead = t.isLookahead := by
  rw [← phrase_visible, isAtom, isChoice, isSequence, isLookahead]
  cases same : t.visible with
  | undo id body => exact absurd same (visible_ne_undo t id body)
  | _ => exact ⟨rfl, rfl, rfl, rfl⟩

/-- The tree and its phrase have the same text, and both or none of them are the empty text. -/
structure Spelled (names : Nat → String) (t : Tree) : Prop where
  text : (t.text names).toList = (t.phrase names).chars
  isNil : (t.phrase names).isNil = t.isNil

private theorem toList_grouped (needed : Bool) (text : String) :
    (grouped needed text).toList = Phrase.grouped needed text.toList := by
  cases needed with
  | true =>
    rw [grouped, Phrase.grouped, if_pos rfl, if_pos rfl, String.toList_append, String.toList_append]
    rfl
  | false => rfl

theorem texts_eq_map (needed : Tree → Bool) (items : List Tree) :
    texts names needed items = items.map fun t => grouped (needed t) (t.text names) := by
  induction items with
  | nil => rfl
  | cons t rest ih => rw [texts, ih, List.map_cons]

private theorem toList_texts {needed : Tree → Bool} {needed' : Phrase → Bool} {items : List Tree}
    (same : ∀ t, needed' (t.phrase names) = needed t) (each : ∀ t ∈ items, t.Spelled names) :
    (texts names needed items).map String.toList = Phrase.itemChars needed' (phrases names items) := by
  rw [texts_eq_map, phrases_eq_map, Phrase.itemChars_eq_map, List.map_map, List.map_map]
  refine List.map_congr_left fun t member => ?_
  rw [Function.comp_apply, Function.comp_apply, toList_grouped, (each t member).text, same]

/-- A tree with spelled branches is spelled, unless it is a scope around a terminal. -/
theorem Layer.spelled (layer : Layer branch i e t) (parts : ∀ {child body}, branch child body → body.Spelled names)
    (inner : ∀ {child body}, e = .undo child → branch child body → body.isNil = false) : t.Spelled names := by
  have items {children : List Nat} {items : List Tree} (parts' : List.Forall₂ branch children items) :
      ∀ t ∈ items, t.Spelled names := by
    intro t member
    obtain ⟨child, -, part⟩ := exists_related parts'.flip member
    exact parts part
  cases layer with
  | @terminal t =>
    refine ⟨rfl, ?_⟩
    cases t <;> rfl
  | @reference target memo =>
    refine ⟨?_, rfl⟩
    cases memo <;> rw [text, phrase, Phrase.chars, String.toList_append] <;> rfl
  | @action _ name _ body part =>
    refine ⟨?_, rfl⟩
    obtain ⟨same, isNil⟩ := parts part
    rw [text, phrase, Phrase.chars, isNil, ← same]
    cases body.isNil <;> simp
  | undo part =>
    obtain ⟨same, isNil⟩ := parts part
    exact ⟨same, isNil.trans (inner rfl part)⟩
  | sequence parts' =>
    refine ⟨?_, rfl⟩
    rw [text, phrase, Phrase.chars, String.toList_intercalate, toList_texts (fun t => ?_) (items parts')]
    · rfl
    · obtain ⟨-, choice, sequence, -⟩ := phrase_operator names t
      rw [choice, sequence]
  | choice parts' =>
    refine ⟨?_, rfl⟩
    rw [text, phrase, Phrase.chars, String.toList_intercalate,
      toList_texts (fun t => (phrase_operator names t).2.1) (items parts')]
    rfl
  | @repetition _ _ _ body part =>
    refine ⟨?_, rfl⟩
    obtain ⟨atom, -, -, lookahead⟩ := phrase_operator names body
    rw [text, phrase, Phrase.chars, String.toList_append, toList_grouped, (parts part).text, atom, lookahead]
  | @lookahead _ sign body part =>
    refine ⟨?_, rfl⟩
    rw [text, phrase, Phrase.chars, String.toList_append, toList_grouped, (parts part).text, (phrase_operator names body).1]

end Tree

/-- The empty text and an interval of one character are tokens. -/
def Terminal.normal : Terminal → Terminal
  | .nil => .token "" true
  | .interval i => if i.lo = i.hi then .token (String.singleton i.lo) true else .interval i
  | t => t

theorem Terminal.text_normal (t : Terminal) : t.normal.text = t.text := by
  cases t with
  | nil => rfl
  | interval i =>
    rw [normal]
    split
    · next single =>
      change "'" ++ String.ofList ((String.singleton i.lo).toList.flatMap (Escape.char '\'')) ++ "'" = i.text
      rw [Interval.text, if_pos single, String.toList_singleton, List.flatMap_singleton]
      rfl
    · rfl
  | _ => rfl

namespace Phrase

mutual

/-- All terminals in normal form, except the empty text that an action is given. -/
def normal : Phrase → Phrase
  | terminal t => terminal t.normal
  | reference name memo => reference name memo
  | action name body => action name (if body.isNil then body else body.normal)
  | sequence items => sequence (normals items)
  | choice items => choice (normals items)
  | repetition min max body => repetition min max body.normal
  | lookahead sign body => lookahead sign body.normal

def normals : List Phrase → List Phrase
  | [] => []
  | p :: rest => p.normal :: normals rest

end

theorem normals_eq_map (items : List Phrase) : normals items = items.map normal := by
  induction items with
  | nil => rfl
  | cons p rest ih => rw [normals, ih, List.map_cons]

theorem normal_operator (p : Phrase) : p.normal.isAtom = p.isAtom ∧ p.normal.isChoice = p.isChoice ∧
    p.normal.isSequence = p.isSequence ∧ p.normal.isLookahead = p.isLookahead := by
  cases p <;> exact ⟨rfl, rfl, rfl, rfl⟩

theorem isNil_normal (p : Phrase) : p.normal.isNil = false := by
  cases p with
  | terminal t =>
    cases t with
    | interval i =>
      rw [normal, Terminal.normal]
      split <;> rfl
    | _ => rfl
  | _ => rfl

private theorem itemChars_normals {needed : Phrase → Bool} {items : List Phrase}
    (same : ∀ p, needed p.normal = needed p) (each : ∀ p ∈ items, p.normal.chars = p.chars) :
    itemChars needed (normals items) = itemChars needed items := by
  rw [normals_eq_map, itemChars_eq_map, itemChars_eq_map, List.map_map]
  refine List.map_congr_left fun p member => ?_
  rw [Function.comp_apply, same, each p member]

/-- Bringing a phrase into normal form does not change its text. -/
theorem chars_normal (p : Phrase) : p.normal.chars = p.chars := by
  induction p using Phrase.induction with
  | terminal t => rw [normal, chars, chars, Terminal.text_normal]
  | reference name memo => rfl
  | action name body ih =>
    rw [normal, chars, chars]
    cases given : body.isNil with
    | true => rw [if_pos rfl, if_pos rfl, given, if_pos rfl]
    | false => rw [if_neg Bool.false_ne_true, if_neg Bool.false_ne_true, isNil_normal, if_neg Bool.false_ne_true, ih]
  | sequence items ih =>
    rw [normal, chars, chars, itemChars_normals (fun p => ?_) ih]
    obtain ⟨-, choice, sequence, -⟩ := normal_operator p
    rw [choice, sequence]
  | choice items ih => rw [normal, chars, chars, itemChars_normals (fun p => (normal_operator p).2.1) ih]
  | repetition min max body ih =>
    obtain ⟨atom, -, -, lookahead⟩ := normal_operator body
    rw [normal, chars, chars, atom, lookahead, ih]
  | lookahead sign body ih => rw [normal, chars, chars, (normal_operator body).1, ih]

end Phrase

end Packrat
