import Packrat.Proofs.Grammar.Rewriting
import Mathlib.Data.Option.Defs

/-! # Grammars that differ in undo scopes

An undo scope has no say in what is recognized, so what counts of an expression is the operator behind the undo scopes
around it. Two grammars are twins if their productions have the same operators in this sense, and so have the parts of
these operators. A grammar is a twin of what undo scopes make of it, wherever they are put.
-/

namespace Packrat

/-- The same operator, with related parts. An undo scope is like nothing. -/
inductive Expr.Alike (related : Nat → Nat → Prop) : Expr → Expr → Prop
  | terminal (t : Terminal) : Alike related (.terminal t) (.terminal t)
  | reference (target : Nat) (memo : Bool) : Alike related (.reference target memo) (.reference target memo)
  | action {child child' : Nat} (part : related child child') (name : String) (bound : Bool) :
      Alike related (.action child name bound) (.action child' name bound)
  | sequence {children children' : List Nat} (parts : List.Forall₂ related children children') :
      Alike related (.sequence children) (.sequence children')
  | choice {children children' : List Nat} (parts : List.Forall₂ related children children') :
      Alike related (.choice children) (.choice children')
  | repetition {child child' : Nat} (part : related child child') (min max : Nat) :
      Alike related (.repetition child min max) (.repetition child' min max)
  | lookahead {child child' : Nat} (part : related child child') (sign : Lookahead) :
      Alike related (.lookahead child sign) (.lookahead child' sign)

namespace Expr.Alike

variable {related related' : Nat → Nat → Prop} {e e' : Expr}

theorem flip (alike : e.Alike related e') (le : ∀ {i i'}, related i i' → related' i' i) : e'.Alike related' e := by
  have all {children children' : List Nat} (parts : List.Forall₂ related children children') :
      List.Forall₂ related' children' children := List.Forall₂.flip (parts.imp fun _ _ => le)
  cases alike with
  | terminal t => exact .terminal t
  | reference target memo => exact .reference target memo
  | action part name bound => exact .action (le part) name bound
  | sequence parts => exact .sequence (all parts)
  | choice parts => exact .choice (all parts)
  | repetition part min max => exact .repetition (le part) min max
  | lookahead part sign => exact .lookahead (le part) sign

/-- With its parts replaced by related ones, an expression stays alike. -/
theorem of_mapChildren {f : Nat → Nat} (visible : ∀ child, e ≠ .undo child)
    (moved : ∀ child ∈ e.children, related child (f child)) : e.Alike related (e.mapChildren f) := by
  have all {children : List Nat} (moved : ∀ child ∈ children, related child (f child)) :
      List.Forall₂ related children (children.map f) := by
    rw [List.forall₂_map_right_iff, List.forall₂_same]
    exact moved
  cases e with
  | terminal t => exact .terminal t
  | reference target memo => exact .reference target memo
  | action child name bound => exact .action (moved child (List.mem_singleton_self _)) name bound
  | undo child => exact absurd rfl (visible child)
  | sequence children => exact .sequence (all moved)
  | choice children => exact .choice (all moved)
  | repetition child min max => exact .repetition (moved child (List.mem_singleton_self _)) min max
  | lookahead child sign => exact .lookahead (moved child (List.mem_singleton_self _)) sign

end Expr.Alike

namespace Grammar

variable {g g' : Grammar} {i i' j k child : Nat} {e : Expr} {place : Nat → Nat}

/-- Inside of the undo scopes that begin at `i`, the operator at `k` comes first. -/
inductive Core (g : Grammar) (k : Nat) : Nat → Prop
  | here {e : Expr} (present : g.expr? k = some e) (visible : ∀ child, e ≠ .undo child) : Core g k k
  | inside {i child : Nat} (present : g.expr? i = some (.undo child)) (rest : Core g k child) : Core g k i

namespace Core

theorem operator (core : g.Core k i) : ∃ e, g.expr? k = some e ∧ ∀ child, e ≠ .undo child := by
  induction core with
  | here present visible => exact ⟨_, present, visible⟩
  | inside _ _ ih => exact ih

/-- Undo scopes that are put in leave the operator inside as it is. -/
theorem of_leads (core : g.Core k i) (leads : g.Leads (fun _ e => ∃ child, e = .undo child) i j) : g.Core k j := by
  induction leads with
  | here => exact core
  | down present inserted only _ ih =>
    obtain ⟨child, rfl⟩ := inserted
    cases only
    exact .inside present ih

end Core

/-- The same operator comes first inside of the undo scopes at `i` and at `i'`. -/
def SameCore (g g' : Grammar) (i i' : Nat) : Prop := ∃ k, (g.Rooted k ∧ g.Core k i) ∧ g'.Rooted k ∧ g'.Core k i'

theorem SameCore.flip (same : SameCore g g' i i') : SameCore g' g i' i := by
  obtain ⟨k, one, other⟩ := same
  exact ⟨k, other, one⟩

/-- Productions and operators are the same up to undo scopes. -/
structure Twins (g g' : Grammar) : Prop where
  root : ∀ index, Option.Rel (SameCore g g') (g.root? index) (g'.root? index)
  operator : ∀ {k e e'}, g.Rooted k ∧ g'.Rooted k → g.expr? k = some e → g'.expr? k = some e' →
    (∀ child, e ≠ .undo child) → (∀ child, e' ≠ .undo child) → e.Alike (SameCore g g') e'

theorem SameCore.replicate (same : SameCore g g' i i') (count : Nat) :
    List.Forall₂ (SameCore g g') (List.replicate count i) (List.replicate count i') := by
  induction count with
  | zero => exact .nil
  | succ count ih => exact .cons same ih

theorem Twins.exists_root {index root : Nat} (twins : Twins g g') (defined : g.root? index = some root) :
    ∃ root', g'.root? index = some root' ∧ SameCore g g' root root' := by
  have related := twins.root index
  rw [defined] at related
  cases defined' : g'.root? index with
  | none => rw [defined'] at related; cases related
  | some root' =>
    rw [defined'] at related
    cases related with
    | some same => exact ⟨root', rfl, same⟩

theorem Twins.flip (twins : Twins g g') : Twins g' g where
  root index := by
    have same := twins.root index
    cases left : g.root? index <;> cases right : g'.root? index <;> rw [left, right] at same <;> cases same
    · exact .none
    · next related => exact .some related.flip
  operator rooted present present' visible visible' :=
    (twins.operator rooted.symm present' present visible' visible).flip SameCore.flip

/-- Undo scopes put around expressions make a twin. -/
theorem Dressed.twins (wellFormed : g.WellFormed)
    (dressed : Dressed (fun _ e => ∃ child, e = .undo child) place g g') : Twins g g' := by
  have moved {i : Nat} (rooted : g.Rooted i) : SameCore g g' i (place i) := by
    refine wellFormed.rooted_induction (motive := fun i => SameCore g g' i (place i)) ?_ rooted
    intro i e rooted present parts
    have present' := dressed.inner rooted present
    have leads := dressed.leads rooted
    by_cases undo : ∃ child, e = .undo child
    · obtain ⟨child, rfl⟩ := undo
      obtain ⟨k, ⟨reached, core⟩, reached', core'⟩ := parts child (List.mem_singleton_self _)
      exact ⟨k, ⟨reached, .inside present core⟩, reached', (Core.inside present' core').of_leads leads⟩
    · have visible : ∀ child, e ≠ .undo child := fun child same => undo ⟨child, same⟩
      have visible' : ∀ child, e.mapChildren place ≠ .undo child := by
        cases e with
        | undo child => exact absurd rfl (visible child)
        | _ => nofun
      refine ⟨i, ⟨rooted, .here present visible⟩, (dressed.rooted rooted).2, ?_⟩
      exact (Core.here present' visible').of_leads leads
  constructor
  case root =>
    intro index
    rw [dressed.root?]
    cases defined : g.root? index with
    | none => exact .none
    | some root => exact .some (moved (.root defined))
  case operator =>
    intro k e e' rooted present present' visible _
    cases (dressed.inner rooted.1 present).symm.trans present'
    exact .of_mapChildren visible fun child member => moved (rooted.1.child present member)

end Grammar

/-- The step puts undo scopes in and does nothing else. -/
def Rewriting.undoOnly : Rewriting → Bool
  | injectUndo => true
  | splice _ .undo => true
  | _ => false

namespace Grammar

variable {g : Grammar} {steps : List Rewriting}

theorem splices_append (sites sites' : List (Nat × Wrapper)) :
    g.splices (sites ++ sites') = (g.splices sites).splices sites' := by
  rw [splices, List.foldl_append]
  rfl

/-- Steps that put undo scopes in are splices of undo scopes. -/
theorem exists_splices (undoOnly : ∀ step ∈ steps, step.undoOnly = true) :
    ∃ sites : List (Nat × Wrapper), (∀ site ∈ sites, site.2 = .undo) ∧ g.rewrite steps = g.splices sites := by
  induction steps generalizing g with
  | nil => exact ⟨[], nofun, rfl⟩
  | cons step rest ih =>
    obtain ⟨later, scopes, same⟩ :=
      @ih (step.apply g) fun other member => undoOnly other (List.mem_cons_of_mem _ member)
    have first : ∃ sites : List (Nat × Wrapper), (∀ site ∈ sites, site.2 = .undo) ∧ step.apply g = g.splices sites := by
      have only := undoOnly step (List.mem_cons_self ..)
      cases step with
      | injectUndo =>
        refine ⟨_, fun site member => ?_, g.injectUndo_eq⟩
        obtain ⟨i, -, rfl⟩ := List.mem_map.mp member
        rfl
      | splice i w =>
        cases w with
        | undo => exact ⟨[(i, .undo)], fun site member => by rw [List.mem_singleton.mp member], rfl⟩
        | _ => cases only
      | _ => cases only
    obtain ⟨sites, scopes', same'⟩ := first
    refine ⟨sites ++ later, fun site member => ?_, ?_⟩
    · exact (List.mem_append.mp member).elim (scopes' site) (scopes site)
    · rw [splices_append, ← same', ← same]
      rfl

/-- Undo scopes, put in by any steps, make a twin of a grammar. -/
theorem WellFormed.twins_rewrite (wellFormed : g.WellFormed) (undoOnly : ∀ step ∈ steps, step.undoOnly = true) :
    Twins g (g.rewrite steps) := by
  obtain ⟨sites, scopes, same⟩ := @exists_splices g steps undoOnly
  obtain ⟨-, -, -, place, -, dressed⟩ := wellFormed.splices sites
  rw [same]
  refine (dressed.mono ?_).twins wellFormed
  rintro j e ⟨-, site, member, child, rfl⟩
  rw [scopes site member]
  exact ⟨child, rfl⟩

end Grammar

end Packrat
