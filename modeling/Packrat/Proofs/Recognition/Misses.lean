import Packrat.Proofs.Recognition.Judgement
import Mathlib.Data.Set.Basic

/-! # What a parse misses

While a goal is parsed, terminals that do not match are missed where they are tried. `Peg.Misses` says which, without
a recognizer: lookaheads miss nothing, and where a goal goes on behind a first part, the outcome of that part decides
with what and where. So what a goal misses at an offset is the union of what its parts miss (`Peg.misses`).
-/

namespace Packrat.Peg

/-- The terminal is missed at `place` while the goal is parsed at an offset. -/
inductive Misses (σ : Setting) (place : Nat) (t : Terminal) : Goal → Nat → Prop
  | production {index root o : Nat} (defined : σ.grammar.root? index = some root)
      (body : Misses σ place t (.rule (.expression root)) o) : Misses σ place t (.rule (.production index)) o
  | terminal {i : Nat} (present : σ.grammar.expr? i = some (.terminal t))
      (missing : t.matchLength? (σ.text.drop place) = none) : Misses σ place t (.rule (.expression i)) place
  | expression {i o : Nat} {e : Expr} (present : σ.grammar.expr? i = some e)
      (body : Misses σ place t (.operator e) o) : Misses σ place t (.rule (.expression i)) o
  | reference {target o : Nat} {memo : Bool} (body : Misses σ place t (.rule (.production target)) o) :
      Misses σ place t (.operator (.reference target memo)) o
  | action {child o : Nat} {name : String} {bound : Bool} (body : Misses σ place t (.rule (.expression child)) o) :
      Misses σ place t (.operator (.action child name bound)) o
  | undo {child o : Nat} (body : Misses σ place t (.rule (.expression child)) o) :
      Misses σ place t (.operator (.undo child)) o
  | sequence {children : List Nat} {o : Nat} (body : Misses σ place t (.all children) o) :
      Misses σ place t (.operator (.sequence children)) o
  | choice {children : List Nat} {o : Nat} (body : Misses σ place t (.first children) o) :
      Misses σ place t (.operator (.choice children)) o
  | least {child min max o : Nat} (body : Misses σ place t (.all (List.replicate min child)) o) :
      Misses σ place t (.operator (.repetition child min max)) o
  | more {child min max o middle : Nat} {deeds : List Deed}
      (least : Parses σ (.all (List.replicate min child)) o (.matched middle deeds))
      (body : Misses σ place t (.greedy child (max == unbounded) (σ.limit min max)) middle) :
      Misses σ place t (.operator (.repetition child min max)) o
  | allHead {child o : Nat} {rest : List Nat} (body : Misses σ place t (.rule (.expression child)) o) :
      Misses σ place t (.all (child :: rest)) o
  | allTail {child o middle : Nat} {rest : List Nat} {deeds : List Deed}
      (head : Parses σ (.rule (.expression child)) o (.matched middle deeds))
      (body : Misses σ place t (.all rest) middle) : Misses σ place t (.all (child :: rest)) o
  | firstHead {child o : Nat} {rest : List Nat} (body : Misses σ place t (.rule (.expression child)) o) :
      Misses σ place t (.first (child :: rest)) o
  | firstTail {child o : Nat} {rest : List Nat} (head : Parses σ (.rule (.expression child)) o .failed)
      (body : Misses σ place t (.first rest) o) : Misses σ place t (.first (child :: rest)) o
  | greedyHead {child o : Nat} {stopOnEmpty : Bool} {limit : Option Nat} (room : limit ≠ some 0)
      (body : Misses σ place t (.rule (.expression child)) o) :
      Misses σ place t (.greedy child stopOnEmpty limit) o
  | greedyTail {child o middle : Nat} {stopOnEmpty : Bool} {limit : Option Nat} {deeds : List Deed}
      (room : limit ≠ some 0) (head : Parses σ (.rule (.expression child)) o (.matched middle deeds))
      (advanced : stopOnEmpty = true → middle ≠ o)
      (body : Misses σ place t (.greedy child stopOnEmpty (limit.map (· - 1))) middle) :
      Misses σ place t (.greedy child stopOnEmpty limit) o

/-- The places and the terminals that are missed while the goal is parsed at the offset. -/
def misses (σ : Setting) (goal : Goal) (o : Nat) : Set (Nat × Terminal) := {miss | Misses σ miss.1 miss.2 goal o}

variable {σ : Setting} {i child o middle index root target min max : Nat} {rest : List Nat} {deeds : List Deed}
  {out : Outcome} {stopOnEmpty : Bool} {limit : Option Nat}

theorem misses_production (defined : σ.grammar.root? index = some root) :
    misses σ (.rule (.production index)) o = misses σ (.rule (.expression root)) o := by
  ext miss
  constructor
  · rintro (⟨defined', body⟩)
    cases defined.symm.trans defined'
    exact body
  · exact .production defined

/-- A terminal that does not match is missed by the expression that consists of it. -/
theorem misses_expression {e : Expr} (present : σ.grammar.expr? i = some e) :
    misses σ (.rule (.expression i)) o = misses σ (.operator e) o ∪
      {miss | e = .terminal miss.2 ∧ miss.1 = o ∧ miss.2.matchLength? (σ.text.drop o) = none} := by
  ext ⟨place, t⟩
  constructor
  · intro missed
    cases missed with
    | terminal present' missing =>
      cases present.symm.trans present'
      exact .inr ⟨rfl, rfl, missing⟩
    | expression present' body =>
      cases present.symm.trans present'
      exact .inl body
  · rintro (body | ⟨rfl, rfl, missing⟩)
    · exact .expression present body
    · exact .terminal present missing

theorem misses_terminal {t : Terminal} : misses σ (.operator (.terminal t)) o = ∅ := by
  ext miss
  exact ⟨nofun, nofun⟩

theorem misses_reference {memo : Bool} :
    misses σ (.operator (.reference target memo)) o = misses σ (.rule (.production target)) o := by
  ext miss
  exact ⟨fun | .reference body => body, .reference⟩

theorem misses_action {name : String} {bound : Bool} :
    misses σ (.operator (.action child name bound)) o = misses σ (.rule (.expression child)) o := by
  ext miss
  exact ⟨fun | .action body => body, .action⟩

theorem misses_undo : misses σ (.operator (.undo child)) o = misses σ (.rule (.expression child)) o := by
  ext miss
  exact ⟨fun | .undo body => body, .undo⟩

theorem misses_sequence : misses σ (.operator (.sequence rest)) o = misses σ (.all rest) o := by
  ext miss
  exact ⟨fun | .sequence body => body, .sequence⟩

theorem misses_choice : misses σ (.operator (.choice rest)) o = misses σ (.first rest) o := by
  ext miss
  exact ⟨fun | .choice body => body, .choice⟩

theorem misses_lookahead {sign : Lookahead} : misses σ (.operator (.lookahead child sign)) o = ∅ := by
  ext miss
  exact ⟨nofun, nofun⟩

theorem misses_repetition_of_enough (least : Parses σ (.all (List.replicate min child)) o (.matched middle deeds)) :
    misses σ (.operator (.repetition child min max)) o = misses σ (.all (List.replicate min child)) o ∪
      misses σ (.greedy child (max == unbounded) (σ.limit min max)) middle := by
  ext miss
  constructor
  · intro missed
    cases missed with
    | least body => exact .inl body
    | more least' body =>
      cases least.deterministic least'
      exact .inr body
  · rintro (body | body)
    · exact .least body
    · exact .more least body

theorem misses_repetition_of_tooFew (least : Parses σ (.all (List.replicate min child)) o out)
    (unmatched : out.isMatched = false) :
    misses σ (.operator (.repetition child min max)) o = misses σ (.all (List.replicate min child)) o := by
  ext miss
  constructor
  · intro missed
    cases missed with
    | least body => exact body
    | more least' =>
      cases least.deterministic least'
      cases unmatched
  · exact .least

theorem misses_all_nil : misses σ (.all []) o = ∅ := by
  ext miss
  exact ⟨nofun, nofun⟩

theorem misses_all_of_matched (head : Parses σ (.rule (.expression child)) o (.matched middle deeds)) :
    misses σ (.all (child :: rest)) o = misses σ (.rule (.expression child)) o ∪ misses σ (.all rest) middle := by
  ext miss
  constructor
  · intro missed
    cases missed with
    | allHead body => exact .inl body
    | allTail head' body =>
      cases head.deterministic head'
      exact .inr body
  · rintro (body | body)
    · exact .allHead body
    · exact .allTail head body

theorem misses_all_of_unmatched (head : Parses σ (.rule (.expression child)) o out)
    (unmatched : out.isMatched = false) :
    misses σ (.all (child :: rest)) o = misses σ (.rule (.expression child)) o := by
  ext miss
  constructor
  · intro missed
    cases missed with
    | allHead body => exact body
    | allTail head' =>
      cases head.deterministic head'
      cases unmatched
  · exact .allHead

theorem misses_first_nil : misses σ (.first []) o = ∅ := by
  ext miss
  exact ⟨nofun, nofun⟩

theorem misses_first_of_failed (head : Parses σ (.rule (.expression child)) o .failed) :
    misses σ (.first (child :: rest)) o = misses σ (.rule (.expression child)) o ∪ misses σ (.first rest) o := by
  ext miss
  constructor
  · intro missed
    cases missed with
    | firstHead body => exact .inl body
    | firstTail _ body => exact .inr body
  · rintro (body | body)
    · exact .firstHead body
    · exact .firstTail head body

theorem misses_first_of_decided (head : Parses σ (.rule (.expression child)) o out) (decided : out ≠ .failed) :
    misses σ (.first (child :: rest)) o = misses σ (.rule (.expression child)) o := by
  ext miss
  constructor
  · intro missed
    cases missed with
    | firstHead body => exact body
    | firstTail head' => exact absurd (head.deterministic head') decided
  · exact .firstHead

theorem misses_greedy_full : misses σ (.greedy child stopOnEmpty (some 0)) o = ∅ := by
  ext miss
  refine ⟨fun missed => ?_, nofun⟩
  cases missed with
  | greedyHead room => exact absurd rfl room
  | greedyTail room => exact absurd rfl room

/-- A repetition goes on behind a match, unless the match is without text and was to be the last then. -/
theorem misses_greedy_of_matched (room : limit ≠ some 0)
    (head : Parses σ (.rule (.expression child)) o (.matched middle deeds))
    (advanced : stopOnEmpty = true → middle ≠ o) :
    misses σ (.greedy child stopOnEmpty limit) o = misses σ (.rule (.expression child)) o ∪
      misses σ (.greedy child stopOnEmpty (limit.map (· - 1))) middle := by
  ext miss
  constructor
  · intro missed
    cases missed with
    | greedyHead _ body => exact .inl body
    | greedyTail _ head' _ body =>
      cases head.deterministic head'
      exact .inr body
  · rintro (body | body)
    · exact .greedyHead room body
    · exact .greedyTail room head advanced body

theorem misses_greedy_of_last (room : limit ≠ some 0) (head : Parses σ (.rule (.expression child)) o out)
    (last : ∀ middle deeds, out = .matched middle deeds → stopOnEmpty = true ∧ middle = o) :
    misses σ (.greedy child stopOnEmpty limit) o = misses σ (.rule (.expression child)) o := by
  ext miss
  constructor
  · intro missed
    cases missed with
    | greedyHead _ body => exact body
    | greedyTail _ head' advanced =>
      obtain ⟨stops, empty⟩ := last _ _ (head.deterministic head')
      exact absurd empty (advanced stops)
  · exact .greedyHead room

end Packrat.Peg
