import Packrat.Grammar.Render

/-! # Events of a recognition

An observer is told, in order, what a recognition does: every rule it enters and leaves, and every
use of the memo table. A rule that is entered is always left, also when an action aborts the
recognition.
-/

namespace Packrat

inductive Event where
  | opened
  | entered (rule : Rule)
  | left (rule : Rule) (success : Bool)
  /-- A reference asked the memo table. -/
  | lookedUp (reference : Nat) (hit : Bool)
  /-- A reference stored its match in the memo table. -/
  | stored (reference : Nat)
  | closed (success : Bool)
deriving DecidableEq, Repr

/-- One line for an event at a position of the stream. -/
def Event.text (event : Event) (p : Position) : String :=
  let words : List String :=
    match event with
    | opened => ["open", p.text]
    | entered rule => [">", rule.text, toString p.offset]
    | left rule success => ["<", rule.text, toString p.offset, toString success]
    | lookedUp reference hit =>
      ["lookup", (Rule.expression reference).text, toString p.offset, toString hit]
    | stored reference => ["cache", (Rule.expression reference).text, toString p.offset]
    | closed success => ["close", p.text, toString success]
  " ".intercalate words

/-- What an observer with the state `τ` makes of an event, with the stream as it is then. -/
abbrev Observer (τ : Type) := Grammar → Stream → Event → τ → τ

namespace Observer

variable {σ τ : Type}

/-- The observer that makes nothing of any event. -/
def silent : Observer Unit := fun _ _ _ state => state

/-- Two observers side by side. -/
def both (first : Observer σ) (second : Observer τ) : Observer (σ × τ) :=
  fun g s event state => (first g s event state.1, second g s event state.2)

/-- An observer that may be missing. -/
def ifAny (observer : Observer τ) : Observer (Option τ) :=
  fun g s event state => state.map (observer g s event)

/-- Keeps every event with the position of the stream, the last one first. -/
def recording : Observer (List (Event × Position)) :=
  fun _ s event log => (event, s.position) :: log

end Observer

end Packrat
