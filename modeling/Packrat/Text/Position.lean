/-! # Positions and spans of a text

A position counts characters from the beginning of a text and keeps the line and the column that
go with that count. Line ends are single newline characters here: `Packrat.Text.Newline` says how
other line ends become one.
-/

namespace Packrat

/-- A point between two characters. `offset` starts at 0, `line` and `column` at 1. -/
structure Position where
  offset : Nat
  line : Nat
  column : Nat
deriving DecidableEq, Repr

namespace Position

/-- The beginning of a text. -/
def origin : Position := ⟨0, 1, 1⟩

instance : Inhabited Position := ⟨origin⟩

/-- The position behind the character `c`. -/
def next (p : Position) (c : Char) : Position :=
  if c = '\n' then ⟨p.offset + 1, p.line + 1, 1⟩ else ⟨p.offset + 1, p.line, p.column + 1⟩

/-- The position behind all of `text`. -/
def advance (p : Position) (text : List Char) : Position :=
  text.foldl next p

/-- Positions are ordered by offset, then line, then column. -/
instance : LE Position :=
  ⟨fun p q => p.offset < q.offset ∨ p.offset = q.offset ∧
    (p.line < q.line ∨ p.line = q.line ∧ p.column ≤ q.column)⟩

instance (p q : Position) : Decidable (p ≤ q) :=
  inferInstanceAs (Decidable (_ ∨ _))

/-- Positions are written `line:column`. -/
def text (p : Position) : String :=
  toString p.line ++ ":" ++ toString p.column

@[simp] theorem offset_next (p : Position) (c : Char) : (p.next c).offset = p.offset + 1 := by
  unfold next; split <;> rfl

@[simp] theorem advance_nil (p : Position) : p.advance [] = p := rfl

@[simp] theorem advance_cons (p : Position) (c : Char) (rest : List Char) :
    p.advance (c :: rest) = (p.next c).advance rest := rfl

theorem advance_append (p : Position) (left right : List Char) :
    p.advance (left ++ right) = (p.advance left).advance right :=
  List.foldl_append

theorem offset_advance (p : Position) (text : List Char) :
    (p.advance text).offset = p.offset + text.length := by
  induction text generalizing p with
  | nil => rfl
  | cons c rest ih => simp only [advance_cons, ih, offset_next, List.length_cons]; omega

end Position

/-- The half-open piece of a text from `start` up to `stop`. -/
structure Span where
  start : Position
  stop : Position
deriving DecidableEq, Repr

namespace Span

instance : Inhabited Span := ⟨⟨.origin, .origin⟩⟩

/-- Number of characters, 0 when the ends are in the wrong order. -/
def length (s : Span) : Nat := s.stop.offset - s.start.offset

def isEmpty (s : Span) : Bool := s.length == 0

/-- Spans are ordered by their start, then by their end. -/
instance : LE Span :=
  ⟨fun s t => s.start ≠ t.start ∧ s.start ≤ t.start ∨ s.start = t.start ∧ s.stop ≤ t.stop⟩

instance (s t : Span) : Decidable (s ≤ t) :=
  inferInstanceAs (Decidable (_ ∨ _))

/-- Spans are written `start-end`. -/
def text (s : Span) : String := s.start.text ++ "-" ++ s.stop.text

end Span

end Packrat
