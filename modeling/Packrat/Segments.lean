/-! # A stack in segments

Marks divide a stack into segments, and only the segment above the innermost mark can be read or
popped. Closing a mark either merges that segment into the one below or discards it, which is what
a nested transaction does when it commits or rolls back.

The items of all segments lie in one array, and a mark is the size of that array when the mark was
set.
-/

namespace Packrat

structure Segments (α : Type) where
  /-- Items of all segments, the bottom first. -/
  items : Array α
  /-- Where the segments start, the top segment first. The bottom segment has no mark. -/
  marks : List Nat
deriving DecidableEq, Repr

namespace Segments

variable {α : Type}

def empty : Segments α := ⟨#[], []⟩

instance : Inhabited (Segments α) := ⟨empty⟩

/-- Where the top segment starts. -/
def floor (s : Segments α) : Nat := s.marks.headD 0

def push (s : Segments α) (item : α) : Segments α := { s with items := s.items.push item }

def pushAll (s : Segments α) (items : List α) : Segments α :=
  { s with items := s.items ++ items.toArray }

/-- The last item of the top segment with the stack below it. -/
def pop? (s : Segments α) : Option (α × Segments α) :=
  if s.floor < s.items.size then
    s.items.back?.map fun item => (item, { s with items := s.items.pop })
  else none

/-- The items of the top segment in the order they were pushed, with the stack below them. -/
def popAll (s : Segments α) : List α × Segments α :=
  ((s.items.extract s.floor s.items.size).toList, { s with items := s.items.extract 0 s.floor })

/-- The items of the top segment in the order they were pushed. -/
def segment (s : Segments α) : List α := (s.items.extract s.floor s.items.size).toList

def peek? (s : Segments α) : Option α := s.segment.getLast?

/-- Changes the last item of the top segment, `none` if the segment is empty. -/
def modifyTop? (s : Segments α) (f : α → α) : Option (Segments α) :=
  s.pop?.map fun (item, s) => s.push (f item)

/-- Number of items in the top segment. -/
def size (s : Segments α) : Nat := s.items.size - s.floor

def isEmpty (s : Segments α) : Bool := s.size == 0

/-- The items of all segments, the bottom first. -/
def all (s : Segments α) : List α := s.items.toList

/-- Number of marks. -/
def depth (s : Segments α) : Nat := s.marks.length

/-- Opens an empty segment. -/
def mark (s : Segments α) : Segments α := { s with marks := s.items.size :: s.marks }

/-- Merges the top segment into the one below it, `none` without a mark. -/
def release? (s : Segments α) : Option (Segments α) :=
  match s.marks with
  | [] => none
  | _ :: marks => some { s with marks }

/-- Discards the top segment, `none` without a mark. -/
def reset? (s : Segments α) : Option (Segments α) :=
  match s.marks with
  | [] => none
  | floor :: marks => some { items := s.items.extract 0 floor, marks }

@[simp] theorem all_push (s : Segments α) (item : α) : (s.push item).all = s.all ++ [item] := by
  simp [push, all]

@[simp] theorem all_pushAll (s : Segments α) (items : List α) :
    (s.pushAll items).all = s.all ++ items := by
  simp [pushAll, all]

@[simp] theorem all_mark (s : Segments α) : s.mark.all = s.all := rfl

/-- The top segment is what lies above the innermost mark. -/
theorem segment_eq_drop (s : Segments α) : s.segment = s.all.drop s.floor := by
  simp [segment, all, List.take_of_length_le]

@[simp] theorem segment_mark (s : Segments α) : s.mark.segment = [] := by
  simp [mark, segment, floor]

@[simp] theorem release?_mark (s : Segments α) : s.mark.release? = some s := rfl

@[simp] theorem reset?_mark (s : Segments α) : s.mark.reset? = some s := by
  simp [mark, reset?]

end Segments

end Packrat
