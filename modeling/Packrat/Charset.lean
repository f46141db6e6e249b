import Packrat.Text.Escape

/-! # Sets of characters

A set is a sorted array of disjoint intervals. Intervals that overlap or touch are joined, where
the last character before the surrogate code points touches the first one behind them, so that a
set of characters has one representation. That holds of intervals whose bounds are in order: others
are kept as they are given and have no members.
-/

namespace Packrat

/-- The characters from `lo` to `hi`, both included. There are none if `hi` comes before `lo`. -/
structure Interval where
  lo : Char
  hi : Char
deriving DecidableEq, Repr

namespace Interval

/-- The interval between two characters given in any order. -/
def between (a b : Char) : Interval := if a ≤ b then ⟨a, b⟩ else ⟨b, a⟩

def single (c : Char) : Interval := ⟨c, c⟩

def contains (i : Interval) (c : Char) : Bool := i.lo ≤ c && c ≤ i.hi

theorem contains_iff (i : Interval) (c : Char) : i.contains c = true ↔ i.lo ≤ c ∧ c ≤ i.hi := by
  unfold contains
  rw [Bool.and_eq_true]
  exact and_congr ⟨of_decide_eq_true, decide_eq_true⟩ ⟨of_decide_eq_true, decide_eq_true⟩

theorem contains_single (c d : Char) : (single c).contains d = true ↔ d = c := by
  rw [contains_iff]
  exact ⟨fun within => Char.le_antisymm within.2 within.1,
    fun same => same ▸ ⟨Char.le_refl _, Char.le_refl _⟩⟩

/-- Intervals are ordered by their lower, then by their upper bound. -/
instance : LE Interval := ⟨fun i j => i.lo < j.lo ∨ i.lo = j.lo ∧ i.hi ≤ j.hi⟩

instance (i j : Interval) : Decidable (i ≤ j) :=
  inferInstanceAs (Decidable (_ ∨ _))

/-- Raises the upper bound to that of `other` if that one is higher. -/
def extend (i other : Interval) : Interval :=
  if i.hi < other.hi then ⟨i.lo, other.hi⟩ else i

private def quoted (c : Char) : String :=
  "'" ++ String.ofList (Escape.char '\'' c) ++ "'"

/-- `'a'` or `'a'-'z'`. -/
def text (i : Interval) : String :=
  if i.lo = i.hi then quoted i.lo else quoted i.lo ++ "-" ++ quoted i.hi

end Interval

/-- A set of characters as disjoint intervals in ascending order. -/
structure Charset where
  intervals : Array Interval
deriving DecidableEq, Repr

namespace Charset

/-- The last character. -/
def lastChar : Char := Char.ofNat 0x10FFFF

/-- The character behind `c`, passing over the surrogates. -/
def succ? (c : Char) : Option Char :=
  if c.toNat = 0xD7FF then some (Char.ofNat 0xE000)
  else if c.toNat < 0x10FFFF then some (Char.ofNat (c.toNat + 1))
  else none

/-- The character before `c`, passing over the surrogates. -/
def pred? (c : Char) : Option Char :=
  if c.toNat = 0 then none
  else if c.toNat = 0xE000 then some (Char.ofNat 0xD7FF)
  else some (Char.ofNat (c.toNat - 1))

def empty : Charset := ⟨#[]⟩

instance : Inhabited Charset := ⟨empty⟩

/-- The set of all characters. -/
def whole : Charset := ⟨#[.between (Char.ofNat 0) lastChar]⟩

/-- Nothing lies between the end of `i` and the start of `j`. -/
def touches (i j : Interval) : Bool :=
  match succ? i.hi with
  | none => true
  | some next => j.lo ≤ next

/-- Joins intervals in ascending order that overlap or touch, from `current` on. -/
def joinFrom (current : Interval) : List Interval → List Interval
  | [] => [current]
  | i :: rest =>
    if touches current i then joinFrom (current.extend i) rest else current :: joinFrom i rest

def join : List Interval → List Interval
  | [] => []
  | i :: rest => joinFrom i rest

/-- The set of the characters of all `intervals`. -/
def ofIntervals (intervals : List Interval) : Charset :=
  ⟨(join (intervals.mergeSort fun i j => decide (i ≤ j))).toArray⟩

def insert (s : Charset) (i : Interval) : Charset := ofIntervals (s.intervals.toList ++ [i])

def union (s t : Charset) : Charset := ofIntervals (s.intervals.toList ++ t.intervals.toList)

/-- The gaps between intervals in ascending order, from the character `next` on. -/
def gapsFrom (next : Option Char) : List Interval → List Interval
  | [] => (next.map fun lo => Interval.between lo lastChar).toList
  | i :: rest =>
    match next with
    | none => gapsFrom (succ? i.hi) rest
    | some lo =>
      if lo < i.lo then
        ((pred? i.lo).map (Interval.between lo)).toList ++ gapsFrom (succ? i.hi) rest
      else gapsFrom (succ? i.hi) rest

/-- All other characters. -/
def inverse (s : Charset) : Charset :=
  ⟨(gapsFrom (some (Char.ofNat 0)) s.intervals.toList).toArray⟩

/-- Looks for an interval that contains `c` between the indices `lo` and `hi` by halving, at most
`steps` times. -/
def search (intervals : Array Interval) (c : Char) : (steps lo hi : Nat) → Bool
  | 0, _, _ => false
  | steps + 1, lo, hi =>
    if lo < hi then
      let middle := (lo + hi) / 2
      match intervals[middle]? with
      | none => false
      | some i =>
        if i.hi < c then search intervals c steps (middle + 1) hi
        else if c < i.lo then search intervals c steps lo middle
        else true
    else false

def contains (s : Charset) (c : Char) : Bool :=
  search s.intervals c s.intervals.size 0 s.intervals.size

def size (s : Charset) : Nat := s.intervals.size

def isEmpty (s : Charset) : Bool := s.size == 0

def isWhole (s : Charset) : Bool := decide (s = whole)

/-- The only character of a set that has one. -/
def single? (s : Charset) : Option Char :=
  match s.intervals.toList with
  | [i] => if i.lo = i.hi then some i.lo else none
  | _ => none

private def listed (s : Charset) : String :=
  "[" ++ ", ".intercalate (s.intervals.toList.map Interval.text) ++ "]"

/-- The intervals in brackets. A set with the last character is written as the inverse of its
complement. -/
def text (s : Charset) : String :=
  match s.intervals.back? with
  | some i => if i.hi = lastChar then "[~" ++ listed s.inverse ++ "]" else listed s
  | none => listed s

/-- The set with the code points of `ranges`, which are given in ascending order, disjoint and
without surrogates. -/
def ofRanges (ranges : List (Nat × Nat)) : Charset :=
  ⟨(ranges.map fun (lo, hi) => Interval.between (Char.ofNat lo) (Char.ofNat hi)).toArray⟩

end Charset

end Packrat
