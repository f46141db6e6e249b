import Packrat.Proofs.Segments
import Packrat.Segments.Operation
import Mathlib.Data.List.Basic

/-! # A stack in segments is a stack of segments

Marks cut one array into segments. `Layers` holds the segments apart, as a list that is never empty, and `Layers.stack`
lays them out in an array. Every operation is answered by the array as it is by the list, and leaves the array laid out
as the list is. So what happens inside a scope happens above the segments that were there when the scope was opened, and
closing it brings these back, with the changes of the scope or without them.
-/

namespace Packrat

/-- Segments of items, of which there is always one. -/
structure Layers (α : Type) where
  /-- The last segment, its items in the order they were pushed. -/
  top : List α
  /-- The segments before it, the nearest first. -/
  below : List (List α)
deriving DecidableEq, Repr

namespace Layers

open Segments.Operation (runAll)

variable {α : Type}

/-- One segment without items. -/
def single : Layers α := ⟨[], []⟩

/-- The items of segments that are listed from the last one on. -/
def laidOut (segments : List (List α)) : List α := segments.reverse.flatten

def all (l : Layers α) : List α := laidOut (l.top :: l.below)

def pushAll (l : Layers α) (items : List α) : Layers α := { l with top := l.top ++ items }

/-- Opens a segment without items. -/
def mark (l : Layers α) : Layers α := ⟨[], l.top :: l.below⟩

/-- Puts the last segment behind the one before it. -/
def release? (l : Layers α) : Option (Layers α) :=
  match l.below with
  | [] => none
  | segment :: below => some ⟨segment ++ l.top, below⟩

/-- Drops the last segment. -/
def reset? (l : Layers α) : Option (Layers α) :=
  match l.below with
  | [] => none
  | segment :: below => some ⟨segment, below⟩

/-- Does an operation, and answers it. All but the operations on marks, `all`, `depth` and `clear` read and change the
last segment alone. -/
def perform (operation : Segments.Operation α) (l : Layers α) : Segments.Answer α × Layers α :=
  match operation with
  | .push item => (.nothing, l.pushAll [item])
  | .pushAll items | .load items => (.nothing, l.pushAll items)
  | .pop => (.item l.top.getLast?, { l with top := l.top.dropLast })
  | .popAll => (.items l.top, { l with top := [] })
  | .peek => (.item l.top.getLast?, l)
  | .modifyTop change =>
    (.item l.top.getLast?, { l with top := l.top.dropLast ++ (l.top.getLast?.map change).toList })
  | .segment | .snapshot => (.items l.top, l)
  | .size => (.number l.top.length, l)
  | .isEmpty => (.flag l.top.isEmpty, l)
  | .all => (.items l.all, l)
  | .depth => (.number l.below.length, l)
  | .mark | .start => (.nothing, l.mark)
  | .release => (.flag l.release?.isSome, l.release?.getD l)
  | .reset => (.flag l.reset?.isSome, l.reset?.getD l)
  | .clear => (.nothing, single)
  | .commit => (.nothing, l.release?.getD l)
  | .rollback => (.nothing, l.reset?.getD l)
  | .save => (.saved (some l.top), l)

/-- The marks of segments that are listed from the last one on: each segment starts where those before it end. -/
def marks : List (List α) → List Nat
  | [] => []
  | segment :: below => (laidOut (segment :: below)).length :: marks below

/-- The segments one after the other. -/
def stack (l : Layers α) : Segments α := ⟨l.all.toArray, marks l.below⟩

variable {l : Layers α}

@[simp] theorem laidOut_cons (segment : List α) (below : List (List α)) :
    laidOut (segment :: below) = laidOut below ++ segment := by
  simp [laidOut]

@[simp] theorem stack_single : (single : Layers α).stack = .empty := rfl

@[simp] theorem all_stack (l : Layers α) : l.stack.all = laidOut l.below ++ l.top := laidOut_cons l.top l.below

@[simp] theorem depth_stack (l : Layers α) : l.stack.depth = l.below.length := by
  change (marks l.below).length = l.below.length
  induction l.below with
  | nil => rfl
  | cons segment below ih => rw [marks, List.length_cons, ih, List.length_cons]

@[simp] theorem floor_stack (l : Layers α) : l.stack.floor = (laidOut l.below).length := by
  obtain ⟨top, below⟩ := l
  cases below <;> rfl

@[simp] theorem items_stack (l : Layers α) : l.stack.items = (laidOut l.below ++ l.top).toArray :=
  congrArg List.toArray (laidOut_cons l.top l.below)

@[simp] theorem segment_stack (l : Layers α) : l.stack.segment = l.top := by
  rw [Segments.segment_eq_drop, all_stack, floor_stack, List.drop_left]

theorem le_of_mem_marks {below : List (List α)} {place : Nat} (member : place ∈ marks below) :
    place ≤ (laidOut below).length := by
  induction below with
  | nil => cases member
  | cons segment below ih =>
    rcases List.mem_cons.mp member with rfl | deeper
    · exact Nat.le_refl _
    · rw [laidOut_cons, List.length_append]
      exact Nat.le_add_right_of_le (ih deeper)

/-- Marks stand one above the other, within the items. -/
theorem ordered_stack (l : Layers α) : l.stack.Ordered := by
  have sorted (below : List (List α)) : (marks below).Pairwise (· ≥ ·) := by
    induction below with
    | nil => exact List.Pairwise.nil
    | cons segment below ih =>
      refine List.pairwise_cons.mpr ⟨fun place member => ?_, ih⟩
      rw [laidOut_cons, List.length_append]
      exact Nat.le_add_right_of_le (le_of_mem_marks member)
  refine List.pairwise_cons.mpr ⟨fun place member => ?_, sorted l.below⟩
  rw [items_stack, List.size_toArray, List.length_append]
  exact Nat.le_add_right_of_le (le_of_mem_marks member)

@[simp] theorem pushAll_stack (l : Layers α) (items : List α) : l.stack.pushAll items = (l.pushAll items).stack := by
  simp [Segments.pushAll, pushAll, stack, all]

@[simp] theorem push_stack (l : Layers α) (item : α) : l.stack.push item = (l.pushAll [item]).stack := by
  simp [Segments.push, pushAll, stack, all]

@[simp] theorem mark_stack (l : Layers α) : l.stack.mark = l.mark.stack := by
  simp [Segments.mark, mark, stack, all, marks]

@[simp] theorem release?_stack (l : Layers α) : l.stack.release? = l.release?.map stack := by
  obtain ⟨top, below⟩ := l
  cases below with
  | nil => rfl
  | cons segment below => simp [Segments.release?, release?, stack, all, marks]

@[simp] theorem reset?_stack (l : Layers α) : l.stack.reset? = l.reset?.map stack := by
  obtain ⟨top, below⟩ := l
  cases below with
  | nil => rfl
  | cons segment below =>
    have kept : (laidOut (segment :: below) ++ top).take (laidOut (segment :: below)).length = laidOut (segment :: below) :=
      List.take_left
    simpa [Segments.reset?, reset?, stack, all, marks] using kept

@[simp] theorem popAll_stack (l : Layers α) : l.stack.popAll = (l.top, { l with top := [] }.stack) := by
  refine Prod.ext l.segment_stack ?_
  rw [Segments.popAll, floor_stack, items_stack]
  simp [stack, all]

theorem pop?_stack (l : Layers α) :
    l.stack.pop? = l.top.getLast?.map fun item => (item, { l with top := l.top.dropLast }.stack) := by
  obtain ⟨top, below⟩ := l
  rcases List.eq_nil_or_concat' top with rfl | ⟨items, item, rfl⟩
  · simp [Segments.pop?]
  · have bare : (⟨[], below⟩ : Layers α).stack.pushAll items = (⟨items, below⟩ : Layers α).stack := by
      rw [pushAll_stack]
      rfl
    have pushed : (⟨[], below⟩ : Layers α).stack.pushAll (items ++ [item]) = (⟨items ++ [item], below⟩ : Layers α).stack := by
      rw [pushAll_stack]
      rfl
    rw [← pushed, Segments.pop?_pushAll_concat (ordered_stack _).floor_le, bare]
    simp

theorem modifyTop?_stack (change : α → α) (l : Layers α) : (l.stack.modifyTop? change).getD l.stack =
    { l with top := l.top.dropLast ++ (l.top.getLast?.map change).toList }.stack := by
  rw [Segments.modifyTop?, pop?_stack]
  obtain ⟨top, below⟩ := l
  cases last : top.getLast? with
  | none =>
    rw [List.getLast?_eq_none_iff.mp last]
    rfl
  | some item => simp [pushAll]

/-- An operation on the array is answered as on the list of segments, and leaves the array laid out as the list is. -/
theorem perform_stack (operation : Segments.Operation α) (l : Layers α) :
    l.stack.perform operation = ((l.perform operation).1, (l.perform operation).2.stack) := by
  have peeked : l.stack.peek? = l.top.getLast? := by rw [Segments.peek?, segment_stack]
  have size : l.stack.size = l.top.length := by simp [Segments.size]
  cases operation with
  | pop =>
    rw [Segments.perform, pop?_stack]
    cases last : l.top.getLast? with
    | none =>
      obtain ⟨top, below⟩ := l
      obtain rfl := List.getLast?_eq_none_iff.mp last
      rfl
    | some item => simp [perform, last]
  | modifyTop change => simp only [Segments.perform, perform, peeked, modifyTop?_stack]
  | peek => simp only [Segments.perform, perform, peeked]
  | size => simp only [Segments.perform, perform, size]
  | isEmpty => cases top : l.top <;> simp [Segments.perform, perform, Segments.isEmpty, size, top]
  | all => simp [Segments.perform, perform, all]
  | _ => simp [Segments.perform, perform, Segments.transaction, Segments.commit, Segments.rollback, Option.getD_map]

theorem runAll_stack (operations : List (Segments.Operation α)) (l : Layers α) :
    runAll Segments.perform operations l.stack =
      ((runAll perform operations l).1, (runAll perform operations l).2.stack) := by
  induction operations generalizing l with
  | nil => rfl
  | cons operation rest ih => simp only [runAll, perform_stack, ih]

/-- `inner` segments were opened since `base`, and are still open. -/
def Above (base : Layers α) (inner : Nat) (l : Layers α) : Prop :=
  ∃ segments, segments.length = inner ∧ l.below = segments ++ base.top :: base.below

variable {base : Layers α} {inner : Nat}

theorem above_mark (base : Layers α) : base.Above 0 base.mark := ⟨[], rfl, rfl⟩

/-- Closing the last of several segments leaves the others open. -/
theorem Above.close {l' : Layers α} (above : base.Above (inner + 1) l) (closed : l'.below = l.below.tail) :
    base.Above inner l' := by
  obtain ⟨segments, open', below⟩ := above
  obtain ⟨segment, others, rfl⟩ := List.exists_cons_of_length_eq_add_one open'
  refine ⟨others, Nat.succ.inj open', ?_⟩
  rw [closed, below]
  rfl

/-- What is done inside a scope is done above the segments from before it. -/
theorem Above.perform {operation : Segments.Operation α} {inner' : Nat} (above : base.Above inner l)
    (within : operation.inside? inner = some inner') : base.Above inner' (l.perform operation).2 := by
  have opened : base.Above (inner + 1) l.mark := by
    obtain ⟨segments, open', below⟩ := above
    exact ⟨l.top :: segments, congrArg (· + 1) open', congrArg (l.top :: ·) below⟩
  have released : (l.release?.getD l).below = l.below.tail := by
    unfold release?
    split <;> simp_all
  have dropped : (l.reset?.getD l).below = l.below.tail := by
    unfold reset?
    split <;> simp_all
  cases operation with
  | clear => cases within
  | mark | start =>
    cases within
    exact opened
  | release | commit =>
    cases inner with
    | zero => cases within
    | succ => cases within; exact above.close released
  | reset | rollback =>
    cases inner with
    | zero => cases within
    | succ => cases within; exact above.close dropped
  | _ =>
    cases within
    exact above

theorem Above.runAll {work : List (Segments.Operation α)} {inner' : Nat} (above : base.Above inner l)
    (within : work.foldlM Segments.Operation.inside? inner = some inner') :
    base.Above inner' (Segments.Operation.runAll Layers.perform work l).2 := by
  induction work generalizing l inner with
  | nil =>
    cases within
    exact above
  | cons operation rest ih =>
    obtain ⟨between, first, later⟩ := Option.bind_eq_some_iff.mp within
    exact ih (above.perform first) later

theorem Above.reset (above : base.Above 0 l) : l.reset?.getD l = base := by
  obtain ⟨segments, none, below⟩ := above
  obtain rfl := List.length_eq_zero_iff.mp none
  rw [reset?, below]
  rfl

theorem Above.release (above : base.Above 0 l) : l.release?.getD l = base.pushAll l.top := by
  obtain ⟨segments, none, below⟩ := above
  obtain rfl := List.length_eq_zero_iff.mp none
  rw [release?, below]
  rfl

/-- Rolling back all scopes opened since leads back. -/
theorem Above.rollback (above : base.Above inner l) :
    (Segments.Operation.runAll Layers.perform (List.replicate (inner + 1) .rollback) l).2 = base := by
  induction inner generalizing l with
  | zero => exact above.reset
  | succ inner ih =>
    have outer : base.Above inner (l.perform .rollback).2 := above.perform rfl
    exact ih outer

end Layers

namespace Segments

open Operation

variable {α σ : Type}

theorem Operation.runAll_append (perform : Operation α → σ → Answer α × σ) (first second : List (Operation α)) (s : σ) :
    runAll perform (first ++ second) s =
      ((runAll perform first s).1 ++ (runAll perform second (runAll perform first s).2).1,
        (runAll perform second (runAll perform first s).2).2) := by
  induction first generalizing s with
  | nil => rfl
  | cons operation rest ih => simp only [List.cons_append, runAll, ih]

/-- A stack in segments is a stack of segments: whatever is asked of it, it answers as `Layers` does and is the array
that these are laid out in, with its marks in order and within the items, so that no slice begins behind the end. What
is done in a scope without closing it is undone by rolling back all scopes opened since; and if only the scope itself is
left open, its changes saved, rolled back and loaded again are its changes committed. -/
theorem runs_as_layers (operations : List (Operation α)) :
    let s := (runAll perform operations empty).2
    runAll perform operations empty =
      ((runAll Layers.perform operations .single).1, (runAll Layers.perform operations .single).2.stack) ∧
    s.Ordered ∧
    ∀ work inner, work.foldlM inside? 0 = some inner →
      (runAll perform (.start :: work ++ List.replicate (inner + 1) .rollback) s).2 = s ∧
      (inner = 0 → ∃ answers changes within,
        runAll perform (.start :: work ++ [.save]) s = (answers ++ [.saved (some changes)], within) ∧
        (runAll perform [.rollback, .load changes] within).2 = (runAll perform (.start :: work ++ [.commit]) s).2) := by
  have laid := Layers.runAll_stack operations .single
  rw [Layers.stack_single] at laid
  generalize (runAll Layers.perform operations .single).2 = base at laid
  intro s
  have same : s = base.stack := congrArg Prod.snd laid
  refine ⟨laid, same ▸ base.ordered_stack, fun work inner within => ?_⟩
  have above := (Layers.above_mark base).runAll within
  -- The work as the list of segments sees it.
  have worked : runAll perform (.start :: work) s = ((runAll Layers.perform (.start :: work) base).1,
      (runAll Layers.perform work base.mark).2.stack) := by
    rw [same, Layers.runAll_stack]
    rfl
  generalize (runAll Layers.perform work base.mark).2 = l at above worked
  refine ⟨?_, ?_⟩
  · rw [runAll_append, worked, Layers.runAll_stack, above.rollback, same]
  · rintro rfl
    refine ⟨(runAll Layers.perform (.start :: work) base).1, l.top, l.stack, ?_, ?_⟩
    · rw [runAll_append, worked, Layers.runAll_stack]
      rfl
    · have reloaded : (runAll Layers.perform [.rollback, .load l.top] l).2 = base.pushAll l.top :=
        congrArg (·.pushAll l.top) above.reset
      have committed : (runAll Layers.perform [.commit] l).2 = base.pushAll l.top := above.release
      rw [runAll_append, worked, Layers.runAll_stack, Layers.runAll_stack, reloaded, committed]

end Segments

namespace Sample

open Segments.Operation (runAll inside?)
open Segments (perform)

/-- Two items, and a third one in a segment of its own. -/
def threeDeep : List (Segments.Operation Nat) := [.pushAll [1, 2], .mark, .push 3]

/-- Finds nothing to pop, changes an item of its own, and has one inner scope committed and one taken back. -/
def restless : List (Segments.Operation Nat) :=
  [.pop, .push 3, .modifyTop (· + 1), .start, .push 5, .commit, .start, .push 6, .rollback]

theorem restless_undone :
    restless.foldlM inside? 0 = some 0 ∧
    (runAll perform threeDeep .empty).2 = ⟨#[1, 2, 3], [2]⟩ ∧
    (runAll perform (.start :: restless ++ [.rollback]) ⟨#[1, 2, 3], [2]⟩).2 = ⟨#[1, 2, 3], [2]⟩ ∧
    (runAll perform (.start :: restless ++ [.commit]) ⟨#[1, 2, 3], [2]⟩).2 = ⟨#[1, 2, 3, 4, 5], [2]⟩ ∧
    ∃ answers changes within,
      runAll perform (.start :: restless ++ [.save]) (runAll perform threeDeep .empty).2 =
        (answers ++ [.saved (some changes)], within) ∧
      (runAll perform [.rollback, .load changes] within).2 =
        (runAll perform (.start :: restless ++ [.commit]) (runAll perform threeDeep .empty).2).2 :=
  ⟨by decide, by decide, by decide, by decide,
    ((Segments.runs_as_layers threeDeep).2.2 restless 0 (by decide)).2 rfl⟩

end Sample

end Packrat
