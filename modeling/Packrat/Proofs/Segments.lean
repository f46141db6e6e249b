import Packrat.Recognition.Transaction
import Packrat.Recognition.Handlers

/-! # Changes of a stack in segments

What is pushed in a scope is its segment: committing the scope appends it to the stack as it was before,
rolling back leaves that stack. A local handler replaces the segment by one that depends on the segment
and the matched text alone.
-/

namespace Packrat

namespace Segments

variable {α : Type} (s : Segments α) (items more : List α)

@[simp] theorem pushAll_nil : s.pushAll [] = s := by
  simp [pushAll]

@[simp] theorem pushAll_pushAll : (s.pushAll items).pushAll more = s.pushAll (items ++ more) := by
  simp [pushAll]

theorem pushAll_inj {s : Segments α} {items more : List α} (same : s.pushAll items = s.pushAll more) :
    items = more := by
  have all := congrArg Segments.all same
  rw [all_pushAll, all_pushAll] at all
  exact List.append_cancel_left all

@[simp] theorem commit_pushAll_mark : (s.mark.pushAll items).commit = s.pushAll items := rfl

@[simp] theorem rollback_pushAll_mark : (s.mark.pushAll items).rollback = s := by
  simp [rollback, reset?, pushAll, mark]

@[simp] theorem segment_pushAll_mark : (s.mark.pushAll items).segment = items := by
  simp [segment_eq_drop, all, pushAll, mark, floor]

@[simp] theorem popAll_pushAll_mark : (s.mark.pushAll items).popAll.2 = s.mark := by
  simp [popAll, pushAll, mark, floor]

theorem pop?_pushAll_concat {s : Segments α} {items : List α} {item : α} (within : s.floor ≤ s.all.length) :
    (s.pushAll (items ++ [item])).pop? = some (item, s.pushAll items) := by
  have above : (s.pushAll (items ++ [item])).floor < (s.pushAll (items ++ [item])).items.size := by
    simp only [all, Array.length_toList] at within
    simp only [pushAll, floor, Array.size_append, List.size_toArray, List.length_append, List.length_singleton] at within ⊢
    omega
  have split : (s.pushAll (items ++ [item])).items = (s.pushAll items).items.push item := by
    simp [pushAll]
  rw [pop?, if_pos above, split, Array.back?_push, Option.map_some, Array.pop_push]
  rfl

/-- The top segment put back is the stack as it was, and then there may be more. -/
theorem popAll_pushAll_segment (within : s.floor ≤ s.items.size) :
    s.popAll.2.pushAll (s.segment ++ more) = s.pushAll more := by
  have back : s.popAll.2.pushAll s.segment = s := by
    simp only [popAll, pushAll, segment, Array.toArray_toList, Array.extract_append_extract, Nat.zero_min,
      Nat.max_eq_right within, Array.extract_size]
  rw [← pushAll_pushAll, back]

theorem floor_pushAll_mark_le : (s.mark.pushAll items).floor ≤ (s.mark.pushAll items).items.size := by
  simp [pushAll, mark, floor]

section

variable {α : Type} {s s' : Segments α} {items : List α}

/-- The marks lie within the stack, one above the other. -/
def Ordered (s : Segments α) : Prop := (s.items.size :: s.marks).Pairwise (· ≥ ·)

theorem Ordered.mark_le (ordered : s.Ordered) {m : Nat} (member : m ∈ s.marks) : m ≤ s.floor := by
  unfold Ordered floor at *
  cases marks : s.marks with
  | nil => simp [marks] at member
  | cons top rest =>
    rw [marks] at ordered member
    rcases List.mem_cons.mp member with rfl | member
    · exact Nat.le_refl _
    · exact (List.pairwise_cons.mp (List.pairwise_cons.mp ordered).2).1 m member

theorem Ordered.floor_le (ordered : s.Ordered) : s.floor ≤ s.all.length := by
  unfold Ordered floor all at *
  cases marks : s.marks with
  | nil => exact Nat.zero_le _
  | cons top rest =>
    rw [marks] at ordered
    exact (List.pairwise_cons.mp ordered).1 top (List.mem_cons_self ..)

/-- `items` are taken from the end of the top segment. -/
structure Takes (s : Segments α) (items : List α) (s' : Segments α) : Prop where
  marks : s'.marks = s.marks
  all : s.all = s'.all ++ items
  floor : s.floor ≤ s'.all.length

theorem Takes.nothing (ordered : s.Ordered) : s.Takes [] s :=
  ⟨rfl, (List.append_nil _).symm, ordered.floor_le⟩

theorem Takes.pop {item : α} (popped : s.pop? = some (item, s')) : s.Takes [item] s' := by
  unfold pop? at popped
  split at popped
  · next above =>
    obtain ⟨last, top, same⟩ := Option.map_eq_some_iff.mp popped
    cases same
    have some : s.items.toList ≠ [] := by
      rw [← List.length_pos_iff, Array.length_toList]
      omega
    refine ⟨rfl, ?_, ?_⟩
    · have ends : s.items.toList.getLast some = item := by
        rw [← Option.some.injEq, ← List.getLast?_eq_some_getLast, ← top, Array.getLast?_toList]
      simp only [Segments.all, Array.toList_pop, ← ends]
      exact (List.dropLast_concat_getLast some).symm
    · simp only [Segments.all, Array.length_toList, Array.size_pop]
      omega
  · cases popped

theorem Takes.popAll (ordered : s.Ordered) : s.Takes s.popAll.1 s.popAll.2 := by
  have within := ordered.floor_le
  refine ⟨rfl, ?_, ?_⟩
  · have bottom : s.popAll.2.all = s.all.take s.floor := by simp [Segments.popAll, Segments.all]
    have top : s.popAll.1 = s.all.drop s.floor := segment_eq_drop s
    rw [bottom, top, List.take_append_drop]
  · simp only [Segments.popAll, Segments.all, Array.toList_extract, List.extract_eq_take_drop, List.length_take,
      List.length_drop, Array.length_toList] at within ⊢
    omega

/-- What is below the top segment stays as it is. -/
theorem Takes.below (takes : s.Takes items s') {m : Nat} (low : m ≤ s.floor) : s'.all.take m = s.all.take m := by
  have := takes.floor
  rw [takes.all, List.take_append_of_le_length (by omega)]

theorem Takes.ordered (takes : s.Takes items s') (ordered : s.Ordered) : s'.Ordered := by
  refine List.pairwise_cons.mpr ⟨fun m member => ?_, ?_⟩
  · have := ordered.mark_le (takes.marks ▸ member)
    have := takes.floor
    rw [Segments.all, Array.length_toList] at this
    omega
  · rw [takes.marks]
    exact (List.pairwise_cons.mp ordered).2

theorem Ordered.push (ordered : s.Ordered) (item : α) : (s.push item).Ordered := by
  obtain ⟨within, sorted⟩ := List.pairwise_cons.mp ordered
  refine List.pairwise_cons.mpr ⟨fun m member => ?_, sorted⟩
  have := within m member
  simp only [Segments.push, Array.size_push]
  omega

end

end Segments

/-- The handlers do to the top segment what `effect` says, and nothing else; actions without a handler accept it. -/
structure Handlers.Local {α : Type} (handlers : Handlers (Segments α))
    (effect : String → Context → List α → Except String Bool × List α) : Prop where
  handled : ∀ {name handler}, handlers.find? name = some handler → ∀ context s, s.floor ≤ s.items.size →
    handler context s = ((effect name context s.segment).1, s.popAll.2.pushAll (effect name context s.segment).2)
  unhandled : ∀ {name}, handlers.find? name = none → ∀ context items, effect name context items = (.ok true, items)

end Packrat
