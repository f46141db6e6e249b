import Packrat.Proofs.Charset
import Mathlib.Order.Interval.Set.UnorderedInterval

/-! # The members of a set of characters

A set of characters is a mathematical set: looking for a character by halving finds it exactly if one of the intervals
has it, and every operation makes the intervals of the set it is named after. A `Formula` says how a set was made, as
data, so that this is one statement about all sets that can be made.
-/

namespace Packrat

namespace Interval

variable {i j k : Interval}

theorem lo_le_of_le (ordered : i ≤ j) : i.lo ≤ j.lo := by
  rcases ordered with less | ⟨same, -⟩
  · exact less.le
  · exact same.le

protected theorem le_trans (first : i ≤ j) (second : j ≤ k) : i ≤ k := by
  rcases first with less | ⟨same, high⟩
  · exact .inl (less.trans_le (lo_le_of_le second))
  · rcases second with less' | ⟨same', high'⟩
    · exact .inl (same ▸ less')
    · exact .inr ⟨same.trans same', high.trans high'⟩

protected theorem le_total (i j : Interval) : i ≤ j ∨ j ≤ i := by
  rcases lt_trichotomy i.lo j.lo with less | same | greater
  · exact .inl (.inl less)
  · exact (le_total i.hi j.hi).imp (.inr ⟨same, ·⟩) (.inr ⟨same.symm, ·⟩)
  · exact .inr (.inl greater)

/-- Two characters in any order are the ends of the interval between them. -/
theorem mem_between (a b c : Char) : (between a b).lo ≤ c ∧ c ≤ (between a b).hi ↔ c ∈ Set.uIcc a b := by
  unfold between
  split
  · next ordered => rw [Set.uIcc_of_le ordered, Set.mem_Icc]
  · next other => rw [Set.uIcc_of_ge (le_of_not_ge other), Set.mem_Icc]

end Interval

namespace Charset

variable {i : Interval} {c next : Char} {intervals others rest : List Interval}

/-- One of the intervals has the character. -/
def Covers (intervals : List Interval) (c : Char) : Prop := ∃ i ∈ intervals, i.lo ≤ c ∧ c ≤ i.hi

@[simp] theorem covers_nil : ¬ Covers [] c := by
  simp [Covers]

@[simp] theorem covers_cons : Covers (i :: rest) c ↔ i.lo ≤ c ∧ c ≤ i.hi ∨ Covers rest c := by
  simp [Covers]

@[simp] theorem covers_append : Covers (intervals ++ others) c ↔ Covers intervals c ∨ Covers others c := by
  simp only [Covers, List.mem_append, or_and_right, exists_or]

theorem covers_of_perm (same : intervals.Perm others) : Covers intervals c ↔ Covers others c := by
  simp only [Covers, same.mem_iff]

/-- In a normal set each interval ends before the later ones begin. -/
theorem Normal.pairwise {s : Charset} (normal : s.Normal) :
    s.intervals.toList.Pairwise fun i j => i.hi < j.lo :=
  (Ascending.pairwise normal).imp Apart.lt

/-- Halving keeps the half with the interval that has the character. -/
private theorem search_of_mem {array : Array Interval} (ordered : ∀ j ∈ array.toList, j.Ordered)
    (sorted : array.toList.Pairwise fun i j => i.hi < j.lo) {k : Nat} (present : array[k]? = some i) (within : i.lo ≤ c ∧ c ≤ i.hi) {steps lo hi : Nat}
    (enough : hi ≤ lo + steps) (above : lo ≤ k) (below : k < hi) (inside : hi ≤ array.size) :
    search array c steps lo hi = true := by
  have apart {m n : Nat} {i j : Interval} (less : m < n) (first : array[m]? = some i) (second : array[n]? = some j) :
      i.hi < j.lo := by
    obtain ⟨small, rfl⟩ := Array.getElem?_eq_some_iff.mp first
    obtain ⟨small', rfl⟩ := Array.getElem?_eq_some_iff.mp second
    exact List.pairwise_iff_getElem.mp sorted m n small small' less
  induction steps generalizing lo hi with
  | zero => omega
  | succ steps ih =>
    rw [search, if_pos (by omega)]
    have middle : array[(lo + hi) / 2]? = some array[(lo + hi) / 2] := Array.getElem?_eq_getElem (by omega)
    simp only [middle]
    generalize array[(lo + hi) / 2] = j at middle
    -- The interval is behind the middle, before it, or in the middle.
    rcases Nat.lt_trichotomy ((lo + hi) / 2) k with less | rfl | greater
    · have before := apart less middle present
      rw [if_pos (before.trans_le within.1)]
      apply ih <;> omega
    · obtain rfl := Option.some.inj (middle.symm.trans present)
      rw [if_neg (not_lt.mpr within.2), if_neg (not_lt.mpr within.1)]
    · have behind := apart greater present middle
      have less := within.2.trans_lt behind
      have forth : j.lo ≤ j.hi := ordered j (Array.mem_toList_iff.mpr (Array.mem_of_getElem? middle))
      rw [if_neg (not_lt.mpr (less.le.trans forth)), if_pos less]
      apply ih <;> omega

/-- A character is found exactly if an interval has it. -/
theorem contains_iff_covers {s : Charset} (normal : s.Normal) :
    s.contains c = true ↔ Covers s.intervals.toList c := by
  constructor
  · exact exists_of_contains
  · rintro ⟨i, member, within⟩
    obtain ⟨k, present⟩ := List.mem_iff_getElem?.mp member
    have small := (List.getElem?_eq_some_iff.mp present).1
    rw [Array.getElem?_toList] at present
    exact search_of_mem normal.ordered normal.pairwise present within (by omega) (Nat.zero_le k) small le_rfl

/-- An interval that is raised to the end of one it touches has the characters of both. -/
theorem extend_covers {i j : Interval} (touching : touches i j = true) (ordered : i.lo ≤ j.lo) :
    (i.extend j).lo ≤ c ∧ c ≤ (i.extend j).hi ↔ i.lo ≤ c ∧ c ≤ i.hi ∨ j.lo ≤ c ∧ c ≤ j.hi := by
  have gapless (above : ¬ c ≤ i.hi) : j.lo ≤ c := by
    unfold touches at touching
    split at touching
    · next last => exact absurd (eq_lastChar_of_succ? last ▸ le_lastChar c) above
    · next behind =>
      have before : j.lo ≤ _ := of_decide_eq_true touching
      exact before.trans (not_lt.mp fun less => above (le_of_lt_succ? behind less))
  unfold Interval.extend
  split
  · next higher =>
    change i.lo ≤ c ∧ c ≤ j.hi ↔ _
    grind
  · next lower =>
    have := not_lt.mp lower
    grind

theorem covers_joinFrom (sorted : (i :: rest).Pairwise fun i j => i.lo ≤ j.lo) :
    Covers (joinFrom i rest) c ↔ Covers (i :: rest) c := by
  induction rest generalizing i with
  | nil => rfl
  | cons j rest ih =>
    obtain ⟨least, sorted'⟩ := List.pairwise_cons.mp sorted
    rw [joinFrom]
    split
    · next touching =>
      rw [ih, covers_cons, covers_cons, covers_cons, extend_covers touching (least j (List.mem_cons_self ..)), or_assoc]
      rw [List.pairwise_cons, i.extend_lo j]
      exact ⟨fun k member => least k (List.mem_cons_of_mem _ member), (List.pairwise_cons.mp sorted').2⟩
    · rw [covers_cons, ih sorted', ← covers_cons]

/-- Sorting and joining intervals keeps their characters. -/
theorem covers_ofIntervals : Covers (ofIntervals intervals).intervals.toList c ↔ Covers intervals c := by
  have sorted : (intervals.mergeSort fun i j => decide (i ≤ j)).Pairwise fun i j => decide (i ≤ j) = true :=
    List.pairwise_mergeSort (by simpa using fun i j k => Interval.le_trans) (by simpa using Interval.le_total) intervals
  have perm := List.mergeSort_perm intervals fun i j => decide (i ≤ j)
  rw [← covers_of_perm perm, ofIntervals]
  generalize intervals.mergeSort _ = ordered at sorted
  cases ordered with
  | nil => rfl
  | cons i rest => exact covers_joinFrom (sorted.imp fun before => Interval.lo_le_of_le (of_decide_eq_true before))

theorem le_iff_of_succ? {d : Char} (behind : succ? d = some next) : c ≤ d ↔ c < next :=
  ⟨fun low => low.trans_lt (lt_of_succ? behind), le_of_lt_succ? behind⟩

/-- A character from `next` on lies in a gap exactly if no interval has it. -/
theorem covers_gapsFrom (ascending : Ascending rest) (before : ∀ j ∈ rest.head?, next ≤ j.lo) :
    Covers (gapsFrom (some next) rest) c ↔ next ≤ c ∧ ¬ Covers rest c := by
  induction rest generalizing next with
  | nil =>
    rw [gapsFrom, Option.map_some, Option.toList_some, Interval.between_of_le (le_lastChar next)]
    simp [le_lastChar]
  | cons i rest ih =>
    have above := before i rfl
    -- The gaps behind the interval.
    have others : Covers (gapsFrom (succ? i.hi) rest) c ↔ i.hi < c ∧ ¬ Covers rest c := by
      rcases gapsFrom_succ? ascending.chain with ⟨last, rfl⟩ | ⟨next, behind, less⟩
      · have top := eq_lastChar_of_succ? last
        rw [last, gapsFrom, Option.map_none, Option.toList_none, top]
        simp [le_lastChar]
      · rw [behind, ih ascending.tail fun j member => (less j member).le, ← not_lt, ← le_iff_of_succ? behind, not_le]
    have between : i.lo ≤ i.hi := ascending.head
    rw [gapsFrom, covers_cons]
    split
    · next gap =>
      obtain ⟨last, back, forth⟩ := exists_pred? gap
      rw [back, Option.map_some, Option.toList_some, Interval.between_of_le (le_of_lt_succ? forth gap),
        List.singleton_append, covers_cons, others, le_iff_of_succ? forth]
      have early (low : c < i.lo) : ¬ Covers rest c := by
        rintro ⟨j, member, low', -⟩
        have behind : i.hi < j.lo := (ascending.apart member).lt
        exact absurd (low'.trans_lt low) (not_lt.mpr (between.trans behind.le))
      grind
    · rw [others]
      grind

theorem covers_inverse {s : Charset} (normal : s.Normal) :
    Covers s.inverse.intervals.toList c ↔ ¬ Covers s.intervals.toList c := by
  have least (d : Char) : Char.ofNat 0 ≤ d := Nat.zero_le d.toNat
  rw [inverse, covers_gapsFrom normal fun j _ => least j.lo, and_iff_right (least c)]

/-- How a set of characters is made. Intervals are given by two characters in any order. -/
inductive Formula where
  | empty
  | whole
  | ofBounds (bounds : List (Char × Char))
  | insert (set : Formula) (first last : Char)
  | insertChar (set : Formula) (c : Char)
  | union (left right : Formula)
  | inverse (set : Formula)
deriving Repr

namespace Formula

/-- The set that is made. -/
def build : Formula → Charset
  | empty => .empty
  | whole => .whole
  | ofBounds bounds => .ofIntervals (bounds.map fun b => .between b.1 b.2)
  | insert set first last => set.build.insert (.between first last)
  | insertChar set c => set.build.insert (.single c)
  | union left right => left.build.union right.build
  | inverse set => set.build.inverse

/-- The mathematical set that the formula denotes. A character is a code point that is not a surrogate. -/
def members : Formula → Set Char
  | empty => ∅
  | whole => Set.univ
  | ofBounds bounds => { c | ∃ b ∈ bounds, c ∈ Set.uIcc b.1 b.2 }
  | insert set first last => set.members ∪ Set.uIcc first last
  | insertChar set c => Insert.insert c set.members
  | union left right => left.members ∪ right.members
  | inverse set => set.membersᶜ

theorem normal_build (f : Formula) : f.build.Normal := by
  induction f with
  | empty => exact normal_empty
  | whole => exact ascending_singleton (Interval.ordered_between ..)
  | ofBounds bounds =>
    refine normal_ofIntervals fun i member => ?_
    obtain ⟨b, -, rfl⟩ := List.mem_map.mp member
    exact Interval.ordered_between ..
  | insert _ _ _ ih => exact normal_insert ih (Interval.ordered_between ..)
  | insertChar _ c ih => exact normal_insert ih (Interval.ordered_single c)
  | union _ _ ih ih' => exact normal_union ih ih'
  | inverse _ ih => exact normal_inverse ih

/-- The normal sets are those that can be made. -/
theorem normal_iff {s : Charset} : s.Normal ↔ ∃ f : Formula, f.build = s := by
  constructor
  · intro normal
    refine ⟨ofBounds (s.intervals.toList.map fun i => (i.lo, i.hi)), ?_⟩
    have same : (s.intervals.toList.map fun i => (i.lo, i.hi)).map (fun b => Interval.between b.1 b.2) =
        s.intervals.toList := by
      rw [List.map_map]
      exact (List.map_congr_left fun i member => Interval.between_of_le (normal.ordered i member)).trans (List.map_id _)
    rw [build, same, normal.ofIntervals_eq]
  · rintro ⟨f, rfl⟩
    exact f.normal_build

theorem covers_build (f : Formula) (c : Char) : Covers f.build.intervals.toList c ↔ c ∈ f.members := by
  induction f with
  | empty => simp [build, members, Charset.empty]
  | whole =>
    have least : Char.ofNat 0 ≤ c := Nat.zero_le c.toNat
    simp [build, members, Charset.whole, Interval.between_of_le (le_lastChar _), least, le_lastChar]
  | ofBounds bounds =>
    rw [build, covers_ofIntervals]
    simp [Covers, members, Interval.mem_between]
  | insert set first last ih =>
    rw [build, Charset.insert, covers_ofIntervals]
    simp [members, ih, Interval.mem_between]
  | insertChar set d ih =>
    rw [build, Charset.insert, covers_ofIntervals]
    simp [members, ih, Interval.single, ← le_antisymm_iff, or_comm, eq_comm]
  | union left right ih ih' =>
    rw [build, Charset.union, covers_ofIntervals, covers_append, ih, ih', members, Set.mem_union]
  | inverse set ih => rw [build, covers_inverse set.normal_build, ih, members, Set.mem_compl_iff]

/-- However a set is made, looking for a character by halving tells whether it is a member. -/
theorem contains_iff_mem (f : Formula) (c : Char) : f.build.contains c = true ↔ c ∈ f.members := by
  rw [contains_iff_covers f.normal_build, covers_build]

/-- The gap left by the surrogates does not keep intervals apart, and no gap is left behind the last character. -/
example : ((ofBounds [('\uE000', '\uE100'), ('\uD7FF', '\uD000')]).inverse.build.contains '\uE000',
    (inverse whole).build.contains lastChar, (inverse empty).build.contains lastChar) = (false, false, true) := by
  cbv

end Formula

end Charset

end Packrat
