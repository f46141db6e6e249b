import Packrat.Charset
import Mathlib.Data.Char
import Mathlib.Data.List.Chain

/-! # Normal sets

The intervals of a normal set have their bounds in order and are in ascending order with a gap between any two of them.
All operations on such intervals answer normal sets, putting an interval behind the others just adds it, and the inverse
of the inverse of a normal set is the set. So a normal set can be told from its intervals, listed one after the other or
as the gaps of its inverse.
-/

namespace Packrat

namespace Interval

/-- The bounds are in order. -/
def Ordered (i : Interval) : Prop := i.lo ≤ i.hi

instance (i : Interval) : Decidable i.Ordered :=
  inferInstanceAs (Decidable (_ ≤ _))

theorem ordered_single (c : Char) : (single c).Ordered := Char.le_refl c

theorem between_of_le {lo hi : Char} (ordered : lo ≤ hi) : between lo hi = ⟨lo, hi⟩ := if_pos ordered

theorem ordered_between (a b : Char) : (between a b).Ordered := by
  unfold between
  split
  · next ordered => exact ordered
  · next other => exact (Char.le_total a b).resolve_left other

theorem extend_lo (i j : Interval) : (i.extend j).lo = i.lo := by
  unfold extend
  split <;> rfl

theorem Ordered.extend {i : Interval} (ordered : i.Ordered) (j : Interval) : (i.extend j).Ordered := by
  unfold Interval.extend
  split
  · next higher => exact le_trans ordered (le_of_lt higher)
  · exact ordered

end Interval

namespace Charset

variable {i j : Interval} {c d e : Char}

private theorem valid (c : Char) : c.toNat < 0xD800 ∨ 0xDFFF < c.toNat ∧ c.toNat < 0x110000 := c.valid

private theorem toNat_ofNat {n : Nat} (inside : n < 0xD800 ∨ 0xDFFF < n ∧ n < 0x110000) : (Char.ofNat n).toNat = n := by
  rw [Char.ofNat, dif_pos (show n.isValidChar from inside)]
  rfl

private theorem lt_iff : c < d ↔ c.toNat < d.toNat := Iff.rfl

private theorem le_iff : c ≤ d ↔ c.toNat ≤ d.toNat := Iff.rfl

private theorem succ?_eq_some : succ? c = some d ↔
    d.toNat = if c.toNat = 0xD7FF then 0xE000 else c.toNat + 1 := by
  have := valid c
  have bound := valid d
  have number {n : Nat} (inside : n < 0xD800 ∨ 0xDFFF < n ∧ n < 0x110000) : Char.ofNat n = d ↔ d.toNat = n := by
    rw [← Char.toNat_inj, toNat_ofNat inside, eq_comm]
  unfold succ?
  split
  · rw [Option.some_inj, number (by omega)]
  · split
    · rw [Option.some_inj, number (by omega)]
    · constructor
      · nofun
      · omega

theorem lt_of_succ? (next : succ? c = some d) : c < d := by
  rw [succ?_eq_some] at next
  rw [lt_iff]
  split at next <;> omega

theorem le_of_lt_succ? (next : succ? c = some d) (less : e < d) : e ≤ c := by
  rw [succ?_eq_some] at next
  have := valid e
  rw [lt_iff] at less
  rw [le_iff]
  split at next <;> omega

theorem eq_lastChar_of_succ? (last : succ? c = none) : c = lastChar := by
  unfold succ? at last
  rw [← Char.toNat_inj, lastChar, toNat_ofNat (by omega)]
  have := valid c
  split at last
  · cases last
  · split at last
    · cases last
    · omega

/-- Going back to the character before, if there is one. -/
theorem exists_pred? (behind : e < d) : ∃ c, pred? d = some c ∧ succ? c = some d := by
  rw [lt_iff] at behind
  have := valid d
  unfold pred?
  rw [if_neg (by omega)]
  split
  · next gap => exact ⟨_, rfl, succ?_eq_some.mpr (by rw [toNat_ofNat (by omega), if_pos rfl]; exact gap)⟩
  · refine ⟨_, rfl, succ?_eq_some.mpr ?_⟩
    rw [toNat_ofNat (by omega)]
    split <;> omega

theorem pred?_of_succ? (next : succ? c = some d) : pred? d = some c := by
  obtain ⟨c', before, same⟩ := exists_pred? (lt_of_succ? next)
  rw [succ?_eq_some] at next same
  have : c' = c := by
    rw [← Char.toNat_inj]
    have := valid c
    have := valid c'
    split at next <;> split at same <;> omega
  rw [before, this]

/-- There is a character between the end of `i` and the start of `j`. -/
def Apart (i j : Interval) : Prop := touches i j = false

theorem apart_iff : Apart i j ↔ ∃ next, succ? i.hi = some next ∧ next < j.lo := by
  unfold Apart touches
  cases succ? i.hi with
  | none => simp
  | some next => simp

theorem Apart.lt (apart : Apart i j) : i.hi < j.lo := by
  obtain ⟨next, behind, less⟩ := apart_iff.mp apart
  exact Char.lt_trans (lt_of_succ? behind) less

theorem Apart.trans {i j k : Interval} (first : Apart i j) (ordered : j.Ordered) (second : Apart j k) : Apart i k := by
  obtain ⟨next, behind, less⟩ := apart_iff.mp first
  exact apart_iff.mpr ⟨next, behind, Char.lt_trans less (lt_of_le_of_lt ordered second.lt)⟩

/-- The bounds of each interval are in order, and so are the intervals, each apart from the next one. -/
structure Ascending (intervals : List Interval) : Prop where
  chain : intervals.IsChain Apart
  ordered : ∀ i ∈ intervals, i.Ordered

section Ascending

variable {intervals others rest : List Interval}

theorem ascending_nil : Ascending [] := ⟨.nil, nofun⟩

theorem ascending_cons :
    Ascending (i :: rest) ↔ i.Ordered ∧ (∀ j ∈ rest.head?, Apart i j) ∧ Ascending rest := by
  constructor
  · rintro ⟨chain, ordered⟩
    obtain ⟨apart, chain⟩ := List.isChain_cons.mp chain
    obtain ⟨first, others⟩ := List.forall_mem_cons.mp ordered
    exact ⟨first, apart, chain, others⟩
  · rintro ⟨first, apart, chain, others⟩
    exact ⟨List.isChain_cons.mpr ⟨apart, chain⟩, List.forall_mem_cons.mpr ⟨first, others⟩⟩

theorem ascending_singleton (ordered : i.Ordered) : Ascending [i] := ascending_cons.mpr ⟨ordered, nofun, ascending_nil⟩

theorem Ascending.head (ascending : Ascending (i :: rest)) : i.Ordered := (ascending_cons.mp ascending).1

theorem Ascending.tail (ascending : Ascending (i :: rest)) : Ascending rest := (ascending_cons.mp ascending).2.2

theorem Ascending.left (ascending : Ascending (intervals ++ others)) : Ascending intervals :=
  ⟨ascending.chain.left_of_append, fun i member => ascending.ordered i (List.mem_append_left _ member)⟩

theorem Ascending.pairwise (ascending : Ascending intervals) : intervals.Pairwise Apart := by
  induction intervals with
  | nil => exact .nil
  | cons i rest ih =>
    have later := ih ascending.tail
    refine List.pairwise_cons.mpr ⟨fun j member => ?_, later⟩
    cases rest with
    | nil => cases member
    | cons k rest =>
      have near : Apart i k := (ascending_cons.mp ascending).2.1 k rfl
      rcases List.mem_cons.mp member with rfl | behind
      · exact near
      · exact near.trans ascending.tail.head ((List.pairwise_cons.mp later).1 j behind)

theorem Ascending.apart (ascending : Ascending (i :: rest)) (member : j ∈ rest) : Apart i j :=
  (List.pairwise_cons.mp ascending.pairwise).1 j member

end Ascending

/-- The intervals are in ascending order, with gaps between them. -/
def Normal (s : Charset) : Prop := Ascending s.intervals.toList

theorem normal_empty : Normal empty := ascending_nil

private theorem joinFrom_eq_cons (i : Interval) (rest : List Interval) :
    ∃ j tail, joinFrom i rest = j :: tail ∧ j.lo = i.lo := by
  induction rest generalizing i with
  | nil => exact ⟨i, [], rfl, rfl⟩
  | cons k rest ih =>
    rw [joinFrom]
    split
    · obtain ⟨j, tail, same, lower⟩ := ih (i.extend k)
      exact ⟨j, tail, same, lower.trans (i.extend_lo k)⟩
    · exact ⟨i, _, rfl, rfl⟩

private theorem ascending_joinFrom {rest : List Interval} (ordered : ∀ j ∈ i :: rest, j.Ordered) :
    Ascending (joinFrom i rest) := by
  induction rest generalizing i with
  | nil => exact ascending_singleton (ordered i (List.mem_singleton_self i))
  | cons j rest ih =>
    obtain ⟨first, behind⟩ := List.forall_mem_cons.mp ordered
    rw [joinFrom]
    split
    · exact ih (List.forall_mem_cons.mpr ⟨first.extend j, (List.forall_mem_cons.mp behind).2⟩)
    · next apart =>
      obtain ⟨k, tail, same, lower⟩ := joinFrom_eq_cons j rest
      refine ascending_cons.mpr ⟨first, fun k' member => apart_iff.mpr ?_, ih behind⟩
      rw [same] at member
      cases member
      rw [lower]
      exact apart_iff.mp (Bool.eq_false_iff.mpr apart)

/-- Intervals with their bounds in order make a normal set. -/
theorem normal_ofIntervals {intervals : List Interval} (ordered : ∀ i ∈ intervals, i.Ordered) :
    Normal (ofIntervals intervals) := by
  have sorted : ∀ i ∈ intervals.mergeSort fun i j => decide (i ≤ j), i.Ordered :=
    fun i member => ordered i (List.mem_mergeSort.mp member)
  unfold Normal ofIntervals
  generalize intervals.mergeSort _ = inorder at sorted
  cases inorder with
  | nil => exact ascending_nil
  | cons i rest => exact ascending_joinFrom sorted

theorem normal_between (a b : Char) : Normal (ofIntervals [.between a b]) :=
  normal_ofIntervals (by simpa using Interval.ordered_between a b)

theorem normal_insert {s : Charset} (normal : s.Normal) (ordered : i.Ordered) : Normal (s.insert i) := by
  refine normal_ofIntervals fun j member => ?_
  rcases List.mem_append.mp member with old | new
  · exact normal.ordered j old
  · exact List.mem_singleton.mp new ▸ ordered

theorem normal_union {s t : Charset} (normal : s.Normal) (normal' : t.Normal) : Normal (s.union t) :=
  normal_ofIntervals fun j member => (List.mem_append.mp member).elim (normal.ordered j) (normal'.ordered j)

/-- Joining has nothing to do where all is apart. -/
private theorem join_of_isChain {intervals : List Interval} (chain : intervals.IsChain Apart) :
    join intervals = intervals := by
  have from_ {i : Interval} {rest : List Interval} (chain : (i :: rest).IsChain Apart) : joinFrom i rest = i :: rest := by
    induction rest generalizing i with
    | nil => rfl
    | cons j rest ih =>
      obtain ⟨apart, chain⟩ := List.isChain_cons_cons.mp chain
      rw [joinFrom, show touches i j = false from apart, if_neg Bool.false_ne_true, ih chain]
  cases intervals with
  | nil => rfl
  | cons i rest => exact from_ chain

/-- Intervals in ascending order are a set as they stand. -/
theorem ofIntervals_of_ascending {intervals : List Interval} (ascending : Ascending intervals) :
    ofIntervals intervals = ⟨intervals.toArray⟩ := by
  have sorted : intervals.Pairwise fun i j => decide (i ≤ j) = true := by
    refine ascending.pairwise.imp_of_mem fun {i j} member _ apart => decide_eq_true ?_
    exact .inl (lt_of_le_of_lt (ascending.ordered i member) apart.lt)
  rw [ofIntervals, List.mergeSort_of_pairwise sorted, join_of_isChain ascending.chain]

theorem Normal.ofIntervals_eq {s : Charset} (normal : s.Normal) : ofIntervals s.intervals.toList = s := by
  rw [ofIntervals_of_ascending normal, Array.toArray_toList]

theorem empty_union {s : Charset} (normal : s.Normal) : empty.union s = s := normal.ofIntervals_eq

/-- Uniting a set with an interval behind all of its own. -/
theorem union_single {intervals : List Interval} {i : Interval} (ascending : Ascending (intervals ++ [i])) :
    (⟨intervals.toArray⟩ : Charset).union ⟨#[i]⟩ = ⟨(intervals ++ [i]).toArray⟩ := by
  rw [union]
  exact ofIntervals_of_ascending ascending

theorem le_lastChar (c : Char) : c ≤ lastChar := by
  have := valid c
  rw [le_iff, lastChar, toNat_ofNat (by omega)]
  omega

variable {rest : List Interval} {next : Char}

/-- The gaps behind an interval: none, or they begin right behind it. -/
theorem gapsFrom_succ? (chain : (i :: rest).IsChain Apart) :
    (succ? i.hi = none ∧ rest = []) ∨
      ∃ next, succ? i.hi = some next ∧ ∀ j ∈ rest.head?, next < j.lo := by
  cases behind : succ? i.hi with
  | none =>
    refine .inl ⟨rfl, ?_⟩
    cases rest with
    | nil => rfl
    | cons j rest =>
      obtain ⟨next, some, -⟩ := apart_iff.mp (List.isChain_cons_cons.mp chain).1
      cases behind.symm.trans some
  | some next =>
    refine .inr ⟨next, rfl, fun j member => ?_⟩
    cases rest with
    | nil => cases member
    | cons k rest =>
      cases member
      obtain ⟨next', some, less⟩ := apart_iff.mp (List.isChain_cons_cons.mp chain).1
      cases behind.symm.trans some
      exact less

/-- The gaps from `next` on are in ascending order, and none begins before `next`. -/
private theorem ascending_gapsFrom (ascending : Ascending rest) (before : ∀ j ∈ rest.head?, next ≤ j.lo) :
    Ascending (gapsFrom (some next) rest) ∧ ∀ gap ∈ (gapsFrom (some next) rest).head?, next ≤ gap.lo := by
  induction rest generalizing next with
  | nil =>
    rw [gapsFrom, Option.map_some, Option.toList_some, Interval.between_of_le (le_lastChar next)]
    refine ⟨ascending_singleton (le_lastChar next), ?_⟩
    rintro _ ⟨⟩
    exact le_refl next
  | cons i rest ih =>
    have above := before i rfl
    -- What lies behind the interval.
    have others : Ascending (gapsFrom (succ? i.hi) rest) ∧
        ∀ gap ∈ (gapsFrom (succ? i.hi) rest).head?, i.lo < gap.lo := by
      rcases gapsFrom_succ? ascending.chain with ⟨last, rfl⟩ | ⟨next, behind, less⟩
      · rw [last]
        exact ⟨ascending_nil, nofun⟩
      · rw [behind]
        obtain ⟨gaps, first⟩ := ih ascending.tail fun j member => le_of_lt (less j member)
        refine ⟨gaps, fun gap member => ?_⟩
        exact lt_of_le_of_lt ascending.head (lt_of_lt_of_le (lt_of_succ? behind) (first gap member))
    rw [gapsFrom]
    split
    · next gap =>
      obtain ⟨c, back, forth⟩ := exists_pred? gap
      have ordered : next ≤ c := le_of_lt_succ? forth gap
      rw [back, Option.map_some, Option.toList_some, Interval.between_of_le ordered, List.singleton_append]
      refine ⟨ascending_cons.mpr ⟨ordered, fun gap member => ?_, others.1⟩, ?_⟩
      · exact apart_iff.mpr ⟨i.lo, forth, others.2 gap member⟩
      · rintro _ ⟨⟩
        exact le_refl next
    · exact ⟨others.1, fun gap member => le_trans above (le_of_lt (others.2 gap member))⟩

theorem normal_inverse {s : Charset} (normal : s.Normal) : s.inverse.Normal := by
  refine (ascending_gapsFrom normal fun j _ => ?_).1
  rw [le_iff]
  exact Nat.zero_le _

/-- Before the first interval is a gap. -/
private theorem gapsFrom_eq_cons (before : ∀ j ∈ rest.head?, next < j.lo) :
    ∃ gap tail, gapsFrom (some next) rest = gap :: tail ∧ gap.lo = next := by
  cases rest with
  | nil =>
    rw [gapsFrom, Option.map_some, Option.toList_some, Interval.between_of_le (le_lastChar next)]
    exact ⟨_, [], rfl, rfl⟩
  | cons i rest =>
    have less := before i rfl
    obtain ⟨c, back, forth⟩ := exists_pred? less
    rw [gapsFrom, if_pos less, back, Option.map_some, Option.toList_some,
      Interval.between_of_le (le_of_lt_succ? forth less)]
    exact ⟨_, _, rfl, rfl⟩

/-- The gaps between the gaps are the intervals. -/
private theorem gapsFrom_gapsFrom (ascending : Ascending rest) (before : ∀ j ∈ rest.head?, next ≤ j.lo) :
    gapsFrom (some next) (gapsFrom (some next) rest) = rest := by
  induction rest generalizing next with
  | nil =>
    rw [gapsFrom, Option.map_some, Option.toList_some, Interval.between_of_le (le_lastChar next), gapsFrom,
      if_neg (lt_irrefl next)]
    cases behind : succ? lastChar with
    | none => rfl
    | some c => exact absurd (lt_of_succ? behind) (not_lt.mpr (le_lastChar c))
  | cons i rest ih =>
    -- The interval is the gap between the one that ends before it and the one behind it.
    have here : gapsFrom (some i.lo) (gapsFrom (succ? i.hi) rest) = i :: rest := by
      rcases gapsFrom_succ? ascending.chain with ⟨last, rfl⟩ | ⟨c, behind, less⟩
      · rw [last, gapsFrom, Option.map_none, Option.toList_none, gapsFrom, Option.map_some, Option.toList_some,
          ← eq_lastChar_of_succ? last, Interval.between_of_le ascending.head]
      · have others := ih ascending.tail fun j member => le_of_lt (less j member)
        obtain ⟨gap, tail, gaps, lower⟩ := gapsFrom_eq_cons less
        rw [gaps, gapsFrom, lower, if_neg (lt_irrefl c)] at others
        rw [behind, gaps, gapsFrom, lower, if_pos (lt_of_le_of_lt ascending.head (lt_of_succ? behind)),
          pred?_of_succ? behind, others, Option.map_some, Option.toList_some, Interval.between_of_le ascending.head,
          List.singleton_append]
    rw [gapsFrom]
    split
    · next gap =>
      obtain ⟨c, back, forth⟩ := exists_pred? gap
      rw [back, Option.map_some, Option.toList_some, Interval.between_of_le (le_of_lt_succ? forth gap),
        List.singleton_append, gapsFrom, if_neg (lt_irrefl next), forth, here]
    · next same => rw [le_antisymm (before i rfl) (not_lt.mp same), here]

theorem inverse_inverse {s : Charset} (normal : s.Normal) : s.inverse.inverse = s := by
  have gaps := @gapsFrom_gapsFrom _ (Char.ofNat 0) normal fun j _ => le_iff.mpr (Nat.zero_le _)
  rw [inverse, inverse, gaps, Array.toArray_toList]

private theorem exists_of_search {intervals : Array Interval} {steps lo hi : Nat}
    (found : search intervals c steps lo hi = true) : ∃ i ∈ intervals, i.lo ≤ c ∧ c ≤ i.hi := by
  induction steps generalizing lo hi with
  | zero => cases found
  | succ steps ih =>
    rw [search] at found
    split at found
    · dsimp only at found
      split at found
      · cases found
      · next i present =>
        split at found
        · exact ih found
        · next below =>
          split at found
          · exact ih found
          · next above => exact ⟨i, Array.mem_of_getElem? present, Char.not_lt.mp above, Char.not_lt.mp below⟩
    · cases found

theorem exists_of_contains {s : Charset} (found : s.contains c = true) :
    ∃ i ∈ s.intervals.toList, i.lo ≤ c ∧ c ≤ i.hi := by
  obtain ⟨i, member, within⟩ := exists_of_search found
  exact ⟨i, Array.mem_toList_iff.mpr member, within⟩

end Charset

end Packrat
