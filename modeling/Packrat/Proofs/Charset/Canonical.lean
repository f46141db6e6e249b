import Packrat.Proofs.Charset.Members

/-! # One representation for each set of characters

The intervals of a normal set can be read off its members: the first one begins at the least member and ends before the
first character that is none. So sets that are made with the same members are equal, and the laws of sets hold of
the stored intervals. For each law it is enough to compare members. All this needs intervals with their bounds in order.
-/

namespace Packrat

namespace Charset

variable {i j : Interval} {c next : Char} {rest : List Interval} {s t : Charset}

theorem lo_le_of_covers (ascending : Ascending (i :: rest)) (covered : Covers (i :: rest) c) : i.lo ≤ c := by
  rcases covers_cons.mp covered with within | ⟨j, member, within⟩
  · exact within.1
  · have behind : i.hi < j.lo := (ascending.apart member).lt
    exact le_trans ascending.head (behind.le.trans within.1)

/-- The character behind the first interval is no member. -/
theorem not_covers_succ? (ascending : Ascending (i :: rest)) (behind : succ? i.hi = some next) :
    ¬ Covers (i :: rest) next := by
  intro covered
  rcases covers_cons.mp covered with within | ⟨j, member, within⟩
  · exact absurd within.2 (not_le.mpr (lt_of_succ? behind))
  · obtain ⟨next', behind', less⟩ := apart_iff.mp (ascending.apart member)
    obtain rfl := Option.some.inj (behind.symm.trans behind')
    exact absurd within.1 (not_le.mpr less)

/-- The members behind the first interval are those of the others. -/
theorem covers_tail (ascending : Ascending (i :: rest)) : Covers rest c ↔ Covers (i :: rest) c ∧ i.hi < c := by
  rw [covers_cons]
  constructor
  · rintro ⟨j, member, within⟩
    have behind : i.hi < j.lo := (ascending.apart member).lt
    exact ⟨.inr ⟨j, member, within⟩, behind.trans_le within.1⟩
  · rintro ⟨within | covered, behind⟩
    · exact absurd within.2 (not_le.mpr behind)
    · exact covered

private theorem hi_le_of_covers (ascending : Ascending (i :: rest)) (starts : j.lo = i.lo)
    (same : ∀ c, j.lo ≤ c → c ≤ j.hi → Covers (i :: rest) c) : j.hi ≤ i.hi := by
  by_contra beyond
  rw [not_le] at beyond
  cases behind : succ? i.hi with
  | none => exact absurd (eq_lastChar_of_succ? behind ▸ le_lastChar j.hi) (not_le.mpr beyond)
  | some next =>
    have reached : next ≤ j.hi := not_lt.mp fun less => not_le.mpr beyond (le_of_lt_succ? behind less)
    have above : j.lo ≤ next := starts ▸ le_trans ascending.head (lt_of_succ? behind).le
    exact not_covers_succ? ascending behind (same next above reached)

/-- Intervals in ascending order are determined by the characters they have. -/
theorem eq_of_covers {intervals others : List Interval} (ascending : Ascending intervals)
    (ascending' : Ascending others) (same : ∀ c, Covers intervals c ↔ Covers others c) : intervals = others := by
  induction intervals generalizing others with
  | nil =>
    cases others with
    | nil => rfl
    | cons j others =>
      have inside : j.lo ≤ j.hi := ascending'.head
      simpa [inside] using same j.lo
  | cons i rest ih =>
    have inside : i.lo ≤ i.hi := ascending.head
    cases others with
    | nil => simpa [inside] using same i.lo
    | cons j others =>
      have inside' : j.lo ≤ j.hi := ascending'.head
      have covered (c : Char) (above : i.lo ≤ c) (below : c ≤ i.hi) : Covers (j :: others) c :=
        (same c).mp (covers_cons.mpr (.inl ⟨above, below⟩))
      have covered' (c : Char) (above : j.lo ≤ c) (below : c ≤ j.hi) : Covers (i :: rest) c :=
        (same c).mpr (covers_cons.mpr (.inl ⟨above, below⟩))
      have starts : j.lo = i.lo := by
        apply le_antisymm
        · exact lo_le_of_covers ascending' (covered i.lo le_rfl inside)
        · exact lo_le_of_covers ascending (covered' j.lo le_rfl inside')
      have ends : j.hi = i.hi := by
        apply le_antisymm
        · exact hi_le_of_covers ascending starts covered'
        · exact hi_le_of_covers ascending' starts.symm covered
      have first : j = i := by
        cases i
        cases j
        simp_all
      subst first
      have tails : rest = others := ih ascending.tail ascending'.tail fun c => by
        rw [covers_tail ascending, covers_tail ascending', same]
      rw [tails]

/-- A normal set is determined by its members. -/
theorem Normal.eq_of_contains (normal : s.Normal) (normal' : t.Normal) (same : ∀ c, s.contains c = t.contains c) :
    s = t := by
  have intervals := eq_of_covers normal normal' fun c => by
    rw [← contains_iff_covers normal, ← contains_iff_covers normal', same]
  cases s
  cases t
  simpa using intervals

/-- A set shows whether it is the empty set. -/
theorem isEmpty_iff : s.isEmpty = true ↔ s = .empty := by
  cases s
  simp [isEmpty, size, Charset.empty]

/-- A set shows whether it has a single member, and which one. -/
theorem single?_eq_some : s.single? = some c ↔ s = ⟨#[.single c]⟩ := by
  obtain ⟨⟨intervals⟩⟩ := s
  unfold single?
  split
  · next i only =>
    have only : intervals = [i] := only
    obtain ⟨lo, hi⟩ := i
    simp [only, Interval.single]
    grind
  · next other =>
    constructor
    · intro missing
      cases missing
    · intro same
      exact absurd (congrArg (fun s => s.intervals.toList) same) (other _)

namespace Formula

/-- Formulas make the same set exactly if they have the same members. -/
theorem build_eq_iff {f g : Formula} : f.build = g.build ↔ f.members = g.members := by
  constructor
  · intro same
    ext c
    rw [← covers_build, ← covers_build, same]
  · intro same
    apply f.normal_build.eq_of_contains g.normal_build
    intro c
    rw [Bool.eq_iff_iff, contains_iff_covers f.normal_build, contains_iff_covers g.normal_build, covers_build,
      covers_build, same]

theorem build_single (c : Char) : (ofBounds [(c, c)]).build = ⟨#[.single c]⟩ := by
  simp [build, ofIntervals, join, joinFrom, Interval.between, Interval.single]

theorem members_single (c : Char) : (ofBounds [(c, c)]).members = {c} := by
  simp [members]

/-- Sets of characters have one representation each, however they are made: sets with the same members are equal, the
empty set, the full set and the sets with a single member are recognized, and the laws of sets are equalities of the
stored intervals. -/
theorem canonical (f g h : Formula) :
    (f.build = g.build ↔ ∀ c, f.build.contains c = g.build.contains c) ∧
    (f.build.isEmpty = true ↔ ∀ c, f.build.contains c = false) ∧
    (f.build.isWhole = true ↔ ∀ c, f.build.contains c = true) ∧
    (∀ c, f.build.single? = some c ↔ ∀ d, f.build.contains d = true ↔ d = c) ∧
    f.build.inverse.inverse = f.build ∧
    (f.build.union g.build).union h.build = f.build.union (g.build.union h.build) ∧
    f.build.union g.build = g.build.union f.build ∧
    f.build.union f.build = f.build ∧
    Charset.empty.union f.build = f.build ∧
    f.build.union .empty = f.build ∧
    f.build.union f.build.inverse = .whole := by
  have found (c : Char) : f.build.contains c = true ↔ c ∈ f.members := by
    rw [contains_iff_covers f.normal_build, covers_build]
  refine ⟨?_, ?_, ?_, fun c => ?_, ?_, ?_, ?_, ?_, ?_, ?_, ?_⟩
  · exact ⟨fun same c => same ▸ rfl, f.normal_build.eq_of_contains g.normal_build⟩
  · rw [isEmpty_iff, show Charset.empty = empty.build from rfl, build_eq_iff, members, Set.eq_empty_iff_forall_notMem]
    simp only [← found, Bool.not_eq_true]
  · rw [isWhole, decide_eq_true_iff, show Charset.whole = whole.build from rfl, build_eq_iff, members,
      Set.eq_univ_iff_forall]
    simp only [← found]
  · rw [single?_eq_some, ← build_single, build_eq_iff, members_single, Set.ext_iff]
    simp only [← found, Set.mem_singleton_iff]
  · exact inverse_inverse f.normal_build
  · exact build_eq_iff (f := (f.union g).union h) (g := f.union (g.union h)) |>.mpr (Set.union_assoc ..)
  · exact build_eq_iff (f := f.union g) (g := g.union f) |>.mpr (Set.union_comm ..)
  · exact build_eq_iff (f := f.union f) |>.mpr (Set.union_self _)
  · exact empty_union f.normal_build
  · exact build_eq_iff (f := f.union empty) |>.mpr (Set.union_empty _)
  · exact build_eq_iff (f := f.union f.inverse) (g := whole) |>.mpr (Set.union_compl_self _)

/-- An interval whose bounds are not in order has no members, and yet the set of it is another one than the empty set and
not recognized as empty. -/
theorem reversed_unrecognized : (∀ c, (ofIntervals [⟨'z', 'a'⟩]).contains c = Charset.empty.contains c) ∧
    ofIntervals [⟨'z', 'a'⟩] ≠ .empty ∧ (ofIntervals [⟨'z', 'a'⟩]).isEmpty = false := by
  have alone : ofIntervals [⟨'z', 'a'⟩] = ⟨#[⟨'z', 'a'⟩]⟩ := by simp [ofIntervals, join, joinFrom]
  rw [alone]
  refine ⟨fun c => Bool.eq_false_iff.mpr fun found => ?_, by decide, rfl⟩
  obtain ⟨i, member, within⟩ := exists_of_contains found
  obtain rfl : i = ⟨'z', 'a'⟩ := List.mem_singleton.mp member
  exact absurd (within.1.trans within.2) (by decide)

/-- Both sides of the gap left by the surrogates belong to one interval. -/
example : (ofBounds [('\uE000', '\uE100'), ('\uD000', '\uD7FF')]).build =
    (ofBounds [('\uD000', '\uE100')]).build := by
  cbv

end Formula

end Charset

end Packrat
