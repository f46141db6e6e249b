import Packrat.Grammar.Problem
import Mathlib.Data.List.Basic

/-! # The order of problems

Problems are listed by place and by kind, and those that tie keep their order. So the problems that tie with a given
one tell all of a listing (`Problems.eq_of_ties`), and whatever leaves them alone leaves the listing alone: problems
can be left out before or after they are listed, and a listing can be listed again with others behind it.
-/

namespace Packrat

theorem Position.le_iff {p q : Position} : p ≤ q ↔ p.offset < q.offset ∨ p.offset = q.offset ∧
    (p.line < q.line ∨ p.line = q.line ∧ p.column ≤ q.column) := Iff.rfl

namespace Problem

/-- Neither of the problems has to be listed first. -/
def tiesWith (p q : Problem) : Bool := p.listedBefore q && q.listedBefore p

theorem listedBefore_iff {p q : Problem} : p.listedBefore q = true ↔
    match p.span, q.span with
    | none, none => p.kind.rank ≤ q.kind.rank
    | none, some _ => True
    | some _, none => False
    | some s, some t => s.start ≠ t.start ∧ s.start ≤ t.start ∨ s.start = t.start ∧ p.kind.rank ≤ q.kind.rank := by
  unfold listedBefore
  rcases p.span with _ | s <;> rcases q.span with _ | t
  · exact decide_eq_true_iff
  · simp
  · simp
  · dsimp only
    split_ifs with same
    · simp [same]
    · simp [same]

theorem listedBefore_total (p q : Problem) : (p.listedBefore q || q.listedBefore p) = true := by
  rw [Bool.or_eq_true, listedBefore_iff, listedBefore_iff]
  generalize p.span = a, q.span = b
  rcases a with _ | ⟨⟨o, l, c⟩, _⟩ <;> rcases b with _ | ⟨⟨o', l', c'⟩, _⟩
  · dsimp only
    omega
  · simp
  · simp
  · simp only [Position.le_iff, Position.mk.injEq, ne_eq]
    omega

theorem listedBefore_trans (p q r : Problem) (first : p.listedBefore q = true) (second : q.listedBefore r = true) :
    p.listedBefore r = true := by
  rw [listedBefore_iff] at first second ⊢
  generalize p.span = a, q.span = b, r.span = d at first second ⊢
  rcases a with _ | ⟨⟨o, l, c⟩, _⟩ <;> rcases b with _ | ⟨⟨o', l', c'⟩, _⟩ <;> rcases d with _ | ⟨⟨o'', l'', c''⟩, _⟩
  case some.some.some =>
    simp only [Position.le_iff, Position.mk.injEq, ne_eq] at first second ⊢
    omega
  all_goals
    dsimp only at first second ⊢
    try omega

end Problem

namespace Problems

variable {ps qs : Problems}

/-- Listings in which the same problems tie in the same order are the same. -/
theorem eq_of_ties (ordered : ps.Pairwise fun p q => p.listedBefore q = true)
    (ordered' : qs.Pairwise fun p q => p.listedBefore q = true)
    (ties : ∀ p : Problem, ps.filter p.tiesWith = qs.filter p.tiesWith) : ps = qs := by
  have self (p : Problem) : p.tiesWith p = true := by
    simpa [Problem.tiesWith] using Problem.listedBefore_total p p
  have mem_iff (p : Problem) : p ∈ ps ↔ p ∈ qs := by
    have same : p ∈ ps.filter p.tiesWith ↔ p ∈ qs.filter p.tiesWith := by rw [ties p]
    simpa [self] using same
  induction ps generalizing qs with
  | nil =>
    symm
    apply List.eq_nil_iff_forall_not_mem.mpr
    intro p member
    exact List.not_mem_nil ((mem_iff p).mpr member)
  | cons p ps ih =>
    cases qs with
    | nil => exact absurd ((mem_iff p).mp List.mem_cons_self) List.not_mem_nil
    | cons q qs =>
      -- Both heads are listed before all others, so they tie, and the first of a tie is the same in both.
      have before : p.listedBefore q = true := by
        rcases List.mem_cons.mp ((mem_iff q).mpr List.mem_cons_self) with rfl | member
        · simpa using Problem.listedBefore_total q q
        · exact List.rel_of_pairwise_cons ordered member
      have after : q.listedBefore p = true := by
        rcases List.mem_cons.mp ((mem_iff p).mp List.mem_cons_self) with rfl | member
        · simpa using Problem.listedBefore_total p p
        · exact List.rel_of_pairwise_cons ordered' member
      have tie : p.tiesWith q = true := by simp [Problem.tiesWith, before, after]
      have heads := ties p
      rw [List.filter_cons_of_pos (self p), List.filter_cons_of_pos tie] at heads
      obtain ⟨rfl, -⟩ := List.cons.inj heads
      have rest (r : Problem) : ps.filter r.tiesWith = qs.filter r.tiesWith := by
        have same := ties r
        by_cases tied : r.tiesWith p = true
        · rw [List.filter_cons_of_pos tied, List.filter_cons_of_pos tied] at same
          exact (List.cons.inj same).2
        · rwa [List.filter_cons_of_neg tied, List.filter_cons_of_neg tied] at same
      congr 1
      apply ih ordered.of_cons ordered'.of_cons rest
      intro r
      have same : r ∈ ps.filter r.tiesWith ↔ r ∈ qs.filter r.tiesWith := by rw [rest r]
      simpa [self] using same

theorem pairwise_sort (ps : Problems) : ps.sort.Pairwise fun p q => p.listedBefore q = true :=
  List.pairwise_mergeSort Problem.listedBefore_trans Problem.listedBefore_total ps

/-- Listing does not change the order of what ties. -/
theorem ties_sort (ps : Problems) (p : Problem) : ps.sort.filter p.tiesWith = ps.filter p.tiesWith := by
  have tied : (ps.filter p.tiesWith).Pairwise fun q r => q.listedBefore r = true := by
    apply List.pairwise_of_forall_mem_list
    intro q q_tied r r_tied
    have before := (List.mem_filter.mp q_tied).2
    have after := (List.mem_filter.mp r_tied).2
    rw [Problem.tiesWith, Bool.and_eq_true] at before after
    exact Problem.listedBefore_trans q p r before.2 after.1
  have kept : (ps.filter p.tiesWith).Sublist ps.sort :=
    List.sublist_mergeSort Problem.listedBefore_trans Problem.listedBefore_total tied List.filter_sublist
  have length : (ps.sort.filter p.tiesWith).length = (ps.filter p.tiesWith).length :=
    ((List.mergeSort_perm ps _).filter _).length_eq
  have sublist := kept.filter p.tiesWith
  simp only [List.filter_filter, Bool.and_self] at sublist
  exact (sublist.eq_of_length length.symm).symm

theorem sort_eq_of_ties (ties : ∀ p : Problem, ps.filter p.tiesWith = qs.filter p.tiesWith) : ps.sort = qs.sort := by
  apply eq_of_ties (pairwise_sort ps) (pairwise_sort qs)
  intro p
  rw [ties_sort, ties_sort, ties p]

/-- Problems can be left out before or after they are listed. -/
theorem filter_sort (keep : Problem → Bool) (ps : Problems) : ps.sort.filter keep = sort (ps.filter keep) := by
  apply eq_of_ties ((pairwise_sort ps).filter keep) (pairwise_sort _)
  intro p
  rw [ties_sort, List.filter_comm, ties_sort, List.filter_comm]

/-- What is listed can be listed again with others behind it. -/
theorem sort_sort_append (ps qs : Problems) : sort (ps.sort ++ qs) = sort (ps ++ qs) := by
  apply sort_eq_of_ties
  intro p
  rw [List.filter_append, List.filter_append, ties_sort]

/-- The messages have no say in the order. -/
theorem map_sort {f : Problem → Problem} (span : ∀ p, (f p).span = p.span) (kind : ∀ p, (f p).kind = p.kind)
    (ps : Problems) : ps.sort.map f = sort (ps.map f) := by
  apply List.map_mergeSort
  intro p _ q _
  simp [Problem.listedBefore, span, kind]

end Problems

end Packrat
