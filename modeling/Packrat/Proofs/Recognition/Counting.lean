import Packrat.Proofs.Recognition.Judgement

/-! # Repetitions without an upper bound

A missing upper bound is the greatest count of a machine word. A repetition that goes on behind its
least number of matches stops at the first match without text, so on a text with fewer characters
than that count it never gets there: the limit makes no difference (`parses_counted_iff`).
-/

namespace Packrat.Peg

variable {σ : Setting} {goal : Goal} {child min max o middle n : Nat} {deeds : List Deed} {out : Outcome}

/-- A limit that the rest of the text cannot use up is none. -/
private theorem greedy_some_iff_none (within : o ≤ σ.text.length) (roomy : σ.text.length - o < n) :
    Parses σ (.greedy child true (some n)) o out ↔ Parses σ (.greedy child true none) o out := by
  induction remaining : σ.text.length - o using Nat.strongRecOn generalizing o n out with
  | ind remaining ih =>
    subst remaining
    have room : some n ≠ some 0 := by rw [ne_eq, Option.some.injEq]; omega
    -- A match that is not the last one takes a character.
    have next {middle : Nat} {deeds : List Deed} {out : Outcome} (advanced : true = true → middle ≠ o)
        (body : Parses σ (.rule (.expression child)) o (.matched middle deeds)) :
        Parses σ (.greedy child true (some (n - 1))) middle out ↔
          Parses σ (.greedy child true none) middle out := by
      have := advanced rfl
      have := body.forward rfl
      exact ih (σ.text.length - middle) (by omega) (by omega) (by omega) rfl
    constructor
    · intro parse
      cases parse with
      | greedyFull => exact absurd rfl room
      | greedyEmpty _ body => exact .greedyEmpty nofun body
      | greedyNext _ body advanced more => exact .greedyNext nofun body advanced ((next advanced body).mp more)
      | greedyEnd _ body => exact .greedyEnd nofun body
      | greedyAborted _ body => exact .greedyAborted nofun body
    · intro parse
      cases parse with
      | greedyEmpty _ body => exact .greedyEmpty room body
      | greedyNext _ body advanced more => exact .greedyNext room body advanced ((next advanced body).mpr more)
      | greedyEnd _ body => exact .greedyEnd room body
      | greedyAborted _ body => exact .greedyAborted room body

/-- A match without text is the only one, whatever the limit. -/
private theorem greedy_of_empty {limit : Option Nat}
    (empty : Parses σ (.rule (.expression child)) o (.matched o deeds)) (room : limit ≠ some 0) :
    Parses σ (.greedy child true limit) o out ↔ out = .matched o deeds := by
  have only : Parses σ (.greedy child true limit) o (.matched o deeds) := .greedyEmpty room empty
  constructor
  · intro parse
    exact parse.deterministic only
  · rintro rfl
    exact only

/-- A rule that matches without text goes on to do so. -/
private theorem stays_of_empty (empty : Parses σ (.rule (.expression child)) o (.matched o deeds))
    {all : List Deed} (parse : Parses σ (.all (List.replicate n child)) o (.matched middle all)) :
    middle = o := by
  induction n generalizing all with
  | zero => cases parse; rfl
  | succ n ih =>
    obtain ⟨_, _, _, head, tail, -⟩ := parse.all_cons
    cases head.deterministic empty
    exact ih tail

/-- Matches in a row take a character each, or the last one takes none. -/
private theorem least_cases (parse : Parses σ (.all (List.replicate n child)) o (.matched middle deeds)) :
    n ≤ middle - o ∨ ∃ inner, Parses σ (.rule (.expression child)) middle (.matched middle inner) := by
  induction n generalizing o deeds with
  | zero => exact .inl (Nat.zero_le _)
  | succ n ih =>
    obtain ⟨next, inner, _, head, tail, -⟩ := parse.all_cons
    by_cases empty : next = o
    · subst empty
      obtain rfl := stays_of_empty head tail
      exact .inr ⟨inner, head⟩
    · have := head.forward rfl
      have := tail.forward rfl
      rcases ih tail with taken | last
      · exact .inl (by omega)
      · exact .inr last

/-- Behind the least number of matches the greatest count is as good as no limit. -/
private theorem greedy_counted_iff_declared (σ : Setting) (short : σ.text.length < unbounded)
    (within : o ≤ σ.text.length)
    (least : Parses σ (.all (List.replicate min child)) o (.matched middle deeds)) :
    Parses σ (.greedy child (max == unbounded) (counted min max)) middle out ↔
      Parses σ (.greedy child (max == unbounded) (declared min max)) middle out := by
  by_cases open_ : max = unbounded ∧ min < max
  · obtain ⟨rfl, room⟩ := open_
    simp only [counted, declared, room, and_self, ↓reduceIte, beq_self_eq_true]
    have inside := (least.forward rfl).2 within
    rcases least_cases least with taken | ⟨inner, empty⟩
    · exact greedy_some_iff_none inside (by omega)
    · have counts : some (unbounded - min) ≠ some 0 := by rw [ne_eq, Option.some.injEq]; omega
      rw [greedy_of_empty empty counts, greedy_of_empty empty (Option.some_ne_none 0).symm]
  · simp only [counted, declared, open_, ↓reduceIte]

/-- Parsing with other limits, if these make no difference behind the least number of matches. -/
private theorem parses_withLimit (σ : Setting) (limit : (min max : Nat) → Option Nat)
    (same : ∀ {child min max o middle deeds out}, o ≤ σ.text.length →
      Parses { σ with limit } (.all (List.replicate min child)) o (.matched middle deeds) →
      Parses { σ with limit } (.greedy child (max == unbounded) (σ.limit min max)) middle out →
      Parses { σ with limit } (.greedy child (max == unbounded) (limit min max)) middle out)
    (parse : Parses σ goal o out) (within : o ≤ σ.text.length) : Parses { σ with limit } goal o out := by
  induction parse with
  | production defined _ ih => exact .production defined (ih within)
  | expression present _ ih => exact .expression present (ih within)
  | terminal found => exact .terminal found
  | mismatch missing => exact .mismatch missing
  | reference _ ih => exact .reference (ih within)
  | accepted _ answer ih => exact .accepted (ih within) answer
  | rejected _ answer ih => exact .rejected (ih within) answer
  | refused _ answer ih => exact .refused (ih within) answer
  | idle _ unmatched ih => exact .idle (ih within) unmatched
  | undo _ ih => exact .undo (ih within)
  | sequence _ ih => exact .sequence (ih within)
  | choice _ ih => exact .choice (ih within)
  | enough run _ least more =>
    exact .enough (least within) (same within (least within) (more ((run.forward rfl).2 within)))
  | tooFew _ unmatched ih => exact .tooFew (ih within) unmatched
  | present _ ih => exact .present (ih within)
  | notPresent _ unmatched ih => exact .notPresent (ih within) unmatched
  | absent _ ih => exact .absent (ih within)
  | notAbsent _ ih => exact .notAbsent (ih within)
  | absentAborted _ ih => exact .absentAborted (ih within)
  | allDone => exact .allDone
  | allNext run _ head tail => exact .allNext (head within) (tail ((run.forward rfl).2 within))
  | allStop _ unmatched ih => exact .allStop (ih within) unmatched
  | firstNone => exact .firstNone
  | firstNext _ _ head tail => exact .firstNext (head within) (tail within)
  | firstStop _ decided ih => exact .firstStop (ih within) decided
  | greedyFull => exact .greedyFull
  | greedyEmpty room _ ih => exact .greedyEmpty room (ih within)
  | greedyNext room run advanced _ head tail =>
    exact .greedyNext room (head within) advanced (tail ((run.forward rfl).2 within))
  | greedyEnd room _ ih => exact .greedyEnd room (ih within)
  | greedyAborted room _ ih => exact .greedyAborted room (ih within)

/-- On a text shorter than the greatest count it does not matter that the count ends. -/
theorem parses_counted_iff (σ : Setting) (short : σ.text.length < unbounded) (within : o ≤ σ.text.length) :
    Parses { σ with limit := counted } goal o out ↔ Parses { σ with limit := declared } goal o out := by
  constructor
  · intro parse
    refine parses_withLimit { σ with limit := counted } declared (fun inside least more => ?_) parse within
    exact (greedy_counted_iff_declared { σ with limit := declared } short inside least).mp more
  · intro parse
    refine parses_withLimit { σ with limit := declared } counted (fun inside least more => ?_) parse within
    exact (greedy_counted_iff_declared { σ with limit := counted } short inside least).mpr more

end Packrat.Peg
