import Packrat.Reader

/-! # How steps of the reader end

`Ends step c Q` says that a step of the reader comes to an end from the state `c` without an error, and that `Q`
holds of its answer and of the state behind it. The lemmas here execute the steps that readers are made of, so that
the proof about a reader follows its text. A loop needs an invariant that its step keeps, and text that gets shorter.
-/

namespace Packrat

namespace Read

variable {α β : Type} {c : Cursor} {Q : α → Cursor → Prop}

/-- From `c` the step ends without an error, and `Q` holds of its answer and of the state behind it. -/
def Ends (step : Read α) (c : Cursor) (Q : α → Cursor → Prop) : Prop := ∃ a c', step c = .ok (a, c') ∧ Q a c'

theorem Ends.mono {Q' : α → Cursor → Prop} {step : Read α} (ends : Ends step c Q)
    (weaker : ∀ a c', Q a c' → Q' a c') : Ends step c Q' := by
  obtain ⟨a, c', ran, holds⟩ := ends
  exact ⟨a, c', ran, weaker a c' holds⟩

private theorem bind_apply (step : Read β) (next : β → Read α) (c : Cursor) :
    (step >>= next) c = step c >>= fun r => next r.1 r.2 := rfl

theorem bind_eq_ok {step : Read β} {next : β → Read α} {c c'' : Cursor} {a : α} :
    (step >>= next) c = .ok (a, c'') ↔ ∃ b c', step c = .ok (b, c') ∧ next b c' = .ok (a, c'') := by
  rw [bind_apply]
  rcases step c with fault | ⟨b, c'⟩
  · exact ⟨nofun, nofun⟩
  · constructor
    · exact fun ran => ⟨b, c', rfl, ran⟩
    · rintro ⟨_, _, ⟨⟩, ran⟩
      exact ran

/-- Where a step has come to an end, what is known of its end holds. -/
theorem Ends.of_ran {step : Read α} {a : α} {c' : Cursor} (ends : Ends step c Q) (ran : step c = .ok (a, c')) :
    Q a c' := by
  obtain ⟨_, _, ran', holds⟩ := ends
  cases ran.symm.trans ran'
  exact holds

theorem Ends.bind {R : β → Cursor → Prop} {step : Read β} {next : β → Read α} (first : Ends step c R)
    (rest : ∀ b c', R b c' → Ends (next b) c' Q) : Ends (step >>= next) c Q := by
  obtain ⟨b, c', ran, holds⟩ := first
  obtain ⟨a, c'', ran', holds'⟩ := rest b c' holds
  refine ⟨a, c'', ?_, holds'⟩
  rw [bind_apply, ran]
  exact ran'

theorem Ends.map {Q : β → Cursor → Prop} {step : Read α} {f : α → β} (ends : Ends step c fun a c' => Q (f a) c') :
    Ends (f <$> step) c Q := by
  obtain ⟨a, c', ran, holds⟩ := ends
  refine ⟨f a, c', ?_, holds⟩
  rw [map_eq_pure_bind, bind_apply, ran]
  rfl

@[simp] theorem ends_pure (a : α) : Ends (pure a) c Q ↔ Q a c := by
  constructor
  · rintro ⟨a', c', ran, holds⟩
    cases ran
    exact holds
  · exact fun holds => ⟨a, c, rfl, holds⟩

@[simp] theorem ends_get {next : Cursor → Read α} : Ends (get >>= next) c Q ↔ Ends (next c) c Q := Iff.rfl

@[simp] theorem ends_here {next : Position → Read α} : Ends (here >>= next) c Q ↔ Ends (next c.position) c Q := Iff.rfl

@[simp] theorem ends_tokenEnd {next : Position → Read α} :
    Ends (tokenEnd >>= next) c Q ↔ Ends (next c.tokenEnd) c Q := Iff.rfl

@[simp] theorem ends_peek {next : Option Char → Read α} :
    Ends (peek >>= next) c Q ↔ Ends (next c.rest.head?) c Q := Iff.rfl

@[simp] theorem ends_atEnd {next : Bool → Read α} : Ends (atEnd >>= next) c Q ↔ Ends (next c.rest.isEmpty) c Q := Iff.rfl

@[simp] theorem ends_steps {next : Nat → Read α} :
    Ends (steps >>= next) c Q ↔ Ends (next (c.rest.length + 1)) c Q := Iff.rfl

@[simp] theorem ends_skip {count : Nat} {next : Unit → Read α} :
    Ends (skip count >>= next) c Q ↔ Ends (next ()) (c.forward count) Q := Iff.rfl

@[simp] theorem ends_takeWhile {p : Char → Bool} {next : List Char → Read α} :
    Ends (takeWhile p >>= next) c Q ↔
      Ends (next (c.rest.takeWhile p)) (c.forward (c.rest.takeWhile p).length) Q := Iff.rfl

@[simp] theorem ends_report {kind : ProblemKind} {start stop : Position} {message : String} {next : Unit → Read α} :
    Ends (report kind start stop message >>= next) c Q ↔
      Ends (next ()) { c with problems := c.problems ++ [⟨kind, none, some ⟨start, stop⟩, message⟩] } Q := Iff.rfl

@[simp] theorem ends_mark {next : Unit → Read α} :
    Ends (mark >>= next) c Q ↔ Ends (next ()) { c with marks := c.toPlace :: c.marks } Q := Iff.rfl

theorem ends_eat {text : String} {next : Bool → Read α} :
    Ends (eat text >>= next) c Q ↔
      if text.toList.isPrefixOf c.rest then Ends (next true) (c.forward text.length) Q else Ends (next false) c Q := by
  have eaten : eat text c =
      if text.toList.isPrefixOf c.rest then .ok (true, c.forward text.length) else .ok (false, c) := by
    unfold eat
    rw [bind_apply]
    change (if text.toList.isPrefixOf c.rest then _ else _ : Read Bool) c = _
    split <;> rfl
  unfold Ends
  rw [bind_apply, eaten]
  split <;> rfl

/-- A step at the end of a reader, where nothing follows that a lemma on `>>=` could match. -/
theorem ends_last {step : Read α} : Ends step c Q ↔ Ends (step >>= pure) c Q := by rw [bind_pure]

@[simp] theorem ends_skip_last {count : Nat} {Q : Unit → Cursor → Prop} :
    Ends (skip count) c Q ↔ Q () (c.forward count) := by rw [ends_last, ends_skip, ends_pure]

@[simp] theorem ends_report_last {kind : ProblemKind} {start stop : Position} {message : String}
    {Q : Unit → Cursor → Prop} : Ends (report kind start stop message) c Q ↔
      Q () { c with problems := c.problems ++ [⟨kind, none, some ⟨start, stop⟩, message⟩] } := by
  rw [ends_last, ends_report, ends_pure]

theorem ends_eat_last {text : String} {Q : Bool → Cursor → Prop} :
    Ends (eat text) c Q ↔ if text.toList.isPrefixOf c.rest then Q true (c.forward text.length) else Q false c := by
  rw [ends_last, ends_eat]
  simp only [ends_pure]

theorem ends_release {place : Place} {marks : List Place} {next : Unit → Read α} (marked : c.marks = place :: marks) :
    Ends (release >>= next) c Q ↔ Ends (next ()) { c with marks } Q := by
  obtain ⟨here, _, tokenEnd, problems, builder⟩ := c
  subst marked
  rfl

theorem ends_reset {place : Place} {marks : List Place} {next : Unit → Read α} (marked : c.marks = place :: marks) :
    Ends (reset >>= next) c Q ↔ Ends (next ()) { c with toPlace := place, marks } Q := by
  obtain ⟨here, _, tokenEnd, problems, builder⟩ := c
  subst marked
  rfl

/-- A step that leaves the mark alone can be tried. -/
theorem Ends.attempt {succeeds : α → Bool} {step : Read α} {R : α → Cursor → Prop}
    (ends : Ends step { c with marks := c.toPlace :: c.marks } fun a c' => c'.marks = c.toPlace :: c.marks ∧ R a c') :
    Ends (Read.attempt succeeds step) c fun a c' => ∃ before, R a before ∧
      c' = if succeeds a then { before with marks := c.marks }
        else { before with toPlace := c.toPlace, marks := c.marks } := by
  rw [Read.attempt, ends_mark]
  refine ends.bind fun a before ⟨marked, holds⟩ => ?_
  cases success : succeeds a with
  | true =>
    rw [if_pos rfl, ends_release marked, ends_pure, success]
    exact ⟨before, holds, rfl⟩
  | false =>
    rw [if_neg Bool.false_ne_true, ends_reset marked, ends_pure, success]
    exact ⟨before, holds, rfl⟩

/-- Looking ahead with a step that leaves the mark alone. -/
theorem Ends.ahead {step : Read α} {R : α → Cursor → Prop}
    (ends : Ends step { c with marks := c.toPlace :: c.marks } fun a c' => c'.marks = c.toPlace :: c.marks ∧ R a c') :
    Ends (Read.ahead step) c fun a c' => ∃ before, R a before ∧
      c' = { before with toPlace := c.toPlace, marks := c.marks } := by
  rw [ahead_eq_attempt]
  exact ends.attempt

/-- A loop ends if every success leaves less text. The invariant `I` knows the number of successes so far. -/
theorem ends_countWhile {I : Nat → Cursor → Prop} {step : Read Bool}
    (keeps : ∀ {count c}, I count c → Ends step c fun more c' =>
      if more then I (count + 1) c' ∧ c'.rest.length < c.rest.length else I count c')
    {limit : Nat} (enough : c.rest.length < limit) (before : I 0 c) :
    Ends (countWhile step limit) c I := by
  induction limit generalizing I c with
  | zero => omega
  | succ limit ih =>
    rw [countWhile]
    refine (keeps before).bind fun more c' holds => ?_
    cases more with
    | false => exact (ends_pure 0).mpr holds
    | true =>
      obtain ⟨after, less⟩ := holds
      -- One success is behind the rest of the loop.
      refine (@ih _ (fun count => I (count + 1)) (fun before => keeps before) (by omega) after).bind ?_
      exact fun count c'' holds => (ends_pure _).mpr holds

end Read

end Packrat
