import Packrat.Proofs.Reader.Exact

/-! # What is read where nothing is reported

`Silently step P` says of a step that `P` holds between the text ahead and the text behind it, if it ends and reports
nothing. Since a problem stays reported, a reader is silent only if all that it is made of is. So what a reader has
read is told by following its text, and where something is reported nothing has to be told.

`Reads step before A behind` is the converse for a known text: with `before` ahead, the step reports nothing and leaves
`behind`. Neither says that a step ends.
-/

namespace Packrat

namespace Read

variable {α β : Type} {P : α → List Char → List Char → Prop}

theorem eat_eq (text : String) (c : Cursor) : eat text c =
    if text.toList.isPrefixOf c.rest then .ok (true, c.forward text.length) else .ok (false, c) := by
  have ends : Ends (eat text) c fun eaten c' => text.toList.isPrefixOf c.rest = eaten ∧
      c' = if eaten then c.forward text.length else c := by
    rw [ends_eat_last]
    split
    · next found => exact ⟨found, rfl⟩
    · next other => exact ⟨Bool.eq_false_iff.mpr other, rfl⟩
  obtain ⟨eaten, c', ran, found, rfl⟩ := ends
  rw [ran, found]
  cases eaten <;> rfl

theorem build_eq_ok {step : Builder.Step} {c c' : Cursor} {u : Unit} (ran : build step c = .ok (u, c')) :
    c'.toPlace = c.toPlace ∧ c'.marks = c.marks ∧ c'.problems = c.problems := by
  obtain ⟨_, _, ⟨⟩, ran⟩ := bind_eq_ok.mp ran
  cases applied : c.builder.apply step with
  | ok builder =>
    rw [applied] at ran
    cases ran
    exact ⟨rfl, rfl, rfl⟩
  | error e =>
    rw [applied] at ran
    cases ran

/-- A step that gives the marks back has been tried, and a failure is forgotten. -/
theorem attempt_eq_ok {succeeds : α → Bool} {step : Read α} {c c'' : Cursor} {a : α}
    (keeps : ∀ a tried, step { c with marks := c.toPlace :: c.marks } = .ok (a, tried) →
      tried.marks = c.toPlace :: c.marks)
    (ran : attempt succeeds step c = .ok (a, c'')) :
    ∃ tried, step { c with marks := c.toPlace :: c.marks } = .ok (a, tried) ∧
      c'' = if succeeds a then { tried with marks := c.marks }
        else { tried with toPlace := c.toPlace, marks := c.marks } := by
  obtain ⟨_, _, ⟨⟩, rest⟩ := bind_eq_ok.mp ran
  obtain ⟨b, tried, ran₁, -⟩ := bind_eq_ok.mp rest
  have ends : Ends (attempt succeeds step) c _ :=
    Ends.attempt (R := fun a c' => a = b ∧ c' = tried) ⟨b, tried, ran₁, keeps b tried ran₁, rfl, rfl⟩
  obtain ⟨_, _, ran₂, _, ⟨rfl, rfl⟩, same⟩ := ends
  cases ran.symm.trans ran₂
  exact ⟨_, ran₁, same⟩

/-- If the step ends and reports nothing, `P` holds of its answer, of the text ahead and of the text behind it. -/
def Silently (step : Read α) (P : α → List Char → List Char → Prop) : Prop :=
  ∀ c a c', step c = .ok (a, c') → c'.marks = c.marks ∧ c.problems.length ≤ c'.problems.length ∧
    (c'.problems.length = c.problems.length → P a c.rest c'.rest)

theorem Silently.mono {Q : α → List Char → List Char → Prop} {step : Read α} (silently : Silently step P)
    (weaker : ∀ a before after, P a before after → Q a before after) : Silently step Q := by
  intro c a c' ran
  obtain ⟨marks, longer, read⟩ := silently c a c' ran
  exact ⟨marks, longer, fun silent => weaker _ _ _ (read silent)⟩

/-- The steps of a reader are silent one after the other. -/
theorem Silently.bind {R : β → List Char → List Char → Prop} {step : Read β} {next : β → Read α}
    (first : Silently step R)
    (rest : ∀ b, Silently (next b) fun a middle after => ∀ before, R b before middle → P a before after) :
    Silently (step >>= next) P := by
  intro c a c'' ran
  obtain ⟨b, c', ran, ran'⟩ := bind_eq_ok.mp ran
  obtain ⟨marks, longer, read⟩ := first c b c' ran
  obtain ⟨marks', longer', read'⟩ := rest b c' a c'' ran'
  refine ⟨marks'.trans marks, by omega, fun silent => ?_⟩
  apply read' (by omega)
  apply read
  omega

theorem silently_pure {a : α} (holds : ∀ s, P a s s) : Silently (pure a) P := by
  rintro c _ _ ⟨⟩
  exact ⟨rfl, Nat.le_refl _, fun _ => holds c.rest⟩

theorem silently_throw (e : ReadError) : Silently (throw e : Read α) P := by
  rintro c _ _ ⟨⟩

/-- What is looked at is the text ahead. -/
theorem silently_get {next : Cursor → Read α}
    (rest : ∀ c, Silently (next c) fun a before after => before = c.rest → P a before after) :
    Silently (get >>= next) P := by
  intro c a c' ran
  obtain ⟨marks, longer, read⟩ := rest c c a c' ran
  exact ⟨marks, longer, fun silent => read silent rfl⟩

theorem silently_peek {next : Option Char → Read α}
    (rest : ∀ o, Silently (next o) fun a before after => before.head? = o → P a before after) :
    Silently (peek >>= next) P := by
  intro c a c' ran
  obtain ⟨marks, longer, read⟩ := rest c.rest.head? c a c' ran
  exact ⟨marks, longer, fun silent => read silent rfl⟩

theorem silently_atEnd {next : Bool → Read α}
    (rest : ∀ b, Silently (next b) fun a before after => before.isEmpty = b → P a before after) :
    Silently (atEnd >>= next) P := by
  intro c a c' ran
  obtain ⟨marks, longer, read⟩ := rest c.rest.isEmpty c a c' ran
  exact ⟨marks, longer, fun silent => read silent rfl⟩

theorem silently_here {next : Position → Read α} (rest : ∀ place, Silently (next place) P) :
    Silently (here >>= next) P := fun c => rest c.position c

theorem silently_tokenEnd {next : Position → Read α} (rest : ∀ place, Silently (next place) P) :
    Silently (tokenEnd >>= next) P := fun c => rest c.tokenEnd c

theorem silently_steps {next : Nat → Read α} (rest : ∀ limit, Silently (next limit) P) :
    Silently (steps >>= next) P := fun c => rest (c.rest.length + 1) c

theorem silently_skip (count : Nat) : Silently (skip count) fun _ before after => after = before.drop count := by
  rintro c _ _ ⟨⟩
  exact ⟨rfl, Nat.le_refl _, fun _ => rfl⟩

theorem silently_takeWhile (p : Char → Bool) : Silently (takeWhile p) fun taken before after =>
    before = taken ++ after ∧ (∀ d ∈ taken, p d = true) ∧ ∀ d ∈ after.head?, p d = false := by
  rintro c _ _ ⟨⟩
  refine ⟨rfl, Nat.le_refl _, fun _ => ?_⟩
  have split : c.rest = c.rest.takeWhile p ++ c.rest.dropWhile p := List.takeWhile_append_dropWhile.symm
  have left : c.rest.drop (c.rest.takeWhile p).length = c.rest.dropWhile p := by
    have left : (c.rest.takeWhile p ++ c.rest.dropWhile p).drop _ = _ := List.drop_left
    rwa [← split] at left
  change c.rest = _ ++ c.rest.drop _ ∧ _ ∧ ∀ d ∈ (c.rest.drop _).head?, _
  rw [left]
  refine ⟨split, fun d member => List.mem_takeWhile_imp member, fun d member => ?_⟩
  have first := List.head?_dropWhile_not p c.rest
  rw [Option.mem_def.mp member] at first
  exact first

theorem silently_eat (text : String) : Silently (eat text) fun eaten before after =>
    if eaten then before = text.toList ++ after else after = before ∧ ¬ text.toList <+: before := by
  intro c eaten c' ran
  rw [eat_eq] at ran
  split at ran
  · next found =>
    cases ran
    refine ⟨rfl, Nat.le_refl _, fun _ => ?_⟩
    obtain ⟨after, same⟩ := List.isPrefixOf_iff_prefix.mp found
    change c.rest = text.toList ++ c.rest.drop text.length
    rw [← same, ← String.length_toList, List.drop_left]
  · next other =>
    cases ran
    exact ⟨rfl, Nat.le_refl _, fun _ => ⟨rfl, fun found => other (List.isPrefixOf_iff_prefix.mpr found)⟩⟩

/-- Nothing has to be told where a problem is reported. -/
theorem silently_report (kind : ProblemKind) (start stop : Position) (message : String)
    {P : Unit → List Char → List Char → Prop} : Silently (report kind start stop message) P := by
  rintro c _ _ ⟨⟩
  refine ⟨rfl, ?_, fun silent => ?_⟩
  · simp only [List.length_append, Nat.le_add_right]
  · simp only [List.length_append, List.length_singleton] at silent
    omega

theorem silently_reported {kind : ProblemKind} {start stop : Position} {message : String} {next : Unit → Read α}
    (rest : Silently (next ()) fun _ _ _ => True) : Silently (report kind start stop message >>= next) P :=
  Silently.bind (R := fun _ _ _ => False) (silently_report kind start stop message) fun _ =>
    rest.mono fun _ _ _ _ _ silent => silent.elim

theorem silently_build (step : Builder.Step) : Silently (build step) fun _ before after => after = before := by
  intro c _ c' ran
  obtain ⟨place, marks, problems⟩ := build_eq_ok ran
  exact ⟨marks, by rw [problems], fun _ => congrArg Place.rest place⟩

theorem silently_built {step : Builder.Step} {next : Unit → Read α} (rest : Silently (next ()) P) :
    Silently (build step >>= next) P :=
  (silently_build step).bind fun _ => rest.mono fun _ _ _ holds _ same => same ▸ holds

/-- A failure takes nothing, wherever it was noticed. -/
theorem Silently.attempt {succeeds : α → Bool} {step : Read α} (silently : Silently step P) :
    Silently (Read.attempt succeeds step) fun a before after =>
      if succeeds a then P a before after else after = before ∧ ∃ behind, P a before behind := by
  intro c a c'' ran
  obtain ⟨tried, ran, same⟩ := attempt_eq_ok (fun _ _ ran => (silently _ _ _ ran).1) ran
  obtain ⟨-, longer, read⟩ := silently _ a tried ran
  subst same
  cases success : succeeds a with
  | true =>
    refine ⟨rfl, longer, fun silent => ?_⟩
    simp only [success, ↓reduceIte]
    exact read silent
  | false =>
    refine ⟨rfl, longer, fun silent => ?_⟩
    simp only [success, Bool.false_eq_true, ↓reduceIte]
    exact ⟨trivial, tried.rest, read silent⟩

/-- What is told of the successes of a step is told of it being tried. -/
theorem Silently.tried {succeeds : α → Bool} {step : Read α}
    (silently : Silently step fun a before after => succeeds a → P a before after) :
    Silently (Read.attempt succeeds step) fun a before after =>
      if succeeds a then P a before after else after = before := by
  refine silently.attempt.mono fun a before after read => ?_
  split at read
  · next success =>
    rw [if_pos success]
    exact read success
  · next failure =>
    rw [if_neg failure]
    exact read.1

theorem Silently.ahead {step : Read α} (silently : Silently step P) :
    Silently (Read.ahead step) fun a before after => after = before ∧ ∃ behind, P a before behind := by
  rw [ahead_eq_attempt]
  exact silently.attempt

/-- What a loop has read: as many successes, and then a failure. -/
def Repeated (P : Bool → List Char → List Char → Prop) : Nat → List Char → List Char → Prop
  | 0, before, after => P false before after
  | count + 1, before, after => ∃ middle, P true before middle ∧ Repeated P count middle after

theorem silently_countWhile {P : Bool → List Char → List Char → Prop} {step : Read Bool} (silently : Silently step P)
    (limit : Nat) : Silently (countWhile step limit) (Repeated P) := by
  induction limit with
  | zero => exact silently_throw _
  | succ limit ih =>
    refine silently.bind fun more => ?_
    cases more with
    | false => exact silently_pure fun s before failed => failed
    | true => exact ih.bind fun count => silently_pure fun s middle rest before success => ⟨middle, success, rest⟩

/-- With `before` ahead, the step reports nothing and leaves `behind`, and `A` holds of its answer. -/
def Reads (step : Read α) (before : List Char) (A : α → Prop) (behind : List Char) : Prop :=
  ∀ c a c', c.rest = before → step c = .ok (a, c') →
    A a ∧ c'.rest = behind ∧ c'.marks = c.marks ∧ c'.problems = c.problems

variable {A : α → Prop} {before middle behind : List Char}

theorem Takes.reads {a : α} {step : Read α} (takes : Takes step before a behind) :
    Reads step before (· = a) behind := by
  intro c b c' ahead ran
  obtain ⟨_, _, ran', same, passed⟩ := takes c ahead
  cases ran.symm.trans ran'
  exact ⟨same, passed.rest, passed.marks, passed.problems⟩

theorem Reads.mono {B : α → Prop} {step : Read α} (reads : Reads step before A behind) (weaker : ∀ a, A a → B a) :
    Reads step before B behind := by
  intro c a c' ahead ran
  obtain ⟨holds, rest⟩ := reads c a c' ahead ran
  exact ⟨weaker a holds, rest⟩

theorem Reads.bind {B : β → Prop} {step : Read β} {next : β → Read α} (first : Reads step before B middle)
    (rest : ∀ b, B b → Reads (next b) middle A behind) : Reads (step >>= next) before A behind := by
  intro c a c'' ahead ran
  obtain ⟨b, c', ran, ran'⟩ := bind_eq_ok.mp ran
  obtain ⟨holds, left, marks, problems⟩ := first c b c' ahead ran
  obtain ⟨holds', left', marks', problems'⟩ := rest b holds c' a c'' left ran'
  exact ⟨holds', left', marks'.trans marks, problems'.trans problems⟩

theorem reads_pure {a : α} (holds : A a) : Reads (pure a) before A before :=
  (takes_pure a before).reads.mono fun _ same => same ▸ holds

theorem reads_throw (e : ReadError) : Reads (throw e : Read α) before A behind := by
  rintro c _ _ _ ⟨⟩

theorem reads_here {next : Position → Read α} (rest : ∀ place, Reads (next place) before A behind) :
    Reads (here >>= next) before A behind := fun c => rest c.position c

theorem reads_tokenEnd {next : Position → Read α} (rest : ∀ place, Reads (next place) before A behind) :
    Reads (tokenEnd >>= next) before A behind := fun c => rest c.tokenEnd c

theorem reads_steps {next : Nat → Read α} (rest : ∀ limit, Reads (next limit) before A behind) :
    Reads (steps >>= next) before A behind := fun c => rest (c.rest.length + 1) c

theorem reads_get {next : Cursor → Read α} (rest : ∀ c : Cursor, c.rest = before → Reads (next c) before A behind) :
    Reads (get >>= next) before A behind := fun c a c' ahead => rest c ahead c a c' ahead

theorem reads_peek {next : Option Char → Read α} (rest : Reads (next before.head?) before A behind) :
    Reads (peek >>= next) before A behind := by
  rintro c a c' rfl
  exact rest c a c' rfl

theorem reads_atEnd {next : Bool → Read α} (rest : Reads (next before.isEmpty) before A behind) :
    Reads (atEnd >>= next) before A behind := by
  rintro c a c' rfl
  exact rest c a c' rfl

theorem reads_skip (count : Nat) : Reads (skip count) before (fun _ => True) (before.drop count) :=
  (takes_skip count before).reads.mono fun _ _ => trivial

theorem reads_eat (text : String) (behind : List Char) : Reads (eat text) (text.toList ++ behind) (· = true) behind :=
  (takes_eat text behind).reads

theorem reads_eat_none {text : String} (other : ¬ text.toList <+: before) :
    Reads (eat text) before (· = false) before :=
  (takes_eat_none (Bool.eq_false_iff.mpr fun found => other (List.isPrefixOf_iff_prefix.mp found))).reads

theorem reads_build (step : Builder.Step) : Reads (build step) before (fun _ => True) before := by
  intro c _ c' ahead ran
  obtain ⟨place, marks, problems⟩ := build_eq_ok ran
  exact ⟨trivial, (congrArg Place.rest place).trans ahead, marks, problems⟩

theorem reads_built {step : Builder.Step} {next : Unit → Read α} (rest : Reads (next ()) before A behind) :
    Reads (build step >>= next) before A behind := (reads_build step).bind fun _ _ => rest

theorem Reads.attempt {succeeds : α → Bool} {step : Read α} (reads : Reads step before A behind)
    (success : ∀ a, A a → succeeds a = true) : Reads (Read.attempt succeeds step) before A behind := by
  intro c a c'' ahead ran
  obtain ⟨tried, ran, same⟩ := attempt_eq_ok (fun _ _ ran => (reads _ _ _ (by exact ahead) ran).2.2.1) ran
  obtain ⟨holds, rest, -, problems⟩ := reads _ a tried (by exact ahead) ran
  rw [success a holds, if_pos rfl] at same
  subst same
  exact ⟨holds, rest, rfl, problems⟩

theorem Reads.attempt_failed {succeeds : α → Bool} {step : Read α} (reads : Reads step before A behind)
    (failure : ∀ a, A a → succeeds a = false) : Reads (Read.attempt succeeds step) before A before := by
  intro c a c'' ahead ran
  obtain ⟨tried, ran, same⟩ := attempt_eq_ok (fun _ _ ran => (reads _ _ _ (by exact ahead) ran).2.2.1) ran
  obtain ⟨holds, -, -, problems⟩ := reads _ a tried (by exact ahead) ran
  rw [failure a holds, if_neg Bool.false_ne_true] at same
  subst same
  exact ⟨holds, ahead, rfl, problems⟩

theorem Reads.ahead {step : Read α} (reads : Reads step before A behind) : Reads (Read.ahead step) before A before := by
  rw [ahead_eq_attempt]
  exact reads.attempt_failed fun _ _ => rfl

end Read

end Packrat
