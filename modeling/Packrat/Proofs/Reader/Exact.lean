import Packrat.Proofs.Reader.Literal

/-! # Reading a known text

`Takes step before a behind` tells what a step does where the text is known: with `before` ahead it answers `a` and
leaves `behind`, and nothing is reported or built. Steps are put together as in the readers, so what a reader takes can
be told from its text. Blanks end where something else begins, and a name where it cannot go on.
-/

namespace Packrat

namespace Read

variable {α β : Type} {a : α} {c c' c'' : Cursor} {before middle behind : List Char}

/-- `c'` is `c` moved on to `behind`, and nothing else has changed. -/
structure Passed (c c' : Cursor) (behind : List Char) : Prop where
  rest : c'.rest = behind
  marks : c'.marks = c.marks
  problems : c'.problems = c.problems
  builder : c'.builder = c.builder

theorem Passed.refl (c : Cursor) : Passed c c c.rest := ⟨rfl, rfl, rfl, rfl⟩

theorem Passed.trans (first : Passed c c' middle) (second : Passed c' c'' behind) : Passed c c'' behind where
  rest := second.rest
  marks := second.marks.trans first.marks
  problems := second.problems.trans first.problems
  builder := second.builder.trans first.builder

theorem Passed.forward (c : Cursor) (count : Nat) : Passed c (c.forward count) (c.rest.drop count) :=
  ⟨rfl, rfl, rfl, rfl⟩

/-- With `before` ahead the step answers `a` and leaves `behind`. -/
def Takes (step : Read α) (before : List Char) (a : α) (behind : List Char) : Prop :=
  ∀ c : Cursor, c.rest = before → Ends step c fun a' c' => a' = a ∧ Passed c c' behind

theorem takes_pure (a : α) (before : List Char) : Takes (pure a) before a before := by
  rintro c rfl
  exact (ends_pure a).mpr ⟨rfl, .refl c⟩

theorem Takes.bind {b : β} {step : Read β} {next : β → Read α} (first : Takes step before b middle)
    (rest : Takes (next b) middle a behind) : Takes (step >>= next) before a behind := by
  intro c here
  refine (first c here).bind fun _ c' ⟨same, passed⟩ => ?_
  subst same
  refine (rest c' passed.rest).mono fun _ _ ⟨same, passed'⟩ => ⟨same, passed.trans passed'⟩

theorem takes_here {next : Position → Read α} (rest : ∀ place, Takes (next place) before a behind) :
    Takes (here >>= next) before a behind :=
  fun c ahead => ends_here.mpr (rest c.position c ahead)

theorem takes_peek {next : Option Char → Read α} (rest : Takes (next before.head?) before a behind) :
    Takes (peek >>= next) before a behind := by
  rintro c rfl
  exact ends_peek.mpr (rest c rfl)

theorem takes_steps {next : Nat → Read α} (rest : Takes (next (before.length + 1)) before a behind) :
    Takes (steps >>= next) before a behind := by
  rintro c rfl
  exact ends_steps.mpr (rest c rfl)

theorem takes_skip (count : Nat) (before : List Char) : Takes (skip count) before () (before.drop count) := by
  rintro c rfl
  exact ends_skip_last.mpr ⟨rfl, .forward c count⟩

private theorem takeWhile_append {p : Char → Bool} {text : List Char} (all : ∀ d ∈ text, p d = true)
    (stops : ∀ d ∈ behind.head?, p d = false) : (text ++ behind).takeWhile p = text := by
  rw [List.takeWhile_append_of_pos all]
  cases behind with
  | nil => rw [List.takeWhile_nil, List.append_nil]
  | cons d behind => rw [List.takeWhile_cons_of_neg (Bool.eq_false_iff.mp (stops d rfl)), List.append_nil]

theorem takes_takeWhile {p : Char → Bool} {text : List Char} (all : ∀ d ∈ text, p d = true)
    (stops : ∀ d ∈ behind.head?, p d = false) : Takes (takeWhile p) (text ++ behind) text behind := by
  intro c here
  rw [ends_last, ends_takeWhile, ends_pure, here, takeWhile_append all stops]
  refine ⟨rfl, ?_, rfl, rfl, rfl⟩
  rw [Cursor.rest_forward, here, List.drop_left]

theorem takes_eat (text : String) (behind : List Char) : Takes (eat text) (text.toList ++ behind) true behind := by
  intro c here
  have next : text.toList.isPrefixOf c.rest = true := by
    rw [here, List.isPrefixOf_iff_prefix]
    exact List.prefix_append ..
  rw [ends_eat_last, if_pos next]
  refine ⟨rfl, ?_, rfl, rfl, rfl⟩
  rw [Cursor.rest_forward, here, ← String.length_toList, List.drop_left]

theorem takes_eat_none {text : String} (other : text.toList.isPrefixOf before = false) :
    Takes (eat text) before false before := by
  rintro c rfl
  rw [ends_eat_last, other, if_neg Bool.false_ne_true]
  exact ⟨rfl, .refl c⟩

theorem Takes.attempt {succeeds : α → Bool} {step : Read α} (taken : Takes step before a behind)
    (success : succeeds a = true) : Takes (Read.attempt succeeds step) before a behind := by
  intro c here
  have tried := taken { c with marks := c.toPlace :: c.marks } here
  refine Ends.mono (Ends.attempt (tried.mono fun a' c' holds => ⟨holds.2.marks, holds⟩)) ?_
  rintro _ c' ⟨marked, ⟨rfl, passed⟩, rfl⟩
  rw [if_pos success]
  exact ⟨rfl, passed.rest, rfl, passed.problems, passed.builder⟩

/-- Wherever a step has moved on to when it fails, it is tried in vain. -/
theorem takes_attempt_failed {succeeds : α → Bool} {step : Read α} (failure : succeeds a = false)
    (tried : ∀ c : Cursor, c.rest = before → Ends step c fun a' c' => a' = a ∧ Passed c c' c'.rest) :
    Takes (Read.attempt succeeds step) before a before := by
  intro c here
  have tried := tried { c with marks := c.toPlace :: c.marks } here
  refine Ends.mono (Ends.attempt (tried.mono fun a' c' holds => ⟨holds.2.marks, holds⟩)) ?_
  rintro _ c' ⟨marked, ⟨rfl, passed⟩, rfl⟩
  rw [failure, if_neg Bool.false_ne_true]
  exact ⟨rfl, here, rfl, passed.problems, passed.builder⟩

theorem Takes.ahead {step : Read α} (taken : Takes step before a behind) : Takes (Read.ahead step) before a before := by
  rw [ahead_eq_attempt]
  refine takes_attempt_failed rfl fun c here => (taken c here).mono ?_
  rintro _ _ ⟨rfl, passed⟩
  exact ⟨rfl, rfl, passed.marks, passed.problems, passed.builder⟩

/-- The text behind the blanks. -/
def settle (s : List Char) : List Char := s.dropWhile isBlank

/-- No comment stands behind the blanks. -/
def Calm (s : List Char) : Prop := ∀ rest, settle s ≠ '/' :: '/' :: rest ∧ settle s ≠ '/' :: '*' :: rest

theorem settle_cons_of_blank {first : Char} {s : List Char} (blank : isBlank first = true) :
    settle (first :: s) = settle s := List.dropWhile_cons_of_pos blank

theorem settle_cons_of_not_blank {first : Char} {s : List Char} (solid : isBlank first = false) :
    settle (first :: s) = first :: s := List.dropWhile_cons_of_neg (Bool.eq_false_iff.mp solid)

theorem calm_cons {first : Char} {s : List Char} (solid : isBlank first = false) (other : first ≠ '/') :
    Calm (first :: s) := by
  intro rest
  rw [settle_cons_of_not_blank solid]
  exact ⟨fun same => other (List.cons.inj same).1, fun same => other (List.cons.inj same).1⟩

private theorem blank_codes : ∀ i ∈ Unicode.whiteSpace.intervals.toList,
    ∀ n ∈ List.range' i.lo.toNat (i.hi.toNat + 1 - i.lo.toNat),
      isNamePart (Char.ofNat n) = false ∧ (Char.ofNat n).isDigit = false := by decide +kernel

/-- A blank is no part of a name or of a number. -/
theorem of_blank {d : Char} (blank : isBlank d = true) : isNamePart d = false ∧ d.isDigit = false := by
  obtain ⟨i, member, above, below⟩ := Charset.exists_of_contains blank
  have inside := blank_codes i member d.toNat
  rw [Char.ofNat_toNat] at inside
  refine inside (List.mem_range'_1.mpr ⟨above, ?_⟩)
  have : d.toNat ≤ i.hi.toNat := below
  omega

theorem solid_of_nameStart {d : Char} (start : isNameStart d = true) : isBlank d = false := by
  refine Bool.eq_false_iff.mpr fun blank => ?_
  have part := isNamePart_of_start start
  rw [(of_blank blank).1] at part
  cases part

/-- The signs of the grammar language. -/
def signs : List Char := "'\"[]<>.()$@!&?*+\x7b\x7d,;:=-/|~".toList

/-- What the characters of a text have one by one, all of them have. -/
theorem forall_of_all {P : Char → Prop} [DecidablePred P] {s : List Char} (each : s.all (fun d => decide (P d)) = true) :
    ∀ d ∈ s, P d := fun d member => of_decide_eq_true (List.all_eq_true.mp each d member)

private theorem of_sign : ∀ d ∈ signs, isBlank d = false ∧ isNamePart d = false := forall_of_all (by decide +kernel)

theorem isBlank_of_sign (d : Char) (member : d ∈ signs) : isBlank d = false := (of_sign d member).1

theorem isNamePart_of_sign (d : Char) (member : d ∈ signs) : isNamePart d = false := (of_sign d member).2

theorem isBlank_blank : isBlank ' ' = true := by decide +kernel

theorem isNamePart_blank : isNamePart ' ' = false := (of_blank isBlank_blank).1

/-- A name does not begin with a sign. -/
theorem ne_sign_of_nameStart {d sign : Char} (start : isNameStart d = true) (member : sign ∈ signs) : d ≠ sign := by
  rintro rfl
  have part := isNamePart_of_start start
  rw [isNamePart_of_sign d member] at part
  cases part

theorem isNameStart_of_sign {sign : Char} (member : sign ∈ signs) : isNameStart sign = false :=
  Bool.eq_false_iff.mpr fun start => ne_sign_of_nameStart start member rfl

theorem settle_sign {sign : Char} {s : List Char} (member : sign ∈ signs) : settle (sign :: s) = sign :: s :=
  settle_cons_of_not_blank (isBlank_of_sign sign member)

theorem calm_sign {sign : Char} {s : List Char} (member : sign ∈ signs) (other : sign ≠ '/') : Calm (sign :: s) :=
  calm_cons (isBlank_of_sign sign member) other

theorem settle_blank (s : List Char) : settle (' ' :: s) = settle s := settle_cons_of_blank isBlank_blank

theorem calm_blank {s : List Char} (calm : Calm s) : Calm (' ' :: s) := by
  intro rest
  rw [settle_blank]
  exact calm rest

theorem takes_skipBlank (reporting : Bool) {first : Char} (blank : isBlank first = true) (behind : List Char) :
    Takes (skipBlank reporting) (first :: behind) true behind := by
  have other : first ≠ '/' := by
    rintro rfl
    rw [isBlank_of_sign '/' (by decide)] at blank
    cases blank
  intro c here
  rw [skipBlank, ends_get, here]
  split
  · next same => exact absurd (List.cons.inj same).1 other
  · next same => exact absurd (List.cons.inj same).1 other
  · next same =>
    obtain ⟨rfl, rfl⟩ := List.cons.inj same
    rw [if_pos blank, ends_skip, ends_pure]
    refine ⟨rfl, ?_, rfl, rfl, rfl⟩
    rw [Cursor.rest_forward, here]
    rfl
  · next same => cases same

/-- Where neither a blank nor a comment is next, no more is skipped. -/
theorem takes_skipBlank_none (reporting : Bool) (calm : Calm before) (settled : settle before = before) :
    Takes (skipBlank reporting) before false before := by
  intro c here
  rw [skipBlank, ends_get]
  split
  · next rest same =>
    have comment := (calm rest).1
    rw [settled, ← here] at comment
    exact absurd same comment
  · next rest same =>
    have comment := (calm rest).2
    rw [settled, ← here] at comment
    exact absurd same comment
  · next first rest _ _ same =>
    have solid : isBlank first = false := by
      rw [← here, same] at settled
      by_contra blank
      rw [settle_cons_of_blank (Bool.not_eq_false _ ▸ blank)] at settled
      have shorter := congrArg List.length settled
      have := (List.dropWhile_sublist isBlank (l := rest)).length_le
      rw [settle, List.length_cons] at shorter
      omega
    rw [solid, if_neg Bool.false_ne_true, ends_pure]
    exact ⟨rfl, here ▸ .refl c⟩
  · exact (ends_pure _).mpr ⟨rfl, here ▸ .refl c⟩

theorem takes_skipSpacing (reporting : Bool) (calm : Calm before) :
    Takes (skipSpacing reporting) before () (settle before) := by
  have loop {limit : Nat} (enough : before.length < limit) :
      ∃ count, Takes (countWhile (skipBlank reporting) limit) before count (settle before) := by
    induction before generalizing limit with
    | nil =>
      obtain ⟨limit, rfl⟩ := Nat.exists_eq_add_one_of_ne_zero (Nat.ne_zero_of_lt enough)
      exact ⟨0, (takes_skipBlank_none reporting calm rfl).bind (takes_pure 0 [])⟩
    | cons first rest ih =>
      obtain ⟨limit, rfl⟩ := Nat.exists_eq_add_one_of_ne_zero (Nat.ne_zero_of_lt enough)
      cases blank : isBlank first with
      | true =>
        have same := settle_cons_of_blank blank (s := rest)
        obtain ⟨count, taken⟩ := ih (fun rest' => same ▸ calm rest') (Nat.lt_of_succ_lt_succ enough)
        rw [same]
        exact ⟨count + 1, (takes_skipBlank reporting blank rest).bind (taken.bind (takes_pure _ _))⟩
      | false =>
        have same := settle_cons_of_not_blank blank (s := rest)
        rw [same]
        exact ⟨0, (takes_skipBlank_none reporting calm same).bind (takes_pure 0 _)⟩
  obtain ⟨count, taken⟩ := loop (Nat.lt_succ_self _)
  exact takes_steps (taken.bind (takes_pure () _))

theorem takes_spacing (calm : Calm before) : Takes spacing before () (settle before) := by
  intro c here
  refine (takes_skipSpacing true calm { c with tokenEnd := c.position } here).mono fun _ c' ⟨same, passed⟩ => ?_
  exact ⟨same, passed.rest, passed.marks, passed.problems, passed.builder⟩

theorem takes_identifier {name : String} (named : IsName name) (stops : ∀ d ∈ behind.head?, isNamePart d = false) :
    Takes identifier (name.toList ++ behind) (some name) behind := by
  intro c here
  obtain ⟨first, rest, same, start, parts⟩ := named
  have all : ∀ d ∈ name.toList, isNamePart d = true := by
    intro d member
    rw [same] at member
    rcases List.mem_cons.mp member with rfl | member
    · exact isNamePart_of_start start
    · exact parts d member
  have taken := takeWhile_append all stops
  have head : c.rest = first :: (rest ++ behind) := by rw [here, same, List.cons_append]
  refine ⟨_, _, identifier_ran head start, ?_, ?_, rfl, rfl, rfl⟩
  · rw [here, taken, String.ofList_toList]
  · rw [Cursor.rest_forward, here, taken, List.drop_left]

theorem takes_identifier_none (none : ∀ first ∈ before.head?, isNameStart first = false) :
    Takes identifier before Option.none before := by
  rintro c rfl
  exact ⟨_, _, identifier_ran_none none, rfl, .refl c⟩

/-- A character that does not continue an operand with its signs. -/
def endsUnary (d : Char) : Bool := d ∉ "-:=?*+\x7b".toList

/-- A character that begins an operand. -/
def opensOperand (d : Char) : Bool := d ∈ "'\"[<.($@".toList || isNameStart d

/-- A character that begins an operand or stands before one. -/
def opensUnary (d : Char) : Bool := d ∈ "!&".toList || opensOperand d

/-- The text begins with a `start` and not like an arrow. -/
def Opens (start : Char → Bool) (text : List Char) : Prop :=
  ∃ first rest, text = first :: rest ∧ start first = true ∧ (first = '<' → ∃ d more, rest = d :: more ∧ d ≠ '-')

variable {start : Char → Bool} {text : List Char}

theorem Opens.unary (opens : Opens opensOperand text) : Opens opensUnary text := by
  obtain ⟨first, rest, same, begins, arrow⟩ := opens
  exact ⟨first, rest, same, (Bool.or_eq_true ..).mpr (.inr begins), arrow⟩

theorem opens_sign {sign : Char} (begins : start sign = true) (other : sign ≠ '<') (s : List Char) :
    Opens start (sign :: s) := ⟨sign, s, rfl, begins, fun less => absurd less other⟩

theorem opensUnary_spec {d : Char} (opens : opensUnary d = true) :
    isBlank d = false ∧ d ≠ '/' ∧ endsUnary d = true := by
  rw [opensUnary, opensOperand, ← Bool.or_assoc, Bool.or_eq_true, ← Bool.decide_or, decide_eq_true_eq,
    ← List.mem_append] at opens
  rcases opens with sign | start
  · have all : ∀ d ∈ "!&".toList ++ "'\"[<.($@".toList, d ∈ signs ∧ d ≠ '/' ∧ endsUnary d = true := forall_of_all (by decide)
    obtain ⟨member, rest⟩ := all d sign
    exact ⟨isBlank_of_sign d member, rest⟩
  · have all : ∀ d ∈ "-:=?*+\x7b".toList, d ∈ signs := forall_of_all (by decide)
    refine ⟨solid_of_nameStart start, ne_sign_of_nameStart start (by decide), ?_⟩
    rw [endsUnary, decide_eq_true_eq]
    exact fun member => ne_sign_of_nameStart start (all d member) rfl

end Read

end Packrat
