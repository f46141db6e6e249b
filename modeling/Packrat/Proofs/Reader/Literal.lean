import Packrat.Proofs.Charset
import Packrat.Proofs.Reader.Ends
import Mathlib.Data.List.TakeWhile

/-! # Reading blanks, names and literals

Blanks, comments, names, strings, sets and numbers can be read wherever the reader is, whatever the text there is.
Reading them leaves the marks and the grammar under construction alone and never goes back in the text. What is
read without reporting changes nothing but the place.
-/

namespace Packrat

namespace Cursor

@[simp] theorem rest_forward (c : Cursor) (count : Nat) : (c.forward count).rest = c.rest.drop count := rfl

@[simp] theorem marks_forward (c : Cursor) (count : Nat) : (c.forward count).marks = c.marks := rfl

@[simp] theorem builder_forward (c : Cursor) (count : Nat) : (c.forward count).builder = c.builder := rfl

theorem forward_forward (c : Cursor) (m n : Nat) : (c.forward m).forward n = c.forward (m + n) := by
  simp only [forward, List.drop_drop, List.take_add, Position.advance_append]

end Cursor

namespace Read

variable {α : Type} {c c' c'' : Cursor} {reporting : Bool}

/-- `c'` is `c` after reading on, with the same marks and the same grammar under construction. -/
structure Onward (c c' : Cursor) : Prop where
  rest : c'.rest.length ≤ c.rest.length
  marks : c'.marks = c.marks
  builder : c'.builder = c.builder

/-- `c'` is `c` after reading on. Without reporting, only the place is another one. -/
def After (reporting : Bool) (c c' : Cursor) : Prop :=
  if reporting then Onward c c' else ∃ count, c' = c.forward count

theorem Onward.refl (c : Cursor) : Onward c c := ⟨Nat.le_refl _, rfl, rfl⟩

theorem Onward.trans (first : Onward c c') (second : Onward c' c'') : Onward c c'' :=
  ⟨Nat.le_trans second.rest first.rest, second.marks.trans first.marks, second.builder.trans first.builder⟩

theorem onward_forward (c : Cursor) (count : Nat) : Onward c (c.forward count) := ⟨by simp, rfl, rfl⟩

theorem after_true : After true c c' ↔ Onward c c' := Iff.rfl

theorem After.forward (reporting : Bool) (c : Cursor) (count : Nat) : After reporting c (c.forward count) := by
  cases reporting with
  | true => exact onward_forward c count
  | false => exact ⟨count, rfl⟩

theorem After.refl (reporting : Bool) (c : Cursor) : After reporting c c := .forward reporting c 0

theorem After.trans (first : After reporting c c') (second : After reporting c' c'') : After reporting c c'' := by
  cases reporting with
  | true => exact Onward.trans first second
  | false =>
    obtain ⟨m, rfl⟩ := first
    obtain ⟨n, rfl⟩ := second
    exact ⟨m + n, c.forward_forward m n⟩

theorem After.onward (after : After reporting c c') : Onward c c' := by
  cases reporting with
  | true => exact after
  | false =>
    obtain ⟨count, rfl⟩ := after
    exact onward_forward c count

/-- Reading on and then over at least one character. -/
theorem length_forward_lt {count : Nat} (nonempty : c.rest ≠ []) (positive : 0 < count) :
    (c.forward count).rest.length < c.rest.length := by
  have := List.length_pos_iff.mpr nonempty
  simp only [Cursor.rest_forward, List.length_drop]
  omega

/-- What has read on behind the first character has read something. -/
theorem After.less {count : Nat} (after : After reporting (c.forward count) c') (nonempty : c.rest ≠ [])
    (positive : 0 < count) : c'.rest.length < c.rest.length :=
  Nat.lt_of_le_of_lt after.onward.rest (length_forward_lt nonempty positive)

/-- Reporting a problem does not move. -/
theorem After.report {kind : ProblemKind} {start stop : Position} {message : String} (after : After true c c') :
    After true c { c' with problems := c'.problems ++ [⟨kind, none, some ⟨start, stop⟩, message⟩] } :=
  ⟨after.rest, after.marks, after.builder⟩

/-- Whatever is next, the step ends and has read on. -/
def Total (reporting : Bool) (step : Read α) : Prop := ∀ c, Ends step c fun _ c' => After reporting c c'

/-- Whatever is next, the step ends and has read on, and its answer has the property. -/
def Answers (P : α → Prop) (step : Read α) : Prop := ∀ c, Ends step c fun a c' => Onward c c' ∧ P a

/-- Whatever is next, the step ends and has read on, its answer has the property, and it has read something if it
succeeded. -/
def Tries (reporting : Bool) (succeeds : α → Bool) (P : α → Prop) (step : Read α) : Prop :=
  ∀ c, Ends step c fun a c' =>
    After reporting c c' ∧ P a ∧ (succeeds a → c'.rest.length < c.rest.length)

theorem Tries.total {succeeds : α → Bool} {P : α → Prop} {step : Read α} (tries : Tries reporting succeeds P step) :
    Total reporting step := fun c => (tries c).mono fun _ _ holds => holds.1

theorem total_pure (reporting : Bool) (a : α) : Total reporting (pure a) :=
  fun c => (ends_pure a).mpr (.refl reporting c)

theorem Total.bind {β : Type} {step : Read β} {next : β → Read α} (first : Total reporting step)
    (rest : ∀ b, Total reporting (next b)) : Total reporting (step >>= next) :=
  fun c => (first c).bind fun b c' before => (rest b c').mono fun _ _ after => before.trans after

theorem total_peek (reporting : Bool) : Total reporting peek := fun c => ⟨_, c, rfl, .refl reporting c⟩

theorem total_here (reporting : Bool) : Total reporting here := fun c => ⟨_, c, rfl, .refl reporting c⟩

theorem total_skip (reporting : Bool) (count : Nat) : Total reporting (skip count) :=
  fun c => ⟨_, _, rfl, .forward reporting c count⟩

theorem total_takeWhile (reporting : Bool) (p : Char → Bool) : Total reporting (takeWhile p) :=
  fun c => ⟨_, _, rfl, .forward reporting c _⟩

theorem total_eat (reporting : Bool) (text : String) : Total reporting (eat text) := by
  intro c
  rw [ends_eat_last]
  split
  · exact .forward reporting c _
  · exact .refl reporting c

theorem total_report (kind : ProblemKind) (start stop : Position) (message : String) :
    Total true (report kind start stop message) :=
  fun c => ⟨_, _, rfl, (After.refl true c).report⟩

/-- A step that reports nothing may be taken where reporting is allowed. -/
theorem Total.onward {step : Read α} (total : Total reporting step) : Total true step :=
  fun c => (total c).mono fun _ _ after => after.onward

/-- A silent step that only looks ahead leaves everything as it was. -/
theorem ends_ahead {step : Read α} {P : α → Prop}
    (ends : Ends step { c with marks := c.toPlace :: c.marks } fun a before =>
      After false { c with marks := c.toPlace :: c.marks } before ∧ P a) :
    Ends (Read.ahead step) c fun a c' => c' = c ∧ P a := by
  have tried := @Ends.ahead _ c step (fun a before => (∃ count, before =
      ({ c with marks := c.toPlace :: c.marks } : Cursor).forward count) ∧ P a)
    (ends.mono fun a before ⟨⟨count, same⟩, holds⟩ => ⟨same ▸ rfl, ⟨count, same⟩, holds⟩)
  refine tried.mono fun a c' ⟨before, ⟨⟨count, moved⟩, holds⟩, same⟩ => ⟨?_, holds⟩
  subst same moved
  rfl

/-- A silent step can be tried, and then reads nothing unless it succeeds. -/
theorem Tries.attempt {succeeds : α → Bool} {P : α → Prop} {step : Read α} (tries : Tries false succeeds P step)
    (c : Cursor) : Ends (Read.attempt succeeds step) c fun a c' =>
      P a ∧ if succeeds a then (∃ count, c' = c.forward count) ∧ c'.rest.length < c.rest.length else c' = c := by
  have tried := @Ends.attempt _ c succeeds step
    (fun a before => P a ∧ (∃ count, before = ({ c with marks := c.toPlace :: c.marks } : Cursor).forward count) ∧
      (succeeds a → before.rest.length < c.rest.length))
    ((tries _).mono fun a before ⟨⟨count, same⟩, holds, less⟩ => ⟨same ▸ rfl, holds, ⟨count, same⟩, less⟩)
  refine tried.mono fun a c' ⟨before, ⟨holds, ⟨count, moved⟩, less⟩, same⟩ => ⟨holds, ?_⟩
  subst same moved
  split
  · next succeeded => exact ⟨⟨count, rfl⟩, less succeeded⟩
  · rfl

section Blanks

private theorem ends_restOfLine (c : Cursor) : Ends restOfLine c fun _ c' =>
    After false c c' ∧ (c.rest ≠ [] → c'.rest.length < c.rest.length) := by
  rw [restOfLine, ends_takeWhile, ends_skip_last, Cursor.forward_forward]
  exact ⟨.forward _ c _, fun nonempty => length_forward_lt nonempty (Nat.succ_pos _)⟩

private theorem ends_blockComment (reporting : Bool) (c : Cursor) : Ends (blockComment reporting) c fun _ c' =>
    After reporting c c' ∧ (c.rest ≠ [] → c'.rest.length < c.rest.length) := by
  rw [blockComment, ends_here, ends_skip, ends_get]
  rcases commentBody (c.forward 2).rest with ⟨body, closed⟩
  have moved : After reporting c ((c.forward 2).forward body.length) := (After.forward _ c 2).trans (.forward _ _ _)
  have less (nonempty : c.rest ≠ []) : ((c.forward 2).forward body.length).rest.length < c.rest.length := by
    rw [Cursor.forward_forward]
    exact length_forward_lt nonempty (by omega)
  dsimp only
  rw [ends_skip]
  cases reporting with
  | false =>
    rw [Bool.and_false, if_neg Bool.false_ne_true, ends_pure]
    exact ⟨moved, less⟩
  | true =>
    cases closed with
    | true =>
      rw [Bool.not_true, Bool.false_and, if_neg Bool.false_ne_true, ends_pure]
      exact ⟨moved, less⟩
    | false =>
      simp only [Bool.not_false, Bool.and_true, ↓reduceIte, ends_here, ends_report_last]
      exact ⟨moved.report, less⟩

theorem tries_skipBlank (reporting : Bool) : Tries reporting id (fun _ => True) (skipBlank reporting) := by
  intro c
  rw [skipBlank, ends_get]
  split
  · next here =>
    refine (ends_restOfLine c).bind fun _ c' ⟨⟨count, moved⟩, less⟩ => ?_
    rw [ends_pure]
    exact ⟨moved ▸ .forward reporting c count, trivial, fun _ => less (by simp [here])⟩
  · next here =>
    refine (ends_blockComment reporting c).bind fun _ c' ⟨after, less⟩ => ?_
    rw [ends_pure]
    exact ⟨after, trivial, fun _ => less (by simp [here])⟩
  · next here =>
    split
    · rw [ends_skip, ends_pure]
      exact ⟨.forward reporting c 1, trivial, fun _ => length_forward_lt (by simp [here]) Nat.one_pos⟩
    · rw [ends_pure]
      exact ⟨.refl reporting c, trivial, nofun⟩
  · rw [ends_pure]
    exact ⟨.refl reporting c, trivial, nofun⟩

theorem total_skipSpacing (reporting : Bool) : Total reporting (skipSpacing reporting) := by
  intro c
  rw [skipSpacing, ends_steps]
  refine (ends_countWhile (I := fun _ c' => After reporting c c') ?_ (Nat.lt_succ_self _) (.refl _ c)).bind ?_
  · intro _ c' before
    refine (tries_skipBlank reporting c').mono fun more c'' ⟨after, _, less⟩ => ?_
    cases more with
    | true => exact ⟨before.trans after, less rfl⟩
    | false => exact before.trans after
  · exact fun _ _ after => (ends_pure _).mpr after

theorem total_spacing : Total true spacing := by
  intro c
  refine (total_skipSpacing true { c with tokenEnd := c.position }).mono fun _ c' onward => ?_
  exact ⟨onward.rest, onward.marks, onward.builder⟩

end Blanks

section Names

/-- The text is a name of the grammar syntax. -/
def IsName (name : String) : Prop :=
  ∃ first rest, name.toList = first :: rest ∧ isNameStart first = true ∧ ∀ c ∈ rest, isNamePart c = true

instance (name : String) : Decidable (IsName name) :=
  decidable_of_iff ((name.toList.head?.any isNameStart && name.toList.tail.all isNamePart) = true) (by
    unfold IsName
    cases name.toList <;> simp)

theorem isNamePart_of_start {c : Char} (start : isNameStart c = true) : isNamePart c = true := by
  rw [isNameStart, Bool.or_eq_true] at start
  rw [isNamePart, Bool.or_eq_true, Bool.or_eq_true]
  exact start.imp_left .inl

theorem isName_takeWhile {first : Char} {rest : List Char} (start : isNameStart first = true) :
    IsName (String.ofList ((first :: rest).takeWhile isNamePart)) := by
  rw [List.takeWhile_cons_of_pos (isNamePart_of_start start)]
  exact ⟨first, _, String.toList_ofList, start, fun c member => List.mem_takeWhile_imp member⟩

/-- Where a name starts, it is read to its end. -/
theorem identifier_ran {first : Char} {rest : List Char} (here : c.rest = first :: rest)
    (start : isNameStart first = true) : identifier c =
      .ok (some (String.ofList (c.rest.takeWhile isNamePart)), c.forward (c.rest.takeWhile isNamePart).length) := by
  have ends : Ends identifier c fun found c' => found = some (String.ofList (c.rest.takeWhile isNamePart)) ∧
      c' = c.forward (c.rest.takeWhile isNamePart).length := by
    rw [identifier, ends_peek, here, List.head?_cons]
    dsimp only
    rw [if_pos start, ends_takeWhile, ends_pure, here]
    exact ⟨rfl, rfl⟩
  obtain ⟨_, _, ran, rfl, rfl⟩ := ends
  exact ran

/-- Where no name starts, nothing is read. -/
theorem identifier_ran_none (none : ∀ first ∈ c.rest.head?, isNameStart first = false) :
    identifier c = .ok (Option.none, c) := by
  have ends : Ends identifier c fun found c' => found = Option.none ∧ c' = c := by
    rw [identifier, ends_peek]
    cases here : c.rest with
    | nil => exact (ends_pure _).mpr ⟨rfl, rfl⟩
    | cons first rest =>
      rw [here] at none
      rw [List.head?_cons]
      dsimp only
      rw [none first rfl, if_neg Bool.false_ne_true, ends_pure]
      exact ⟨rfl, rfl⟩
  obtain ⟨_, _, ran, rfl, rfl⟩ := ends
  exact ran

theorem tries_identifier : Tries false Option.isSome (fun found => ∀ name ∈ found, IsName name) identifier := by
  intro c
  cases here : c.rest with
  | nil =>
    refine ⟨_, _, identifier_ran_none (by rw [here]; nofun), .refl _ c, nofun, nofun⟩
  | cons first rest =>
    cases start : isNameStart first with
    | true =>
      have part : 0 < (c.rest.takeWhile isNamePart).length := by
        rw [here, List.takeWhile_cons_of_pos (isNamePart_of_start start)]
        exact Nat.succ_pos _
      refine ⟨_, _, identifier_ran here start, .forward _ c _, ?_, fun _ => ?_⟩
      · rintro _ ⟨⟩
        rw [here]
        exact isName_takeWhile start
      · rw [← here]
        exact length_forward_lt (by simp [here]) part
    | false =>
      refine ⟨_, _, identifier_ran_none ?_, .refl _ c, nofun, nofun⟩
      rw [here]
      rintro _ ⟨⟩
      exact start

theorem total_assignment : Total false assignment := by
  refine (total_eat false "::=").bind fun eaten => ?_
  cases eaten with
  | true => exact total_pure _ _
  | false =>
    refine (total_eat false ":").bind fun eaten => ?_
    cases eaten with
    | true => exact total_pure _ _
    | false =>
      refine (total_eat false "=").bind fun eaten => ?_
      cases eaten with
      | true => exact total_pure _ _
      | false => exact total_eat false "<-"

/-- Looking for a production changes nothing. If there is one, a name is next. -/
theorem ends_atProductionHead (c : Cursor) : Ends atProductionHead c fun head c' =>
    c' = c ∧ (head → ∃ first rest, c.rest = first :: rest ∧ isNameStart first = true) := by
  refine ends_ahead ?_
  simp only [identifier, bind_assoc, ends_peek]
  cases here : c.rest with
  | nil =>
    simp only [List.head?_nil, pure_bind, ends_pure]
    exact ⟨.refl _ _, fun head => absurd head Bool.false_ne_true⟩
  | cons first rest =>
    simp only [List.head?_cons]
    split
    · next start =>
      simp only [bind_assoc, pure_bind, ends_takeWhile]
      refine ((total_skipSpacing false).bind fun _ => total_assignment) _ |>.mono fun head c' after => ?_
      exact ⟨.trans (.forward _ _ _) after, fun _ => ⟨first, rest, rfl, start⟩⟩
    · simp only [pure_bind, ends_pure]
      exact ⟨.refl _ _, fun head => absurd head Bool.false_ne_true⟩

end Names

section Strings

theorem total_unicodeEscape (start : Position) (reporting : Bool) : Total reporting (unicodeEscape start reporting) := by
  intro c
  simp only [unicodeEscape, ends_get, ends_skip]
  generalize (c.rest.take 4).takeWhile _ = digits
  generalize (ite (digits.length = 4) _ _ : Option Char) = decoded
  have moved := After.forward reporting c digits.length
  split
  · next loud =>
    obtain ⟨-, rfl⟩ := (Bool.and_eq_true _ _).mp loud
    simp only [ends_here, ends_report, ends_pure]
    exact moved.report
  · rw [ends_pure]
    exact moved

/-- An escape is read from its backslash on. -/
theorem ends_escape (reporting : Bool) (c : Cursor) : Ends (escape reporting) c fun _ c' =>
    After reporting c c' ∧ (c.rest ≠ [] → c'.rest.length < c.rest.length) := by
  have behind {c' : Cursor} {count : Nat} (after : After reporting (c.forward (count + 1)) c') :
      After reporting c c' ∧ (c.rest ≠ [] → c'.rest.length < c.rest.length) :=
    ⟨.trans (.forward _ _ _) after, fun nonempty => after.less nonempty (Nat.succ_pos _)⟩
  rw [escape, ends_here, ends_skip, ends_peek]
  split
  · rw [ends_skip, Cursor.forward_forward]
    exact (total_unicodeEscape c.position reporting _).mono fun _ _ after => behind after
  · split
    · rw [ends_skip, Cursor.forward_forward, ends_pure]
      exact behind (.refl _ _)
    · split
      · next loud =>
        subst loud
        split
        · simp only [ends_skip, ends_here, ends_report, ends_pure, Cursor.forward_forward]
          exact behind (After.refl _ _).report
        · simp only [ends_here, ends_report, ends_pure]
          exact behind (After.refl _ _).report
      · split
        · simp only [ends_skip, ends_pure, Cursor.forward_forward]
          exact behind (.refl _ _)
        · rw [ends_pure]
          exact behind (.refl _ _)

/-- The text behind the opening quote, with enough steps for all of it. -/
private theorem ends_quotedText_go (quote : Char) (start : Position) {limit : Nat} {c : Cursor}
    (enough : c.rest.length < limit) : Ends (quotedText.go quote start limit) c fun _ c' => Onward c c' := by
  induction limit generalizing c with
  | zero => omega
  | succ limit ih =>
    rw [quotedText.go, ends_peek]
    cases here : c.rest with
    | nil =>
      simp only [List.head?_nil, ends_here, ends_report, ends_pure]
      exact After.report (.refl true c)
    | cons d rest =>
      have nonempty : c.rest ≠ [] := by simp [here]
      simp only [List.head?_cons]
      split
      · simp only [ends_here, ends_report, ends_pure]
        exact After.report (.refl true c)
      split
      · rw [ends_skip, ends_pure]
        exact onward_forward c 1
      split
      · refine (ends_escape true c).bind fun decoded c' holds => ?_
        have less := holds.2 nonempty
        refine (ih (by omega)).bind fun more c'' onward => ?_
        rw [ends_pure]
        exact Onward.trans holds.1 onward
      · rw [ends_skip]
        have less := length_forward_lt nonempty Nat.one_pos
        refine (ih (by omega)).bind fun more c' onward => ?_
        rw [ends_pure]
        exact (onward_forward c 1).trans onward

theorem ends_quotedText (quote : Char) (c : Cursor) : Ends (quotedText quote) c fun _ c' =>
    Onward c c' ∧ (c.rest ≠ [] → c'.rest.length < c.rest.length) := by
  rw [quotedText, ends_here, ends_skip, ends_steps]
  refine (ends_quotedText_go quote c.position (Nat.lt_succ_self _)).mono fun _ c' onward => ?_
  exact ⟨(onward_forward c 1).trans onward, fun nonempty => After.less (after_true.mpr onward) nonempty Nat.one_pos⟩

theorem total_charInQuotes : Total false charInQuotes := by
  refine (total_peek false).bind fun next => ?_
  cases next with
  | none => exact total_pure _ _
  | some c =>
    have close (c : Char) : Total false (do if ← eat "'" then return some c else return none) := by
      refine (total_eat false "'").bind fun closed => ?_
      cases closed with
      | true => exact total_pure _ _
      | false => exact total_pure _ _
    dsimp only
    split
    · exact total_pure _ _
    split
    · refine Total.bind (fun c => (ends_escape false c).mono fun _ _ holds => holds.1) fun decoded => ?_
      cases decoded with
      | none => exact total_pure _ _
      | some c => exact close c
    · exact (total_skip false 1).bind fun _ => close c

/-- What is read in single quotes has at least these. -/
theorem tries_quietChar : Tries false Option.isSome (fun _ => True) quietChar := by
  intro c
  rw [quietChar, ends_eat]
  split
  · next opening =>
    have nonempty : c.rest ≠ [] := by
      intro nothing
      rw [nothing] at opening
      cases opening
    refine (total_charInQuotes _).mono fun found c' after => ?_
    exact ⟨.trans (.forward _ _ _) after, trivial, fun _ => after.less nonempty Nat.one_pos⟩
  · simp only [Bool.false_eq_true, ↓reduceIte, ends_pure]
    exact ⟨.refl _ c, trivial, fun found => absurd found Bool.false_ne_true⟩

theorem ends_quietInterval (c : Cursor) : Ends quietInterval c fun found c' =>
    if found.isSome then (∃ count, c' = c.forward count) ∧ c'.rest.length < c.rest.length else c' = c := by
  refine (Tries.attempt (P := fun _ => True) (fun c => ?_) c).mono fun found c' holds => holds.2
  refine (tries_quietChar c).bind fun first c' ⟨after, _, less⟩ => ?_
  cases first with
  | none =>
    refine (total_skipSpacing false c').bind fun _ c'' blank => ?_
    rw [ends_pure]
    exact ⟨after.trans blank, trivial, nofun⟩
  | some lo =>
    have second : Total false (do
        if !(← eat "-") then return none
        skipSpacing false
        return (← quietChar).map fun hi => (lo, hi)) := by
      refine (total_eat false "-").bind fun separated => ?_
      cases separated with
      | false => exact total_pure _ _
      | true =>
        exact (total_skipSpacing false).bind fun _ => tries_quietChar.total.bind fun _ => total_pure _ _
    refine (((total_skipSpacing false).bind fun _ => second) c').mono fun found c'' onward => ?_
    exact ⟨after.trans onward, trivial, fun _ => Nat.lt_of_le_of_lt onward.onward.rest (less rfl)⟩

end Strings

section Sets

/-- What is eaten is there. -/
theorem ne_nil_of_isPrefixOf {text : String} (eaten : text.toList.isPrefixOf c.rest = true) (some : text.toList ≠ []) :
    c.rest ≠ [] := by
  intro nothing
  rw [nothing] at eaten
  exact some (List.prefix_nil.mp (List.isPrefixOf_iff_prefix.mp eaten))

theorem total_quotedText (quote : Char) : Total true (quotedText quote) :=
  fun c => (ends_quotedText quote c).mono fun _ _ holds => holds.1

theorem total_setChar : Total true setChar := by
  refine (total_here true).bind fun start => (total_quotedText _).bind fun text => (total_here true).bind fun stop =>
    total_spacing.bind fun _ => ?_
  split
  · exact total_pure _ _
  · exact (total_report _ _ _ _).bind fun _ => total_pure _ _

theorem total_skipSet : Total true skipSet := by
  rw [skipSet]
  exact (total_takeWhile true _).bind fun _ => (total_eat true _).bind fun _ => total_pure _ _

theorem answers_setInterval : Answers (fun found => ∀ set ∈ found, set.Normal) setInterval := by
  intro c
  refine (total_setChar c).bind fun lo c' before => ?_
  cases lo with
  | none => exact (ends_pure _).mpr ⟨before, nofun⟩
  | some lo =>
    refine (total_eat true "-" c').bind fun separated c'' after => ?_
    have before := before.trans after
    cases separated with
    | false =>
      refine (ends_pure _).mpr ⟨before, ?_⟩
      rintro _ ⟨⟩
      exact Charset.normal_between lo lo
    | true =>
      refine (total_spacing c'').bind fun _ next blank => ?_
      refine (total_setChar next).bind fun hi behind after => ?_
      refine (ends_pure _).mpr ⟨before.trans (blank.trans after), ?_⟩
      cases hi with
      | none => nofun
      | some hi =>
        rintro _ ⟨⟩
        exact Charset.normal_between lo hi

/-- Reading the elements of a set up to its end, where `element` can be read from all that is left. -/
private theorem ends_setElements {element : Read (Option Charset)} {bound limit : Nat} {c : Cursor} {set : Charset}
    (elements : ∀ c : Cursor, c.rest.length ≤ bound → Ends element c fun found c' =>
      Onward c c' ∧ ∀ set ∈ found, set.Normal)
    (enough : c.rest.length < limit) (within : c.rest.length ≤ bound) (normal : set.Normal) :
    Ends (setElements element limit set) c fun set c' => Onward c c' ∧ set.Normal := by
  induction limit generalizing c set with
  | zero => omega
  | succ limit ih =>
    rw [setElements]
    refine (elements c within).bind fun found c' ⟨before, normals⟩ => ?_
    cases found with
    | none =>
      refine (total_skipSet c').bind fun _ c'' after => ?_
      exact (ends_pure _).mpr ⟨before.trans after, normal⟩
    | some more =>
      have normal := Charset.normal_union normal (normals more rfl)
      rw [ends_eat]
      split
      · next separated =>
        have nonempty := ne_nil_of_isPrefixOf separated (by decide)
        have less := length_forward_lt nonempty (show 0 < ",".length by decide)
        have := before.rest
        refine (total_spacing _).bind fun _ c'' after => ?_
        have := after.onward.rest
        refine (ih (by omega) (by omega) normal).mono fun set behind ⟨rest, normal⟩ => ⟨?_, normal⟩
        exact before.trans ((onward_forward c' _).trans (Onward.trans after rest))
      · simp only [Bool.false_eq_true, ↓reduceIte]
        rw [ends_eat]
        split
        · exact (ends_pure _).mpr ⟨before.trans (onward_forward c' _), normal⟩
        · simp only [Bool.not_false, ↓reduceIte, ends_here, ends_report]
          refine (total_skipSet _).bind fun _ c'' after => ?_
          exact (ends_pure _).mpr ⟨before.trans (Onward.trans (After.refl true c').report after), normal⟩

/-- Reading a set from its bracket on, where `element` can be read from all that is behind the bracket. -/
private theorem ends_bracketSet {element : Read (Option Charset)} {c : Cursor} (nonempty : c.rest ≠ [])
    (elements : ∀ c' : Cursor, c'.rest.length < c.rest.length → Ends element c' fun found c'' =>
      Onward c' c'' ∧ ∀ set ∈ found, set.Normal) :
    Ends (bracketSet element) c fun set c' => Onward c c' ∧ c'.rest.length < c.rest.length ∧ set.Normal := by
  have less := length_forward_lt nonempty Nat.one_pos
  rw [bracketSet, ends_skip]
  refine (total_spacing _).bind fun _ c' after => ?_
  have before := (onward_forward c 1).trans after
  have := after.onward.rest
  rw [ends_eat]
  split
  · rw [if_pos rfl, ends_pure]
    have ended := onward_forward c' "]".length
    exact ⟨before.trans ended, Nat.lt_of_le_of_lt ended.rest (by omega), Charset.normal_empty⟩
  · rw [if_neg Bool.false_ne_true, ends_steps]
    have read : ∀ c'' : Cursor, c''.rest.length ≤ c'.rest.length → _ := fun c'' within => elements c'' (by omega)
    refine (ends_setElements read (Nat.lt_succ_self _) (Nat.le_refl _) Charset.normal_empty).mono ?_
    intro set c'' ⟨rest, normal⟩
    exact ⟨before.trans rest, Nat.lt_of_le_of_lt rest.rest (by omega), normal⟩

/-- An element of a set, read with enough depth for all of the text. -/
private theorem ends_setElement {depth : Nat} {c : Cursor} (enough : c.rest.length < depth) :
    Ends (setElement depth) c fun found c' => Onward c c' ∧ ∀ set ∈ found, set.Normal := by
  induction depth generalizing c with
  | zero => omega
  | succ depth ih =>
    rw [setElement, ends_peek]
    cases here : c.rest with
    | nil =>
      simp only [List.head?_nil, ends_here, ends_report, ends_pure]
      exact ⟨(After.refl true c).report, fun _ member => absurd member (Option.not_mem_none _)⟩
    | cons first rest =>
      have nonempty : c.rest ≠ [] := by simp [here]
      have less := length_forward_lt nonempty Nat.one_pos
      simp only [List.head?_cons]
      split
      · rw [ends_skip]
        refine (total_spacing _).bind fun _ c' after => ?_
        have := after.onward.rest
        refine (ih (by omega)).bind fun found c'' holds => ?_
        obtain ⟨onward, normal⟩ := holds
        refine (ends_pure _).mpr ⟨(onward_forward c 1).trans (Onward.trans after onward), ?_⟩
        intro set member
        obtain ⟨inner, found, rfl⟩ := Option.map_eq_some_iff.mp member
        exact Charset.normal_inverse (normal inner found)
      · refine (ends_bracketSet nonempty fun c' less => ih (by omega)).bind fun set c' holds => ?_
        obtain ⟨onward, -, normal⟩ := holds
        refine (total_spacing c').bind fun _ c'' after => ?_
        refine (ends_pure _).mpr ⟨onward.trans after, ?_⟩
        rintro _ ⟨⟩
        exact normal
      · exact answers_setInterval c
      · simp only [ends_here, ends_report, ends_pure]
        exact ⟨(After.refl true c).report, fun _ member => absurd member (Option.not_mem_none _)⟩

theorem ends_charset {c : Cursor} (nonempty : c.rest ≠ []) :
    Ends charset c fun set c' => Onward c c' ∧ c'.rest.length < c.rest.length ∧ set.Normal := by
  rw [charset, ends_steps]
  exact ends_bracketSet nonempty fun c' less => ends_setElement (by omega)

theorem answers_integer : Answers (fun found => ∀ n ∈ found, n ≤ unbounded) integer := by
  intro c
  rw [integer, ends_takeWhile]
  have moved := onward_forward c (c.rest.takeWhile Char.isDigit).length
  split
  · exact (ends_pure _).mpr ⟨moved, nofun⟩
  · refine (total_spacing _).bind fun _ c' after => ?_
    refine (ends_pure _).mpr ⟨moved.trans after, fun n member => ?_⟩
    split at member
    · next small =>
      cases member
      exact small
    · cases member

end Sets

end Read

end Packrat
