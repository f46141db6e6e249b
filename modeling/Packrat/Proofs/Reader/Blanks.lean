import Packrat.Proofs.Reader.Documented
import Packrat.Proofs.Reader.Silence

/-! # Reading blanks and names

Blanks and comments are skipped as far as they go, so what is skipped is determined by the text as soon as something
else stands behind it. The same holds of names. Both are told in two ways: what has been skipped or read silently is
as documented, and what is documented is skipped or read silently.
-/

namespace Packrat

namespace Read

open Documented

variable {before middle after behind named : List Char} {d : Char}

/-- Neither a blank nor a comment is next. -/
structure Solid (s : List Char) : Prop where
  blank : ∀ d ∈ s.head?, isBlank d = false
  line : ∀ rest, s ≠ '/' :: '/' :: rest
  block : ∀ rest, s ≠ '/' :: '*' :: rest

theorem solid_nil : Solid [] := ⟨nofun, nofun, nofun⟩

theorem solid_cons (blank : isBlank d = false) (other : d ≠ '/') (s : List Char) : Solid (d :: s) where
  blank := by
    rintro _ ⟨⟩
    exact blank
  line := fun rest same => other (List.cons.inj same).1
  block := fun rest same => other (List.cons.inj same).1

theorem solid_sign (member : d ∈ signs) (other : d ≠ '/') (s : List Char) : Solid (d :: s) :=
  solid_cons (isBlank_of_sign d member) other s

/-- A slash is a sign of its own, unless it begins a comment. -/
theorem solid_slash (uncommented : ∀ rest, behind ≠ '/' :: rest ∧ behind ≠ '*' :: rest) : Solid ('/' :: behind) where
  blank := by
    rintro _ ⟨⟩
    exact isBlank_of_sign '/' (by decide)
  line := fun rest same => (uncommented rest).1 (List.cons.inj same).2
  block := fun rest same => (uncommented rest).2 (List.cons.inj same).2

theorem not_blank_of_solid (solid : Solid before) : ¬ Blank before after := by
  rintro (⟨white, _⟩ | ⟨inside, _⟩ | ⟨inside⟩ | ⟨inside, _⟩)
  · have := solid.blank _ rfl
    rw [white] at this
    cases this
  · exact solid.line _ rfl
  · exact solid.line _ rfl
  · exact solid.block _ rfl

theorem spacing_of_solid (spacing : Spacing before after) (solid : Solid before) : after = before := by
  cases spacing with
  | none => rfl
  | more first rest => exact absurd first (not_blank_of_solid solid)

theorem commentBody_cons {c : Char} {rest : List Char} (early : c = '*' → ∀ tail, rest ≠ '/' :: tail) :
    commentBody (c :: rest) = (c :: (commentBody rest).1, (commentBody rest).2) := by
  rw [commentBody]
  exact fun tail same => early same tail

/-- A comment ends where it first can. -/
theorem commentBody_closed {body : List Char} (inside : ¬ ['*', '/'] <:+: body ++ ['*']) (after : List Char) :
    commentBody (body ++ '*' :: '/' :: after) = (body ++ ['*', '/'], true) := by
  induction body with
  | nil => rfl
  | cons c body ih =>
    have later : ¬ ['*', '/'] <:+: body ++ ['*'] := fun infixed => inside (List.infix_cons infixed)
    rw [List.cons_append, commentBody_cons, ih later]
    · rfl
    · rintro rfl tail same
      cases body with
      | nil => cases same
      | cons second body =>
        obtain ⟨rfl, -⟩ := List.cons.inj same
        exact inside ⟨[], body ++ ['*'], rfl⟩

/-- A comment that is not closed goes on to the end of the text. -/
theorem commentBody_spec (s : List Char) : (commentBody s).2 = false ∧ (commentBody s).1 = s ∨
    ∃ body after, s = body ++ '*' :: '/' :: after ∧ (¬ ['*', '/'] <:+: body ++ ['*']) ∧
      commentBody s = (body ++ ['*', '/'], true) := by
  induction s with
  | nil => exact .inl ⟨rfl, rfl⟩
  | cons c rest ih =>
    by_cases early : c = '*' ∧ ∃ tail, rest = '/' :: tail
    · obtain ⟨rfl, tail, rfl⟩ := early
      exact .inr ⟨[], tail, rfl, by decide, rfl⟩
    · have early : c = '*' → ∀ tail, rest ≠ '/' :: tail := fun star tail slash => early ⟨star, tail, slash⟩
      rw [commentBody_cons early]
      rcases ih with ⟨opened, whole⟩ | ⟨body, after, same, inside, closed⟩
      · exact .inl ⟨opened, congrArg _ whole⟩
      · refine .inr ⟨c :: body, after, congrArg _ same, ?_, ?_⟩
        · intro infixed
          rcases List.infix_cons_iff.mp infixed with ⟨tail, first⟩ | infixed
          · obtain ⟨rfl, second⟩ := List.cons.inj first
            cases body with
            | nil => cases second
            | cons slash body =>
              obtain ⟨rfl, -⟩ := List.cons.inj second
              exact early rfl _ same
          · exact inside infixed
        · rw [closed]
          rfl

private theorem drop_closed (body after : List Char) :
    (body ++ '*' :: '/' :: after).drop (body ++ ['*', '/']).length = after := by
  have together : body ++ '*' :: '/' :: after = (body ++ ['*', '/']) ++ after := by
    rw [List.append_assoc, List.cons_append, List.cons_append, List.nil_append]
  rw [together, List.drop_left]

theorem reads_restOfLine {body : List Char} (online : '\n' ∉ body)
    (ends : behind = [] ∨ ∃ rest, behind = '\n' :: rest) :
    Reads restOfLine (body ++ behind) (fun _ => True) (behind.drop 1) := by
  have within : ∀ d ∈ body, (d != '\n') = true := fun d member => bne_iff_ne.mpr fun same => online (same ▸ member)
  have stops : ∀ d ∈ behind.head?, (d != '\n') = false := by
    intro d member
    rcases ends with rfl | ⟨rest, rfl⟩
    · cases member
    · cases member
      rfl
  exact (takes_takeWhile within stops).reads.bind fun _ _ => reads_skip 1

theorem reads_blockComment (reporting : Bool) {body : List Char} (inside : ¬ ['*', '/'] <:+: body ++ ['*']) :
    Reads (blockComment reporting) ('/' :: '*' :: (body ++ '*' :: '/' :: after)) (fun _ => True) after := by
  refine reads_here fun start => (reads_skip 2).bind fun _ _ => reads_get fun c ahead => ?_
  have closed : commentBody c.rest = (body ++ ['*', '/'], true) := by
    rw [ahead]
    exact commentBody_closed inside after
  rw [closed]
  have skipped : Reads _ (body ++ '*' :: '/' :: after) _ _ := reads_skip (body ++ ['*', '/']).length
  rw [drop_closed] at skipped
  exact skipped.bind fun _ _ => reads_pure trivial

theorem reads_skipBlank (reporting : Bool) (blank : Blank before after) :
    Reads (skipBlank reporting) before (· = true) after := by
  cases blank with
  | blank white => exact (takes_skipBlank reporting white after).reads
  | @line body inside =>
    refine reads_get fun c ahead => ?_
    rw [ahead]
    have online : '\n' ∉ '/' :: '/' :: body := by simpa using inside
    exact (reads_restOfLine online (.inr ⟨after, rfl⟩)).bind fun _ _ => reads_pure rfl
  | @lastLine body inside =>
    refine reads_get fun c ahead => ?_
    rw [ahead]
    have online : '\n' ∉ '/' :: '/' :: body := by simpa using inside
    have read := reads_restOfLine online (.inl rfl)
    rw [List.append_nil] at read
    exact read.bind fun _ _ => reads_pure rfl
  | block inside =>
    refine reads_get fun c ahead => ?_
    rw [ahead]
    exact (reads_blockComment reporting inside).bind fun _ _ => reads_pure rfl

theorem reads_skipBlank_none (reporting : Bool) (solid : Solid before) :
    Reads (skipBlank reporting) before (· = false) before := by
  refine reads_get fun c ahead => ?_
  rw [ahead]
  split
  · exact absurd rfl (solid.line _)
  · exact absurd rfl (solid.block _)
  · rw [solid.blank _ rfl, if_neg Bool.false_ne_true]
    exact reads_pure rfl
  · exact reads_pure rfl

/-- What stands between two tokens is skipped as a whole. -/
theorem reads_skipSpacing (reporting : Bool) (spacing : Spacing before after) (solid : Solid after) :
    Reads (skipSpacing reporting) before (fun _ => True) after := by
  have loop (limit : Nat) : Reads (countWhile (skipBlank reporting) limit) before (fun _ => True) after := by
    induction spacing generalizing limit with
    | none s =>
      cases limit with
      | zero => exact reads_throw _
      | succ limit =>
        refine (reads_skipBlank_none reporting solid).bind ?_
        rintro _ rfl
        exact reads_pure trivial
    | more first rest ih =>
      cases limit with
      | zero => exact reads_throw _
      | succ limit =>
        refine (reads_skipBlank reporting first).bind ?_
        rintro _ rfl
        exact (ih solid limit).bind fun _ _ => reads_pure trivial
  exact reads_steps fun limit => (loop limit).bind fun _ _ => reads_pure trivial

theorem reads_spacing (blanks : Spacing before after) (solid : Solid after) :
    Reads spacing before (fun _ => True) after :=
  fun c a c' ahead ran => reads_skipSpacing true blanks solid { c with tokenEnd := c.position } a c' ahead ran

theorem silently_restOfLine : Silently restOfLine fun _ before after =>
    ∃ body, '\n' ∉ body ∧ (before = body ++ '\n' :: after ∨ before = body ∧ after = []) := by
  refine (silently_takeWhile _).bind fun taken => (silently_skip 1).mono ?_
  rintro _ middle _ rfl before ⟨rfl, within, stops⟩
  refine ⟨taken, fun newline => absurd (within _ newline) Bool.false_ne_true, ?_⟩
  cases middle with
  | nil => exact .inr ⟨List.append_nil taken, rfl⟩
  | cons d rest =>
    have newline : d = '\n' := bne_eq_false_iff_eq.mp (stops d rfl)
    exact .inl (by rw [newline, List.drop_one, List.tail_cons])

theorem blank_of_line {rest body : List Char} (online : '\n' ∉ body)
    (ends : '/' :: '/' :: rest = body ++ '\n' :: after ∨ '/' :: '/' :: rest = body ∧ after = []) :
    Blank ('/' :: '/' :: rest) after := by
  rcases ends with same | ⟨rfl, rfl⟩
  · rcases body with _ | ⟨first, _ | ⟨second, body⟩⟩
    · cases same
    · cases same
    · cases same
      exact .line (fun newline => online (.tail _ (.tail _ newline))) after
  · exact .lastLine fun newline => online (.tail _ (.tail _ newline))

theorem silently_blockComment (reporting : Bool) : Silently (blockComment reporting) fun _ before after =>
    ∀ rest, before = '/' :: '*' :: rest → Blank before after ∨ reporting = false ∧ after = [] := by
  refine silently_here fun start => (silently_skip 2).bind fun _ => silently_get fun c => ?_
  rcases commentBody_spec c.rest with ⟨opened, whole⟩ | ⟨body, after, ahead, inside, closed⟩
  · have split : commentBody c.rest = (c.rest, false) := Prod.ext whole opened
    rw [split]
    refine (silently_skip _).bind fun _ => ?_
    cases reporting with
    | true => exact silently_here fun stop => silently_report _ _ _ _
    | false =>
      refine silently_pure ?_
      rintro _ middle rfl rfl before - rest rfl
      exact .inr ⟨rfl, List.drop_length⟩
  · rw [closed]
    refine (silently_skip _).bind fun _ => silently_pure ?_
    rintro _ middle rfl here before rfl rest rfl
    have inner : rest = c.rest := here
    rw [inner, ahead]
    exact .inl ((drop_closed body after).symm ▸ .block inside after)

theorem silently_skipBlank (reporting : Bool) : Silently (skipBlank reporting) fun more before after =>
    if more then Blank before after ∨ reporting = false ∧ after = [] else after = before ∧ Solid before := by
  refine silently_get fun c => ?_
  split
  · next rest ahead =>
    refine silently_restOfLine.bind fun _ => silently_pure ?_
    rintro s before ⟨body, online, ends⟩ same
    rw [same, ahead] at ends ⊢
    exact .inl (blank_of_line online ends)
  · next rest ahead =>
    refine (silently_blockComment reporting).bind fun _ => silently_pure ?_
    rintro s before commented same
    exact commented rest (same.trans ahead)
  · next d rest line block ahead =>
    split
    · next white =>
      refine (silently_skip 1).bind fun _ => silently_pure ?_
      rintro _ before rfl same
      rw [same, ahead]
      exact .inl (.blank white rest)
    · next black =>
      refine silently_pure fun s same => ⟨rfl, ?_⟩
      rw [same, ahead]
      refine ⟨?_, fun rest' same' => ?_, fun rest' same' => ?_⟩
      · rintro _ ⟨⟩
        exact Bool.eq_false_iff.mpr black
      · exact line rest' (List.cons.inj same').1 (List.cons.inj same').2
      · exact block rest' (List.cons.inj same').1 (List.cons.inj same').2
  · next ahead =>
    refine silently_pure fun s same => ⟨rfl, ?_⟩
    rw [same, ahead]
    exact solid_nil

/-- What a loop over blanks has skipped. A comment that is not closed leaves nothing. -/
theorem spacing_of_repeated {reporting : Bool} {count : Nat} (skipped : Repeated (fun more before after =>
      if more then Blank before after ∨ reporting = false ∧ after = [] else after = before ∧ Solid before)
      count before after) :
    Solid after ∧ (Spacing before after ∨ reporting = false ∧ after = []) := by
  induction count generalizing before with
  | zero =>
    obtain ⟨rfl, solid⟩ := skipped
    exact ⟨solid, .inl (.none _)⟩
  | succ count ih =>
    obtain ⟨middle, first, rest⟩ := skipped
    obtain ⟨solid, spacing⟩ := ih rest
    refine ⟨solid, ?_⟩
    rcases first with blank | ⟨quiet, rfl⟩
    · exact spacing.imp_left (.more blank)
    · refine .inr ⟨quiet, ?_⟩
      rcases spacing with spacing | ⟨-, nothing⟩
      · exact spacing_of_solid spacing solid_nil
      · exact nothing

theorem silently_spacing : Silently spacing fun _ before after => Spacing before after ∧ Solid after := by
  have skipping : Silently (skipSpacing true) fun _ before after => Spacing before after ∧ Solid after := by
    refine silently_steps fun limit => (silently_countWhile (silently_skipBlank true) limit).bind fun count => ?_
    refine silently_pure fun s before skipped => ?_
    obtain ⟨solid, spacing | ⟨⟨⟩, -⟩⟩ := spacing_of_repeated skipped
    exact ⟨spacing, solid⟩
  exact fun c a c' ran => skipping { c with tokenEnd := c.position } a c' ran

/-- Where nothing is reported, a comment may be left open, but then nothing is left. -/
theorem silently_skipSpacing (reporting : Bool) : Silently (skipSpacing reporting) fun _ before after =>
    Solid after ∧ (after ≠ [] → Spacing before after) := by
  refine silently_steps fun limit => (silently_countWhile (silently_skipBlank _) limit).bind fun count => ?_
  refine silently_pure fun s before skipped => ?_
  obtain ⟨solid, spacing | ⟨-, nothing⟩⟩ := spacing_of_repeated skipped
  · exact ⟨solid, fun _ => spacing⟩
  · exact ⟨solid, fun some => absurd nothing some⟩

/-- A step that ends for every text leaves the same text whenever it reads the same. -/
theorem Reads.unique {α : Type} {reporting : Bool} {step : Read α} {A B : α → Prop} {after' : List Char}
    (total : Total reporting step) (reads : Reads step before A after) (reads' : Reads step before B after') :
    after = after' := by
  obtain ⟨a, c, ran, -⟩ := total ⟨⟨before, .origin⟩, [], .origin, [], .empty⟩
  have left := (reads _ a c rfl ran).2.1
  have left' := (reads' _ a c rfl ran).2.1
  exact left.symm.trans left'

theorem spacing_unique {after' : List Char} (blanks : Spacing before after) (solid : Solid after)
    (blanks' : Spacing before after') (solid' : Solid after') : after = after' :=
  (reads_skipSpacing true blanks solid).unique (total_skipSpacing true) (reads_skipSpacing true blanks' solid')

theorem reads_identifier (name : Name before after) : Reads identifier before (fun found => found.isSome) after := by
  obtain @⟨first, rest, _, start, parts, ends⟩ := name
  have spelled : (String.ofList (first :: rest)).toList = first :: rest := String.toList_ofList
  have read := takes_identifier ⟨first, rest, spelled, start, parts⟩ ends
  rw [spelled] at read
  exact read.reads.mono fun found same => same ▸ rfl

theorem name_unique {after' : List Char} (name : Name before after) (name' : Name before after') : after = after' :=
  (reads_identifier name).unique tries_identifier.total (reads_identifier name')

theorem name_head (name : Name before after) : ∃ first rest, before = first :: rest ∧ isNameStart first = true := by
  obtain ⟨start, -, -⟩ := name
  exact ⟨_, _, rfl, start⟩

theorem silently_identifier : Silently identifier fun found before after =>
    if found.isSome then Name before after else after = before ∧ ∀ d ∈ before.head?, isNameStart d = false := by
  refine silently_peek fun next => ?_
  cases next with
  | none => exact silently_pure fun s nothing => ⟨rfl, by rw [nothing]; nofun⟩
  | some d =>
    dsimp only
    split
    · next start =>
      refine (silently_takeWhile _).bind fun taken => silently_pure ?_
      rintro s before ⟨rfl, parts, ends⟩ first
      cases taken with
      | nil =>
        have := ends d first
        rw [isNamePart_of_start start] at this
        cases this
      | cons e taken =>
        cases first
        exact .name start (fun part member => parts part (.tail _ member)) ends
    · next other =>
      refine silently_pure fun s first => ⟨rfl, ?_⟩
      rw [first]
      rintro _ ⟨⟩
      exact Bool.eq_false_iff.mpr other

theorem mem_assignments {sign : List Char} : sign ∈ assignments ↔
    sign = [':', ':', '='] ∨ sign = [':'] ∨ sign = ['='] ∨ sign = ['<', '-'] := by
  simp [assignments]

theorem solid_assignment {sign : List Char} (known : sign ∈ assignments) (s : List Char) : Solid (sign ++ s) := by
  rcases mem_assignments.mp known with rfl | rfl | rfl | rfl
  all_goals exact solid_sign (by decide) (by decide) _

theorem silently_assignment : Silently assignment fun found before after =>
    if found then ∃ sign ∈ assignments, before = sign ++ after
    else after = before ∧ ∀ sign ∈ assignments, ¬ sign <+: before := by
  have eaten {text : String} (known : text.toList ∈ assignments) {before after : List Char}
      (same : before = text.toList ++ after) : ∃ sign ∈ assignments, before = sign ++ after := ⟨_, known, same⟩
  refine (silently_eat "::=").bind fun long => ?_
  cases long with
  | true => exact silently_pure fun s before same => eaten (by decide) same
  | false =>
    refine (silently_eat ":").bind fun colon => ?_
    cases colon with
    | true =>
      refine silently_pure fun s middle same before first => ?_
      obtain ⟨rfl, -⟩ := first
      exact eaten (by decide) same
    | false =>
      refine (silently_eat "=").bind fun equals => ?_
      cases equals with
      | true =>
        refine silently_pure fun s middle same middle' second before first => ?_
        obtain ⟨rfl, -⟩ := second
        obtain ⟨rfl, -⟩ := first
        exact eaten (by decide) same
      | false =>
        refine (silently_eat "<-").mono ?_
        rintro found before after fourth _ ⟨rfl, third⟩ _ ⟨rfl, second⟩ _ ⟨rfl, first⟩
        cases found with
        | true => exact eaten (by decide) fourth
        | false =>
          refine ⟨fourth.1, fun sign known => ?_⟩
          rcases mem_assignments.mp known with rfl | rfl | rfl | rfl
          · exact first
          · exact second
          · exact third
          · exact fourth.2

theorem headed_apart {text s : List Char} (begins : text.head? = some d) (other : s.head? ≠ some d) : ¬ text <+: s := by
  rintro ⟨rest, rfl⟩
  exact other (by rw [List.head?_append, begins, Option.some_or])

/-- The longest sign is read. It is the expected one if what stands behind it cannot belong to it. -/
theorem reads_assignment {sign : List Char} (known : sign ∈ assignments) (after : List Char) :
    ∃ rest, Reads assignment (sign ++ after) (· = true) rest ∧ ((∀ d ∈ after.head?, d ≠ ':') → rest = after) := by
  by_cases long : "::=".toList <+: sign ++ after
  · obtain ⟨rest, same⟩ := long
    rw [← same]
    refine ⟨rest, (reads_eat "::=" rest).bind ?_, fun ends => ?_⟩
    · rintro _ rfl
      exact reads_pure rfl
    · rcases mem_assignments.mp known with rfl | rfl | rfl | rfl
      · exact List.append_cancel_left same
      · cases after with
        | nil => cases same
        | cons d after =>
          cases same
          exact absurd rfl (ends ':' rfl)
      · cases same
      · cases same
  · refine ⟨after, (reads_eat_none long).bind ?_, fun _ => rfl⟩
    rintro _ rfl
    rcases mem_assignments.mp known with rfl | rfl | rfl | rfl
    · exact absurd (List.prefix_append _ _) long
    · refine (reads_eat ":" after).bind ?_
      rintro _ rfl
      exact reads_pure rfl
    · refine (reads_eat_none (headed_apart (d := ':') rfl (by simp))).bind ?_
      rintro _ rfl
      refine (reads_eat "=" after).bind ?_
      rintro _ rfl
      exact reads_pure rfl
    · refine (reads_eat_none (headed_apart (d := ':') rfl (by simp))).bind ?_
      rintro _ rfl
      refine (reads_eat_none (headed_apart (d := '=') rfl (by simp))).bind ?_
      rintro _ rfl
      exact reads_eat "<-" after

/-- A production begins here. -/
def AtHead (s : List Char) : Prop :=
  ∃ named sign after, Name s named ∧ sign ∈ assignments ∧ Spacing named (sign ++ after)

theorem reads_atProductionHead (s : List Char) :
    Reads atProductionHead s (fun head => head = true ↔ AtHead s) s := by
  rintro c head c' rfl ran
  have same : c' = c := by
    obtain ⟨_, _, ran', same, -⟩ := ends_atProductionHead c
    cases ran.symm.trans ran'
    exact same
  subst same
  refine ⟨⟨?_, ?_⟩, rfl, rfl, rfl⟩
  · have silently : Silently atProductionHead fun head before _ => head = true → AtHead before := by
      refine (Silently.ahead (P := fun head before _ => head = true → AtHead before) ?_).mono ?_
      · refine silently_identifier.bind fun found => ?_
        cases found with
        | none => exact silently_pure fun _ _ _ head => absurd head Bool.false_ne_true
        | some named =>
          refine (silently_skipSpacing false).bind fun _ => silently_assignment.mono ?_
          rintro head opened after assigned named ⟨-, spaced⟩ before name rfl
          obtain ⟨sign, known, rfl⟩ := assigned
          refine ⟨named, sign, after, name, known, spaced ?_⟩
          rcases mem_assignments.mp known with rfl | rfl | rfl | rfl <;> exact List.cons_ne_nil _ _
      · exact fun head before after ⟨_, behind, holds⟩ => holds
    exact (silently c' head c' ran).2.2 rfl
  · rintro ⟨named, sign, after, name, known, blanks⟩
    obtain ⟨rest, assigned, -⟩ := reads_assignment known after
    have read : Reads atProductionHead c'.rest (· = true) c'.rest := by
      apply Reads.ahead
      apply (reads_identifier name).bind
      intro found some
      obtain ⟨found, rfl⟩ := Option.isSome_iff_exists.mp some
      exact (reads_skipSpacing false blanks (solid_assignment known after)).bind fun _ _ => assigned
    exact (read c' head c' rfl ran).1

theorem silently_atProductionHead : Silently atProductionHead fun head before after =>
    after = before ∧ (head = true ↔ AtHead before) := by
  intro c head c' ran
  obtain ⟨iff, rest, marks, problems⟩ := reads_atProductionHead c.rest c head c' rfl ran
  exact ⟨marks, by rw [problems], fun _ => ⟨rest, iff⟩⟩

end Read

end Packrat
