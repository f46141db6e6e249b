import Packrat.Proofs.Reader.SurroundedTokens

/-! # What the place decides

A reader that fails goes back to where it began, and the same text is read again by another one. Both do the same:
what a reader answers, where it ends and where it has seen a token end depend on the place alone, not on the builder,
the marks, the problems so far or the depth that is left. `Determined` compares two runs from one place, which are both
assumed to have ended.
-/

namespace Packrat

namespace Read

variable {α β : Type} {c c' c₁ c₁' d d' : Cursor}

/-- The step has gone on in the text, and what was reported before is still reported. -/
structure Proceeds (c d : Cursor) : Prop where
  marks : d.marks = c.marks
  problems : c.problems <+: d.problems
  taken : ∃ taken, c.rest = taken ++ d.rest ∧ d.position = c.position.advance taken

namespace Proceeds

theorem of_eq (place : d.toPlace = c.toPlace) (marks : d.marks = c.marks) (problems : c.problems <+: d.problems) :
    Proceeds c d :=
  ⟨marks, problems, [], (congrArg Place.rest place).symm, congrArg Place.position place⟩

theorem refl (c : Cursor) : Proceeds c c := .of_eq rfl rfl (List.prefix_refl _)

theorem trans (first : Proceeds c c₁) (second : Proceeds c₁ d) : Proceeds c d := by
  obtain ⟨taken, ahead, position⟩ := first.taken
  obtain ⟨taken', ahead', position'⟩ := second.taken
  refine ⟨second.marks.trans first.marks, first.problems.trans second.problems, taken ++ taken', ?_, ?_⟩
  · rw [ahead, ahead', List.append_assoc]
  · rw [position', position, Position.advance_append]

theorem forward (c : Cursor) (count : Nat) : Proceeds c (c.forward count) :=
  ⟨rfl, List.prefix_refl _, c.rest.take count, (List.take_append_drop ..).symm, rfl⟩

theorem offset_le (proceeds : Proceeds c d) : c.position.offset ≤ d.position.offset := by
  obtain ⟨taken, -, position⟩ := proceeds.taken
  rw [position, Position.offset_advance]
  exact Nat.le_add_right ..

end Proceeds

/-- Both runs have come to the same place, and both have seen the same token end last, or none. -/
structure Meets (c d c' d' : Cursor) : Prop where
  proceeds : Proceeds c d
  proceeds' : Proceeds c' d'
  place : d'.toPlace = d.toPlace
  tokenEnd : d'.tokenEnd = d.tokenEnd ∨ d.tokenEnd = c.tokenEnd ∧ d'.tokenEnd = c'.tokenEnd

/-- From the same place, `step` and `step'` answer the same and come to the same place. -/
def Determined (step step' : Read α) : Prop := ∀ ⦃c c' a a' d d'⦄, c'.toPlace = c.toPlace →
  step c = .ok (a, d) → step' c' = .ok (a', d') → a' = a ∧ Meets c d c' d'

variable {step step' : Read α}

theorem Determined.proceeds (determined : Determined step step) {a : α} (ran : step c = .ok (a, d)) : Proceeds c d :=
  (determined rfl ran ran).2.proceeds

section Steps

theorem determined_pure (a : α) : Determined (pure a) (pure a) := by
  rintro c c' _ _ _ _ same ⟨⟩ ⟨⟩
  exact ⟨rfl, .refl c, .refl c', same, .inr ⟨rfl, rfl⟩⟩

theorem determined_throw (e : ReadError) : Determined (throw e) step' := by
  rintro c c' _ _ _ _ - ⟨⟩

theorem determined_throw' (e : ReadError) : Determined step (throw e) := by
  rintro c c' _ _ _ _ - - ⟨⟩

theorem Determined.bind {first first' : Read β} {next next' : β → Read α} (leads : Determined first first')
    (rest : ∀ b, Determined (next b) (next' b)) : Determined (first >>= next) (first' >>= next') := by
  intro c c' a a' d d' same ran ran'
  obtain ⟨b, c₁, ran₁, ran₂⟩ := bind_eq_ok.mp ran
  obtain ⟨b', c₁', ran₁', ran₂'⟩ := bind_eq_ok.mp ran'
  obtain ⟨rfl, meets⟩ := leads same ran₁ ran₁'
  obtain ⟨rfl, meets'⟩ := rest _ meets.place ran₂ ran₂'
  refine ⟨rfl, meets.proceeds.trans meets'.proceeds, meets.proceeds'.trans meets'.proceeds', meets'.place, ?_⟩
  rcases meets'.tokenEnd with last | ⟨still, still'⟩
  · exact .inl last
  · rw [still, still']
    exact meets.tokenEnd

end Steps

section Text

theorem determined_text {next next' : List Char → Read α} (rest : ∀ s, Determined (next s) (next' s)) :
    Determined (get >>= fun c => next c.rest) (get >>= fun c => next' c.rest) := by
  intro c c' a a' d d' same ran ran'
  have ahead : c'.rest = c.rest := congrArg Place.rest same
  have ran' : next' c'.rest c' = .ok (a', d') := ran'
  rw [ahead] at ran'
  exact rest c.rest same ran ran'

theorem determined_here {next next' : Position → Read α} (rest : ∀ p, Determined (next p) (next' p)) :
    Determined (here >>= next) (here >>= next') := by
  intro c c' a a' d d' same ran ran'
  have place : c'.position = c.position := congrArg Place.position same
  have ran' : next' c'.position c' = .ok (a', d') := ran'
  rw [place] at ran'
  exact rest c.position same ran ran'

/-- Where the last token has ended can be another position in the two runs. -/
theorem determined_tokenEnd {next next' : Position → Read α} (rest : ∀ p p', Determined (next p) (next' p')) :
    Determined (tokenEnd >>= next) (tokenEnd >>= next') :=
  fun c c' _ _ _ _ same ran ran' => rest c.tokenEnd c'.tokenEnd same ran ran'

theorem determined_steps {next next' : Nat → Read α} (rest : ∀ limit limit', Determined (next limit) (next' limit')) :
    Determined (steps >>= next) (steps >>= next') :=
  fun c c' _ _ _ _ same ran ran' => rest (c.rest.length + 1) (c'.rest.length + 1) same ran ran'

theorem determined_skip (count : Nat) : Determined (skip count) (skip count) := by
  rintro c c' _ _ _ _ same ⟨⟩ ⟨⟩
  have ahead : c'.rest = c.rest := congrArg Place.rest same
  have place : c'.position = c.position := congrArg Place.position same
  refine ⟨rfl, .forward c count, .forward c' count, ?_, .inr ⟨rfl, rfl⟩⟩
  simp only [Cursor.forward, ahead, place]

theorem determined_peek : Determined peek peek := determined_text fun s => determined_pure s.head?

theorem determined_atEnd : Determined atEnd atEnd := determined_text fun s => determined_pure s.isEmpty

theorem determined_takeWhile (p : Char → Bool) : Determined (takeWhile p) (takeWhile p) := by
  let next (s : List Char) : Read (List Char) := do
    skip (s.takeWhile p).length
    return s.takeWhile p
  exact @determined_text _ next next fun s => (determined_skip _).bind fun _ => determined_pure _

theorem determined_eat (text : String) : Determined (eat text) (eat text) := by
  let next (s : List Char) : Read Bool := do
    if text.toList.isPrefixOf s then
      skip text.length
      return true
    else return false
  refine @determined_text _ next next fun s => ?_
  dsimp only [next]
  split
  · exact (determined_skip _).bind fun _ => determined_pure _
  · exact determined_pure _

end Text

section Staying

/-- The step neither moves nor ends a token. -/
def Stays (step : Read Unit) : Prop := ∀ ⦃c u d⦄, step c = .ok (u, d) →
  d.toPlace = c.toPlace ∧ d.marks = c.marks ∧ d.tokenEnd = c.tokenEnd ∧ c.problems <+: d.problems

theorem Stays.determined {step step' : Read Unit} (stays : Stays step) (stays' : Stays step') :
    Determined step step' := by
  intro c c' u u' d d' same ran ran'
  obtain ⟨place, marks, still, problems⟩ := stays ran
  obtain ⟨place', marks', still', problems'⟩ := stays' ran'
  refine ⟨rfl, .of_eq place marks problems, .of_eq place' marks' problems', ?_, .inr ⟨still, still'⟩⟩
  rw [place', same, place]

theorem Stays.then {step : Read Unit} {next : Unit → Read Unit} (stays : Stays step) (rest : Stays (next ())) :
    Stays (step >>= next) := by
  intro c u d ran
  obtain ⟨_, c₁, ran₁, ran₂⟩ := bind_eq_ok.mp ran
  obtain ⟨place, marks, still, problems⟩ := stays ran₁
  obtain ⟨place', marks', still', problems'⟩ := rest ran₂
  exact ⟨place'.trans place, marks'.trans marks, still'.trans still, problems.trans problems'⟩

theorem stays_pure : Stays (pure ()) := by
  rintro c _ _ ⟨⟩
  exact ⟨rfl, rfl, rfl, List.prefix_refl _⟩

theorem stays_report (kind : ProblemKind) (start stop : Position) (message : String) :
    Stays (report kind start stop message) := by
  rintro c _ _ ⟨⟩
  exact ⟨rfl, rfl, rfl, List.prefix_append ..⟩

theorem stays_build (step : Builder.Step) : Stays (build step) := by
  intro c u d ran
  obtain ⟨builder, -, rfl⟩ := build_eq ran
  exact ⟨rfl, rfl, rfl, List.prefix_refl _⟩

theorem stays_locate (start stop : Position) : Stays (locate start stop) :=
  (stays_build _).then (stays_build _)

/-- Two steps that stay can be taken in the two runs. -/
theorem Stays.next {step step' : Read Unit} {next next' : Unit → Read α} (stays : Stays step) (stays' : Stays step')
    (rest : Determined (next ()) (next' ())) : Determined (step >>= next) (step' >>= next') :=
  (stays.determined stays').bind fun _ => rest

theorem determined_reported (kind : ProblemKind) (start stop start' stop' : Position) (message : String)
    {next next' : Unit → Read α} (rest : Determined (next ()) (next' ())) :
    Determined (report kind start stop message >>= next) (report kind start' stop' message >>= next') :=
  (stays_report ..).next (stays_report ..) rest

theorem determined_built (made made' : Builder.Step) {next next' : Unit → Read α}
    (rest : Determined (next ()) (next' ())) : Determined (build made >>= next) (build made' >>= next') :=
  (stays_build _).next (stays_build _) rest

theorem determined_located (start stop start' stop' : Position) {next next' : Unit → Read α}
    (rest : Determined (next ()) (next' ())) :
    Determined (locate start stop >>= next) (locate start' stop' >>= next') :=
  (stays_locate ..).next (stays_locate ..) rest

end Staying

section Loops

theorem Determined.attempt {succeeds : α → Bool} (determined : Determined step step') :
    Determined (Read.attempt succeeds step) (Read.attempt succeeds step') := by
  intro c c' a a' d d' same ran ran'
  obtain ⟨_, _, ⟨⟩, rest⟩ := bind_eq_ok.mp ran
  obtain ⟨b, tried, ran₁, -⟩ := bind_eq_ok.mp rest
  obtain ⟨_, _, ⟨⟩, rest'⟩ := bind_eq_ok.mp ran'
  obtain ⟨b', tried', ran₁', -⟩ := bind_eq_ok.mp rest'
  have marked : ({ c' with marks := c'.toPlace :: c'.marks } : Cursor).toPlace =
      ({ c with marks := c.toPlace :: c.marks } : Cursor).toPlace := same
  obtain ⟨-, meets⟩ := determined marked ran₁ ran₁'
  obtain ⟨_, ran₂, rfl⟩ := attempt_eq_ok (fun a d ran₂ => by
    cases ran₁.symm.trans ran₂
    exact meets.proceeds.marks) ran
  obtain ⟨_, ran₂', rfl⟩ := attempt_eq_ok (fun a d ran₂' => by
    cases ran₁'.symm.trans ran₂'
    exact meets.proceeds'.marks) ran'
  obtain ⟨rfl, -, -, place, tokenEnd⟩ := determined marked ran₂ ran₂'
  cases ran₁.symm.trans ran₂
  cases ran₁'.symm.trans ran₂'
  refine ⟨rfl, ?_⟩
  split
  · exact ⟨⟨rfl, meets.proceeds.problems, meets.proceeds.taken⟩,
      ⟨rfl, meets.proceeds'.problems, meets.proceeds'.taken⟩, place, tokenEnd⟩
  · exact ⟨.of_eq rfl rfl meets.proceeds.problems, .of_eq rfl rfl meets.proceeds'.problems, same, tokenEnd⟩

theorem Determined.ahead (determined : Determined step step') :
    Determined (Read.ahead step) (Read.ahead step') := by
  simpa only [ahead_eq_attempt] using determined.attempt

theorem determined_countWhile {step step' : Read Bool} (determined : Determined step step') (limit limit' : Nat) :
    Determined (countWhile step limit) (countWhile step' limit') := by
  induction limit generalizing limit' with
  | zero => exact determined_throw _
  | succ limit ih =>
    cases limit' with
    | zero => exact determined_throw' _
    | succ limit' =>
      refine determined.bind fun more => ?_
      cases more with
      | true => exact (ih limit').bind fun count => determined_pure _
      | false => exact determined_pure _

end Loops

section Names

/-- Whether an open comment is reported makes no difference to where it ends. -/
theorem determined_blockComment (reporting reporting' : Bool) :
    Determined (blockComment reporting) (blockComment reporting') := by
  refine determined_here fun start => (determined_skip 2).bind fun _ => ?_
  let ending (reporting closed : Bool) : Read Unit := do
    if !closed && reporting then
      report .unterminatedComment start (← here) "unterminated block comment"
  let next (reporting : Bool) (s : List Char) : Read Unit := do
    skip (commentBody s).1.length
    ending reporting (commentBody s).2
  have stays (reporting closed : Bool) : Stays (ending reporting closed) := by
    dsimp only [ending]
    split
    · exact fun c _ _ ran => stays_report _ start c.position _ ran
    · exact stays_pure
  exact @determined_text _ (next reporting) (next reporting') fun s =>
    (determined_skip _).bind fun _ => (stays reporting _).determined (stays reporting' _)

theorem determined_skipBlank (reporting reporting' : Bool) :
    Determined (skipBlank reporting) (skipBlank reporting') := by
  let next (reporting : Bool) (s : List Char) : Read Bool :=
    if ['/', '/'].isPrefixOf s then do restOfLine; return true
    else if ['/', '*'].isPrefixOf s then do blockComment reporting; return true
    else if s.head?.any isBlank then do skip 1; return true
    else return false
  have line : Determined restOfLine restOfLine := (determined_takeWhile _).bind fun _ => determined_skip 1
  rw [skipBlank_eq, skipBlank_eq]
  refine @determined_text _ (next reporting) (next reporting') fun s => ?_
  dsimp only [next]
  split
  · exact line.bind fun _ => determined_pure _
  split
  · exact (determined_blockComment reporting reporting').bind fun _ => determined_pure _
  split
  · exact (determined_skip 1).bind fun _ => determined_pure _
  · exact determined_pure _

theorem determined_skipSpacing (reporting reporting' : Bool) :
    Determined (skipSpacing reporting) (skipSpacing reporting') :=
  determined_steps fun limit limit' =>
    (determined_countWhile (determined_skipBlank reporting reporting') limit limit').bind fun _ => determined_pure ()

/-- Behind a token both runs have seen the same token end. -/
theorem determined_spacing : Determined spacing spacing := by
  intro c c' u u' d d' same ran ran'
  have place : c'.position = c.position := congrArg Place.position same
  have ended : { c' with tokenEnd := c'.position }.toPlace = { c with tokenEnd := c.position }.toPlace := same
  obtain ⟨-, ⟨⟨marks, problems, taken⟩, ⟨marks', problems', taken'⟩, meets, tokenEnd⟩⟩ :=
    determined_skipSpacing true true ended ran ran'
  refine ⟨rfl, ⟨marks, problems, taken⟩, ⟨marks', problems', taken'⟩, meets, .inl ?_⟩
  rcases tokenEnd with last | ⟨still, still'⟩
  · exact last
  · rw [still, still']
    exact place

theorem determined_identifier : Determined identifier identifier := by
  refine determined_peek.bind fun next => ?_
  cases next with
  | none => exact determined_pure _
  | some c =>
    dsimp only
    split
    · exact (determined_takeWhile _).bind fun _ => determined_pure _
    · exact determined_pure _

theorem determined_assignment : Determined assignment assignment := by
  have first (text : String) {rest : Read Bool} (last : Determined rest rest) :
      Determined (do if ← eat text then return true else rest) (do if ← eat text then return true else rest) := by
    refine (determined_eat text).bind fun found => ?_
    cases found with
    | true => exact determined_pure _
    | false => exact last
  exact first "::=" (first ":" (first "=" (determined_eat "<-")))

theorem determined_atProductionHead : Determined atProductionHead atProductionHead := by
  refine Determined.ahead (determined_identifier.bind fun name => ?_)
  cases name with
  | none => exact determined_pure _
  | some name => exact (determined_skipSpacing false false).bind fun _ => determined_assignment

end Names

section Literals

theorem determined_unicodeEscape (start : Position) (reporting : Bool) :
    Determined (unicodeEscape start reporting) (unicodeEscape start reporting) := by
  let next (s : List Char) : Read (Option Char) := do
    let digits := (s.take 4).takeWhile fun c => (hexDigit? c).isSome
    skip digits.length
    let code := digits.foldl (fun code c => 16 * code + (hexDigit? c).getD 0) 0
    let decoded := if digits.length = 4 then charOfCode? code else none
    if decoded.isNone && reporting then
      report .invalidCodePoint start (← here) "invalid unicode character"
    return decoded
  refine @determined_text _ next next fun s => (determined_skip _).bind fun _ => ?_
  dsimp only
  generalize (ite (_ = 4) _ _ : Option Char) = decoded
  split
  · exact determined_here fun stop => determined_reported _ start stop start stop _ (determined_pure _)
  · exact determined_pure _

theorem determined_escape (reporting : Bool) : Determined (escape reporting) (escape reporting) := by
  refine determined_here fun start => (determined_skip 1).bind fun _ => determined_peek.bind fun next => ?_
  split
  · exact (determined_skip 1).bind fun _ => determined_unicodeEscape start reporting
  dsimp only
  split
  · exact (determined_skip 1).bind fun _ => determined_pure _
  · have failed : Determined (do
        if reporting then report .invalidEscape start (← here) "invalid escape sequence"
        return (none : Option Char)) (do
        if reporting then report .invalidEscape start (← here) "invalid escape sequence"
        return none) := by
      cases reporting with
      | true => exact determined_here fun stop => determined_reported _ start stop start stop _ (determined_pure _)
      | false => exact determined_pure _
    split
    · exact (determined_skip 1).bind fun _ => failed
    · exact failed

theorem determined_quotedText_go (quote : Char) (start : Position) (limit limit' : Nat) :
    Determined (quotedText.go quote start limit) (quotedText.go quote start limit') := by
  induction limit generalizing limit' with
  | zero => exact determined_throw _
  | succ limit ih =>
    cases limit' with
    | zero => exact determined_throw' _
    | succ limit' =>
      have unterminated : Determined (do
          report .unterminatedString start (← here) "unterminated string"
          return ([] : List Char)) (do
          report .unterminatedString start (← here) "unterminated string"
          return []) :=
        determined_here fun stop => determined_reported _ start stop start stop _ (determined_pure _)
      refine determined_peek.bind fun next => ?_
      cases next with
      | none => exact unterminated
      | some c =>
        dsimp only
        split
        · exact unterminated
        split
        · exact (determined_skip 1).bind fun _ => determined_pure _
        split
        · exact (determined_escape true).bind fun decoded => (ih limit').bind fun tail => determined_pure _
        · exact (determined_skip 1).bind fun _ => (ih limit').bind fun tail => determined_pure _

theorem determined_quotedText (quote : Char) : Determined (quotedText quote) (quotedText quote) :=
  determined_here fun start => (determined_skip 1).bind fun _ => determined_steps fun limit limit' =>
    determined_quotedText_go quote start limit limit'

theorem determined_quietChar : Determined quietChar quietChar := by
  have close (c : Char) : Determined (do if ← eat "'" then return some c else return none)
      (do if ← eat "'" then return some c else return none) := by
    refine (determined_eat "'").bind fun closed => ?_
    cases closed <;> exact determined_pure _
  have inQuotes : Determined charInQuotes charInQuotes := by
    refine determined_peek.bind fun next => ?_
    cases next with
    | none => exact determined_pure _
    | some c =>
      dsimp only
      split
      · exact determined_pure _
      split
      · refine (determined_escape false).bind fun decoded => ?_
        cases decoded with
        | none => exact determined_pure _
        | some c => exact close c
      · exact (determined_skip 1).bind fun _ => close c
  refine (determined_eat "'").bind fun opened => ?_
  cases opened with
  | true => exact inQuotes
  | false => exact determined_pure _

theorem determined_quietInterval : Determined quietInterval quietInterval := by
  refine Determined.attempt (determined_quietChar.bind fun first => ?_)
  refine (determined_skipSpacing false false).bind fun _ => ?_
  cases first with
  | none => exact determined_pure _
  | some lo =>
    refine (determined_eat "-").bind fun separated => ?_
    cases separated with
    | false => exact determined_pure _
    | true =>
      exact (determined_skipSpacing false false).bind fun _ => determined_quietChar.bind fun hi => determined_pure _

theorem determined_setChar : Determined setChar setChar := by
  refine determined_here fun start => (determined_quotedText '\'').bind fun text => determined_here fun stop => ?_
  refine determined_spacing.bind fun _ => ?_
  split
  · exact determined_pure _
  · exact determined_reported _ start stop start stop _ (determined_pure _)

theorem determined_skipSet : Determined skipSet skipSet :=
  (determined_takeWhile _).bind fun _ => (determined_eat "]").bind fun _ => determined_pure ()

theorem determined_setInterval : Determined setInterval setInterval := by
  refine determined_setChar.bind fun first => ?_
  cases first with
  | none => exact determined_pure _
  | some lo =>
    refine (determined_eat "-").bind fun separated => ?_
    cases separated with
    | true => exact determined_spacing.bind fun _ => determined_setChar.bind fun hi => determined_pure _
    | false => exact determined_pure _

theorem determined_setElements {element element' : Read (Option Charset)} (inner : Determined element element')
    (limit limit' : Nat) (set : Charset) :
    Determined (setElements element limit set) (setElements element' limit' set) := by
  induction limit generalizing limit' set with
  | zero => exact determined_throw _
  | succ limit ih =>
    cases limit' with
    | zero => exact determined_throw' _
    | succ limit' =>
      refine inner.bind fun more => ?_
      cases more with
      | none => exact determined_skipSet.bind fun _ => determined_pure _
      | some more =>
        refine (determined_eat ",").bind fun separated => ?_
        cases separated with
        | true => exact determined_spacing.bind fun _ => ih limit' _
        | false =>
          refine (determined_eat "]").bind fun closed => ?_
          cases closed with
          | true => exact determined_pure _
          | false =>
            exact determined_here fun place => determined_reported _ place place place place _
              (determined_skipSet.bind fun _ => determined_pure _)

theorem determined_bracketSet {element element' : Read (Option Charset)} (inner : Determined element element') :
    Determined (bracketSet element) (bracketSet element') := by
  refine (determined_skip 1).bind fun _ => determined_spacing.bind fun _ => (determined_eat "]").bind fun closed => ?_
  cases closed with
  | true => exact determined_pure _
  | false => exact determined_steps fun limit limit' => determined_setElements inner limit limit' _

theorem determined_setElement (depth depth' : Nat) : Determined (setElement depth) (setElement depth') := by
  induction depth generalizing depth' with
  | zero => exact determined_throw _
  | succ depth ih =>
    cases depth' with
    | zero => exact determined_throw' _
    | succ depth' =>
      refine determined_peek.bind fun next => ?_
      split
      · exact (determined_skip 1).bind fun _ => determined_spacing.bind fun _ =>
          (ih depth').bind fun set => determined_pure _
      · exact (determined_bracketSet (ih depth')).bind fun set => determined_spacing.bind fun _ => determined_pure _
      · exact determined_setInterval
      · exact determined_here fun place => determined_reported _ place place place place _ (determined_pure _)

theorem determined_charset : Determined charset charset :=
  determined_steps fun depth depth' => determined_bracketSet (determined_setElement depth depth')

theorem determined_integer : Determined integer integer := by
  refine (determined_takeWhile _).bind fun digits => ?_
  split
  · exact determined_pure _
  · exact determined_spacing.bind fun _ => determined_pure _

end Literals

section Operands

theorem determined_leaf (start : Position) (made : Builder.Step) :
    Determined (leaf start made) (leaf start made) :=
  determined_built made made (determined_here fun stop => determined_located start stop start stop determined_spacing)

theorem determined_token (quote : Char) : Determined (token quote) (token quote) := by
  refine determined_here fun start => ?_
  have string : Determined (do
      let image ← quotedText quote
      leaf start (.terminal (.token (String.ofList image) (quote == '\'')))) (do
      let image ← quotedText quote
      leaf start (.terminal (.token (String.ofList image) (quote == '\'')))) :=
    (determined_quotedText quote).bind fun image => determined_leaf start _
  split
  · refine determined_quietInterval.bind fun interval => ?_
    cases interval with
    | none => exact string
    | some interval => exact determined_leaf start _
  · exact string

theorem determined_charClass : Determined charClass charClass := by
  have named : Determined className className := by
    refine Determined.attempt ((determined_skip 1).bind fun _ => (determined_skipSpacing false false).bind fun _ => ?_)
    refine determined_identifier.bind fun name => (determined_skipSpacing false false).bind fun _ => ?_
    cases name with
    | none => exact determined_pure _
    | some name =>
      refine (determined_eat ">").bind fun closed => ?_
      cases closed <;> exact determined_pure _
  refine determined_here fun start => named.bind fun name => ?_
  cases name with
  | none => exact determined_pure _
  | some name => exact (determined_leaf start _).bind fun _ => determined_pure _

theorem determined_reference : Determined reference reference := by
  have named : Determined referenceName referenceName :=
    Determined.attempt ((determined_eat "@").bind fun memo => determined_identifier.bind fun name => determined_pure _)
  refine determined_atProductionHead.bind fun head => ?_
  cases head with
  | true => exact determined_pure _
  | false =>
    refine determined_here fun start => named.bind fun name => ?_
    cases name with
    | none => exact determined_pure _
    | some name => exact (determined_leaf start _).bind fun _ => determined_pure _

/-- Where the missing parenthesis is reported is another question. -/
theorem determined_closeParenthesis : Determined closeParenthesis closeParenthesis := by
  refine (determined_eat ")").bind fun closed => ?_
  cases closed with
  | true => exact determined_pure ()
  | false => exact determined_tokenEnd fun p p' => (stays_report ..).determined (stays_report ..)

theorem determined_actionHead : Determined actionHead actionHead := by
  refine Determined.attempt ((determined_skip 1).bind fun _ => determined_identifier.bind fun name => ?_)
  cases name with
  | none => exact determined_pure _
  | some name =>
    refine (determined_skipSpacing false false).bind fun _ => (determined_eat "(").bind fun opened => ?_
    cases opened <;> exact determined_pure _

end Operands

section Quantifiers

theorem determined_boundNumbers : Determined boundNumbers boundNumbers := by
  refine determined_integer.bind fun first => ?_
  cases first with
  | none => exact determined_pure _
  | some n =>
    refine (determined_eat ",").bind fun separated => ?_
    cases separated with
    | false => exact determined_pure _
    | true =>
      refine determined_spacing.bind fun _ => determined_peek.bind fun next => ?_
      cases next with
      | none => exact determined_pure _
      | some c =>
        dsimp only
        split
        · exact determined_integer.bind fun second => determined_pure _
        · exact determined_pure _

theorem determined_bounds (start : Position) : Determined (bounds start) (bounds start) := by
  refine determined_here fun opening => (determined_skip 1).bind fun _ => determined_spacing.bind fun _ => ?_
  refine determined_boundNumbers.bind fun numbers => ?_
  have malformed : Determined (do
      let _ ← takeWhile fun c => c != '\x7d' && c != ';' && c != '\n'
      let _ ← eat "\x7d"
      report .invalidExpression opening (← here) "malformed repetition bounds"
      spacing) (do
      let _ ← takeWhile fun c => c != '\x7d' && c != ';' && c != '\n'
      let _ ← eat "\x7d"
      report .invalidExpression opening (← here) "malformed repetition bounds"
      spacing) := by
    refine (determined_takeWhile _).bind fun _ => (determined_eat _).bind fun _ => determined_here fun stop => ?_
    exact determined_reported _ opening stop opening stop _ determined_spacing
  cases numbers with
  | none => exact malformed
  | some numbers =>
    obtain ⟨min, max⟩ := numbers
    refine (determined_eat _).bind fun closed => ?_
    cases closed with
    | false => exact malformed
    | true =>
      refine determined_here fun stop => ?_
      split
      · exact determined_built _ _ (determined_located start stop start stop determined_spacing)
      · exact determined_reported _ opening stop opening stop _ determined_spacing

theorem determined_suffix (start : Position) : Determined (suffix start) (suffix start) := by
  refine determined_peek.bind fun next => ?_
  cases next with
  | none => exact determined_pure ()
  | some c =>
    dsimp only
    split
    · exact (determined_skip 1).bind fun _ => determined_leaf start _
    split
    · exact determined_bounds start
    · exact determined_pure ()

theorem determined_lookaheadSign : Determined lookaheadSign lookaheadSign := by
  refine (determined_eat "!").bind fun absent => ?_
  cases absent with
  | true => exact determined_spacing.bind fun _ => determined_pure _
  | false =>
    refine (determined_eat "&").bind fun present => ?_
    cases present with
    | true => exact determined_spacing.bind fun _ => determined_pure _
    | false => exact determined_pure _

end Quantifiers

section Expressions

section

variable {expression expression' : Read Bool} (inner : Determined expression expression')

include inner

theorem determined_grouping : Determined (grouping expression) (grouping expression') := by
  have opened : Determined (do skip 1; spacing; expression) (do skip 1; spacing; expression') :=
    (determined_skip 1).bind fun _ => determined_spacing.bind fun _ => inner
  refine opened.attempt.bind fun found => ?_
  cases found with
  | true => exact determined_closeParenthesis.bind fun _ => determined_spacing.bind fun _ => determined_pure _
  | false => exact determined_pure _

theorem determined_action : Determined (action expression) (action expression') := by
  refine determined_here fun start => determined_actionHead.bind fun name => ?_
  cases name with
  | none => exact determined_pure _
  | some name =>
    refine determined_spacing.bind fun _ => determined_built _ _ (inner.bind fun _ => ?_)
    refine determined_closeParenthesis.bind fun _ => determined_here fun stop => determined_built _ _ ?_
    refine determined_located start stop start stop (determined_built _ _ ?_)
    exact determined_spacing.bind fun _ => determined_pure _

theorem determined_operand : Determined (operand expression) (operand expression') := by
  refine determined_here fun start => determined_peek.bind fun next => ?_
  split
  · exact (determined_token _).bind fun _ => determined_pure _
  · exact (determined_token _).bind fun _ => determined_pure _
  · exact determined_charset.bind fun set => (determined_leaf start _).bind fun _ => determined_pure _
  · exact determined_charClass
  · exact (determined_skip 1).bind fun _ => (determined_leaf start _).bind fun _ => determined_pure _
  · exact determined_grouping inner
  · exact determined_action inner
  · exact determined_reference
  · split
    · exact determined_reference
    · exact determined_pure _
  · exact determined_pure _

theorem determined_signedOperand : Determined (signedOperand expression) (signedOperand expression') := by
  refine Determined.attempt (determined_lookaheadSign.bind fun sign => (determined_operand inner).bind fun found => ?_)
  cases found <;> exact determined_pure _

theorem determined_unary : Determined (unary expression) (unary expression') := by
  refine determined_here fun start => (determined_signedOperand inner).bind fun found => ?_
  have suffixed : Determined (do suffix start; return true) (do suffix start; return true) :=
    (determined_suffix start).bind fun _ => determined_pure _
  rcases found with _ | _ | sign
  · exact determined_pure _
  · exact suffixed
  · refine determined_built _ _ (determined_tokenEnd fun stop stop' => ?_)
    exact determined_located start stop start stop' suffixed

theorem determined_sequence : Determined (sequence expression) (sequence expression') := by
  refine determined_here fun start => determined_built _ _ (determined_steps fun limit limit' => ?_)
  refine (determined_countWhile (determined_unary inner) limit limit').bind fun count => ?_
  split
  · exact determined_built _ _ (determined_pure _)
  · refine determined_built _ _ (determined_tokenEnd fun stop stop' => determined_located start stop start stop' ?_)
    exact determined_built _ _ (determined_pure _)

theorem determined_alternative : Determined (alternative expression) (alternative expression') := by
  have behind : Determined (do
      spacing
      if ← sequence expression then return true
      let place ← here
      report .syntaxError place place "expecting an alternative after `/`"
      return false) (do
      spacing
      if ← sequence expression' then return true
      let place ← here
      report .syntaxError place place "expecting an alternative after `/`"
      return false) := by
    refine determined_spacing.bind fun _ => (determined_sequence inner).bind fun found => ?_
    cases found with
    | true => exact determined_pure _
    | false => exact determined_here fun p => determined_reported _ p p p p _ (determined_pure _)
  refine (determined_eat "/").bind fun slash => ?_
  cases slash with
  | true => exact behind
  | false =>
    refine (determined_eat "|").bind fun bar => ?_
    cases bar with
    | true => exact behind
    | false => exact determined_pure _

end

/-- An expression is read the same with any depth that is enough. -/
theorem determined_expression (depth depth' : Nat) : Determined (expression depth) (expression depth') := by
  induction depth generalizing depth' with
  | zero => exact determined_throw _
  | succ depth ih =>
    cases depth' with
    | zero => exact determined_throw' _
    | succ depth' =>
      refine determined_here fun start => determined_built _ _ ((determined_sequence (ih depth')).bind fun found => ?_)
      cases found with
      | false => exact determined_built _ _ (determined_pure _)
      | true =>
        refine determined_steps fun limit limit' => ?_
        refine (determined_countWhile (determined_alternative (ih depth')) limit limit').bind fun _ => ?_
        refine determined_built _ _ (determined_tokenEnd fun stop stop' => ?_)
        exact determined_located start stop start stop' (determined_built _ _ (determined_pure _))

end Expressions

section Passing

theorem determined_inGarbage : Determined inGarbage inGarbage := by
  refine determined_atEnd.bind fun last => ?_
  cases last with
  | true => exact determined_pure _
  | false => exact determined_atProductionHead.bind fun head => determined_pure _

theorem determined_skipItem : Determined skipItem skipItem := by
  let next (s : List Char) : Read Unit :=
    s.casesOn (pure ()) fun c rest => if c = '\'' ∨ c = '"' then skip (1 + (stringBody c rest).length) else skip 1
  rw [skipItem_eq]
  refine @determined_text _ next next fun s => ?_
  cases s with
  | nil => exact determined_pure ()
  | cons c rest =>
    dsimp only [next]
    split
    · exact determined_skip _
    · exact determined_skip 1

theorem determined_skipItems {more : Read Bool} (looks : Determined more more) (reporting : Bool) (limit limit' : Nat)
    (stop : Position) : Determined (skipItems more reporting limit stop) (skipItems more reporting limit' stop) := by
  induction limit generalizing limit' stop with
  | zero => exact determined_throw _
  | succ limit ih =>
    cases limit' with
    | zero => exact determined_throw' _
    | succ limit' =>
      refine looks.bind fun go => ?_
      cases go with
      | false => exact determined_pure _
      | true =>
        refine determined_skipItem.bind fun _ => determined_here fun stop => ?_
        exact (determined_skipSpacing _ _).bind fun _ => ih limit' stop

theorem determined_garbage : Determined garbage garbage := by
  refine determined_here fun start => determined_steps fun limit limit' => ?_
  refine (determined_skipItems determined_inGarbage true limit limit' start).bind fun stop => ?_
  exact (stays_report ..).determined (stays_report ..)

/-- Text of the production is left that cannot be read. -/
def moreItems : Read Bool := do if (← peek) == some ';' then return false else inGarbage

theorem determined_moreItems : Determined moreItems moreItems := by
  refine determined_peek.bind fun next => ?_
  split
  · exact determined_pure _
  · exact determined_inGarbage

theorem determined_missing : Determined (do
    let place ← tokenEnd
    report .missingSemicolon place place "missing `;` at the end of the production") (do
    let place ← tokenEnd
    report .missingSemicolon place place "missing `;` at the end of the production") :=
  determined_tokenEnd fun _ _ => (stays_report ..).determined (stays_report ..)

/-- The end of a production behind text that cannot be read. -/
theorem determined_repaired (start stop : Position) : Determined (do
    report .invalidExpression start stop "invalid expression"
    if ← eat ";" then return
    let place ← tokenEnd
    report .missingSemicolon place place "missing `;` at the end of the production") (do
    report .invalidExpression start stop "invalid expression"
    if ← eat ";" then return
    let place ← tokenEnd
    report .missingSemicolon place place "missing `;` at the end of the production") := by
  refine determined_reported _ start stop start stop _ ((determined_eat ";").bind fun closed => ?_)
  cases closed with
  | true => exact determined_pure ()
  | false => exact determined_missing

theorem determined_terminate : Determined terminate terminate := by
  refine (determined_eat ";").bind fun closed => ?_
  cases closed with
  | true => exact determined_pure ()
  | false =>
    refine determined_inGarbage.bind fun garbage => ?_
    cases garbage with
    | false => exact determined_missing
    | true =>
      refine determined_here fun start => determined_steps fun limit limit' => ?_
      exact (determined_skipItems determined_moreItems false limit limit' start).bind fun stop =>
        determined_repaired start stop

end Passing

end Read

end Packrat
