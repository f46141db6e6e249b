import Packrat.Proofs.Builder.Placed
import Packrat.Proofs.Reader.Overrun
import Packrat.Proofs.Text.Reading

/-! # Where expressions are read

An operand lies between the place where its reader began and the end of the last token, and the next operand is looked
for behind that token. So the places of expressions follow one another and nest, with one exception: an expression in
parentheses ends with the signs behind it that have no operand. Where the closing parenthesis is missing there as well,
which is reported, the end of these signs is not the end of a token of what is around the parentheses.
-/

namespace Packrat

/-- A position of the text. -/
def Position.On (text : List Char) (p : Position) : Prop := ∃ n ≤ text.length, p = .after text n

/-- The place is in the text, and the rest of it is ahead. -/
def Place.On (text : List Char) (p : Place) : Prop :=
  ∃ taken, text = taken ++ p.rest ∧ p.position = Position.origin.advance taken

/-- A closing parenthesis has been missed at the position. -/
def Lost (problems : Problems) (p : Position) : Prop :=
  ⟨.missingParenthesis, none, some ⟨p, p⟩, "missing `)`"⟩ ∈ problems

theorem Lost.mono {problems problems' : Problems} (more : problems <+: problems') {p : Position}
    (lost : Lost problems p) : Lost problems' p := more.subset lost

namespace Read

variable {α : Type} {text : List Char} {c c' d d' : Cursor} {p : Place} {stop : Position} {s t : Span} {ss : List Span}

theorem on_position (on : p.On text) : p.position.On text := by
  obtain ⟨taken, rfl, position⟩ := on
  exact ⟨taken.length, by simp, by rw [position, Position.after, List.take_left]⟩

theorem Proceeds.on (proceeds : Proceeds c d) (on : c.toPlace.On text) : d.toPlace.On text := by
  obtain ⟨before, rfl, position⟩ := on
  obtain ⟨taken, ahead, position'⟩ := proceeds.taken
  refine ⟨before ++ taken, ?_, ?_⟩
  · rw [ahead, List.append_assoc]
  · change c.position = _ at position
    rw [position', position, Position.advance_append]

theorem Signs.on (found : Signs p stop) (on : p.On text) : stop.On text := by
  induction found with
  | @last p sign rest ahead known =>
    obtain ⟨before, rfl, position⟩ := on
    have behind : (Place.mk rest (p.position.next sign)).On (before ++ p.rest) := by
      refine ⟨before ++ [sign], by rw [ahead, List.append_assoc]; rfl, ?_⟩
      rw [Position.advance_append, ← position]
      rfl
    exact on_position behind
  | more _ _ blanks _ ih =>
    exact ih ((Read.leads_skipSpacing true _ _ _ blanks).proceeds.on ((Proceeds.forward _ 1).on on))

/-- What else there is in a state does not matter for where the step has gone. -/
theorem Proceeds.from {tokenEnd : Position} {builder : Builder}
    (proceeds : Proceeds { c with tokenEnd, builder } d) : Proceeds c d :=
  ⟨proceeds.marks, proceeds.problems, proceeds.taken⟩

theorem Proceeds.reported (c : Cursor) (more : Problems) : Proceeds c { c with problems := c.problems ++ more } :=
  .of_eq rfl rfl (List.prefix_append ..)

section Scanning

/-- The step goes on and leaves the builder alone. -/
def Quiet (step : Read α) : Prop := ∀ c, Leads step c fun _ d => Proceeds c d ∧ d.builder = c.builder

theorem quiet_of_ends {step : Read α} {Q : Cursor → α → Cursor → Prop} (determined : Determined step step)
    (ends : ∀ c, Ends step c (Q c)) (same : ∀ c a d, Q c a d → d.builder = c.builder) : Quiet step :=
  fun c a d ran => ⟨determined.proceeds ran, same c a d ((ends c).leads a d ran)⟩

theorem Total.quiet {reporting : Bool} {step : Read α} (total : Total reporting step)
    (determined : Determined step step) : Quiet step :=
  quiet_of_ends determined total fun _ _ _ after => after.onward.builder

end Scanning

section Given

theorem leads_locate {start stop : Position} {next : Unit → Read α} {Q : α → Cursor → Prop}
    (rest : ∀ b b', c.builder.apply (.setStart start) = .ok b → b.apply (.setStop stop) = .ok b' →
      Leads (next ()) { c with builder := b' } Q) : Leads (locate start stop >>= next) c Q := by
  rw [locate, bind_assoc]
  exact leads_build fun b started => leads_build fun b' stopped => rest b b' started stopped

theorem leads_leaf (start : Position) (made : Builder.Step) (c : Cursor) : Leads (leaf start made) c fun _ d =>
    ∃ b, c.builder.Places made ⟨start, c.position⟩ b ∧ Skipped { c with builder := b, tokenEnd := c.position } d := by
  refine leads_build fun b made => ?_
  rw [leads_here]
  refine leads_locate fun b₁ b₂ started stopped => (leads_spaced _).mono fun _ d skipped => ?_
  exact ⟨b₂, ⟨b, b₁, made, started, stopped⟩, skipped⟩

end Given

section Reading

/-- The reader is in a production behind the end of a token, and all expressions lie where they should. -/
structure Standing (text : List Char) (c : Cursor) : Prop where
  place : c.toPlace.On text
  tokenEnd : c.tokenEnd.offset ≤ c.position.offset
  sound : c.builder.Sound
  laid : Laid (Position.On text) (Lost c.problems) c.builder.nodes
  current : ∃ owner, c.builder.current = some owner

/-- From `c` to `d`, expressions have been read one behind the other. -/
structure Row (text : List Char) (c d : Cursor) (ss : List Span) : Prop where
  proceeds : Proceeds c d
  lays : c.builder.Lays (Position.On text) (Lost d.problems) d.builder ss
  tokenEnd : d.tokenEnd.On text
  reaches : c.position.offset ≤ d.tokenEnd.offset
  starts : ∀ s ∈ ss, c.position.offset ≤ s.start.offset
  apart : ss.Pairwise fun s t => s.stop.offset ≤ t.start.offset

/-- From `c` to `d`, an operand with what stands before and behind it has been read. -/
structure Placed (text : List Char) (c d : Cursor) (s : Span) : Prop extends Row text c d [s] where
  settled : d.tokenEnd.offset ≤ d.position.offset
  stops : s.stop.offset ≤ d.tokenEnd.offset ∨ Overrun d.toPlace s.stop ∧ Lost d.problems s.stop

/-- The last token ends before the place, or it is a sign that has no operand. -/
def Rests (d : Cursor) : Prop := d.tokenEnd.offset ≤ d.position.offset ∨ Overrun d.toPlace d.tokenEnd

/-- From `c` to `d`, a whole expression has been read. -/
structure Whole (text : List Char) (c d : Cursor) : Prop extends Row text c d [⟨c.position, d.tokenEnd⟩] where
  rests : Rests d

theorem Laid.lost_mono {nodes : Array Node} (laid : Laid (Position.On text) (Lost c.problems) nodes)
    (proceeds : Proceeds c d) : Laid (Position.On text) (Lost d.problems) nodes :=
  laid.mono fun _ lost => lost.mono proceeds.problems

theorem Standing.onward (standing : Standing text c) (proceeds : Proceeds c d) (same : d.builder = c.builder)
    (settled : d.tokenEnd.offset ≤ d.position.offset) : Standing text d where
  place := proceeds.on standing.place
  tokenEnd := settled
  sound := same ▸ standing.sound
  laid := same ▸ Laid.lost_mono standing.laid proceeds
  current := same ▸ standing.current

/-- Behind a token and the blanks that follow it. -/
theorem Standing.spaced (standing : Standing text c) (proceeds : Proceeds c c') (same : c'.builder = c.builder)
    (skipped : Skipped { c' with tokenEnd := c'.position } d) : Standing text d := by
  refine standing.onward (proceeds.trans skipped.proceeds.from) (skipped.builder.trans same) ?_
  rw [skipped.tokenEnd]
  exact skipped.proceeds.offset_le

theorem Row.before (row : Row text c' d ss) (proceeds : Proceeds c c') (same : c'.builder = c.builder) :
    Row text c d ss where
  proceeds := proceeds.trans row.proceeds
  lays := same ▸ row.lays
  tokenEnd := row.tokenEnd
  reaches := Nat.le_trans proceeds.offset_le row.reaches
  starts s member := Nat.le_trans proceeds.offset_le (row.starts s member)
  apart := row.apart

/-- Text behind expressions that changes nothing. -/
theorem Row.onward (row : Row text c d ss) (proceeds : Proceeds d d') (same : d'.builder = d.builder)
    (on : d'.tokenEnd.On text) (later : d.tokenEnd.offset ≤ d'.tokenEnd.offset) : Row text c d' ss where
  proceeds := row.proceeds.trans proceeds
  lays := same ▸ row.lays.mono fun _ lost => lost.mono proceeds.problems
  tokenEnd := on
  reaches := Nat.le_trans row.reaches later
  starts := row.starts
  apart := row.apart

/-- What ends in front of the blanks that are skipped. -/
theorem Placed.of_skipped {b : Builder} (proceeds : Proceeds c c') (stop : c'.position.On text)
    (skipped : Skipped { c' with builder := b, tokenEnd := c'.position } d)
    (lays : c.builder.Lays (Position.On text) (Lost d.problems) b [⟨c.position, c'.position⟩]) :
    Placed text c d ⟨c.position, c'.position⟩ := by
  obtain rfl : d.builder = b := skipped.builder
  refine ⟨⟨proceeds.trans skipped.proceeds.from, lays, ?_, ?_, ?_, List.pairwise_singleton ..⟩, ?_, .inl ?_⟩
  · rw [skipped.tokenEnd]
    exact stop
  · rw [skipped.tokenEnd]
    exact proceeds.offset_le
  · intro s member
    rw [List.mem_singleton.mp member]
  · rw [skipped.tokenEnd]
    exact skipped.proceeds.offset_le
  · rw [skipped.tokenEnd]

end Reading

section Leaves

theorem Standing.leaf {made : Builder.Step} (standing : Standing text c) (pushes : made.isLeaf = true)
    (proceeds : Proceeds c c') (same : c'.builder = c.builder) :
    Leads (leaf c.position made) c' fun _ d => ∃ s, Placed text c d s := by
  refine (leads_leaf c.position made c').mono fun _ d ⟨b, places, skipped⟩ => ?_
  have behind : Proceeds c d := proceeds.trans skipped.proceeds.from
  have start := on_position standing.place
  have stop := on_position (proceeds.on standing.place)
  rw [same] at places
  have lays := (Builder.Lays.refl standing.sound (Laid.lost_mono standing.laid behind)).leaf pushes places start stop
    proceeds.offset_le
  exact ⟨_, .of_skipped proceeds stop skipped lays⟩

theorem quiet_quotedText (quote : Char) : Quiet (quotedText quote) :=
  quiet_of_ends (determined_quotedText quote) (ends_quotedText quote) fun _ _ _ holds => holds.1.builder

theorem Standing.token (standing : Standing text c) (quote : Char) :
    Leads (token quote) c fun _ d => ∃ s, Placed text c d s := by
  have quoted : Leads (do
      let image ← quotedText quote
      Read.leaf c.position (.terminal (.token (String.ofList image) (quote == '\'')))) c
      fun _ d => ∃ s, Placed text c d s :=
    (quiet_quotedText quote c).bind fun _ c' ⟨proceeds, same⟩ => standing.leaf rfl proceeds same
  refine leads_here.mpr ?_
  by_cases single : quote = '\''
  · rw [if_pos single]
    refine (leads_ran quietInterval c).bind fun interval c' ran => ?_
    have holds := (ends_quietInterval c).leads _ _ ran
    cases interval with
    | none =>
      obtain rfl : c' = c := holds
      exact quoted
    | some bounds =>
      obtain ⟨⟨count, rfl⟩, -⟩ := holds
      exact standing.leaf rfl (.forward c count) rfl
  · rw [if_neg single, pure_bind]
    exact quoted

theorem Standing.charClass (standing : Standing text c) :
    Leads charClass c fun found d => found = true → ∃ s, Placed text c d s := by
  refine leads_here.mpr ?_
  refine (ends_className c).leads.bind fun found c' ⟨_, holds⟩ => ?_
  cases found with
  | none => exact leads_refused
  | some name =>
    obtain ⟨⟨count, rfl⟩, -⟩ := holds
    exact (standing.leaf rfl (.forward c count) rfl).found

theorem Standing.reference (standing : Standing text c) :
    Leads reference c fun found d => found = true → ∃ s, Placed text c d s := by
  refine (ends_atProductionHead c).leads.bind fun head c' ⟨same, _⟩ => ?_
  subst same
  cases head with
  | true => exact leads_refused
  | false =>
    rw [if_neg Bool.false_ne_true, leads_here]
    refine (ends_referenceName c').leads.bind fun found c'' ⟨_, holds⟩ => ?_
    cases found with
    | none => exact leads_refused
    | some name =>
      obtain ⟨⟨count, rfl⟩, -⟩ := holds
      exact (standing.leaf rfl (.forward c' count) rfl).found

end Leaves

section Parentheses

/-- An opening sign is the first character where signs are overrun. -/
theorem Rests.settled (rests : Rests d) {text : String} (ahead : text.toList <+: d.rest)
    {first : Char} (opens : text.toList.head? = some first) (other : first ∉ openings) :
    d.tokenEnd.offset ≤ d.position.offset :=
  rests.resolve_right fun overrun => overrun.signs.not_prefix opens other ahead

/-- The parenthesis is closed behind the last token, or it is missed there. -/
theorem leads_closeParenthesis (rests : Rests c) : Leads closeParenthesis c fun _ d =>
    Proceeds c d ∧ d.builder = c.builder ∧ (c.tokenEnd.offset ≤ d.position.offset ∨
      Overrun d.toPlace c.tokenEnd ∧ Lost d.problems c.tokenEnd) := by
  refine leads_eat (fun ahead => (leads_pure ()).mpr ?_) fun _ => ?_
  · have settled := rests.settled ahead rfl (by decide)
    have proceeds := Proceeds.forward c ")".length
    exact ⟨proceeds, rfl, .inl (Nat.le_trans settled proceeds.offset_le)⟩
  · rintro _ _ ⟨⟩
    refine ⟨.reported c _, rfl, rests.imp_right fun overrun => ⟨overrun, ?_⟩⟩
    exact List.mem_append_right _ (List.mem_singleton_self _)

theorem Proceeds.unmarked {marks : List Place} (proceeds : Proceeds { c with marks } d) :
    Proceeds c { d with marks := c.marks } := ⟨rfl, proceeds.problems, proceeds.taken⟩

/-- Going back to the marks that were there before. -/
theorem leads_attempt {succeeds : α → Bool} {step : Read α} {R : α → Cursor → Prop} (determined : Determined step step)
    (leads : Leads step { c with marks := c.toPlace :: c.marks } R) : Leads (attempt succeeds step) c fun a d =>
      succeeds a = true → ∃ tried, R a tried ∧ d = { tried with marks := c.marks } ∧ Proceeds c d := by
  refine (@Leads.attempt _ c step succeeds (fun a d => R a d ∧ Proceeds { c with marks := c.toPlace :: c.marks } d)
    fun a d ran => ⟨(determined.proceeds ran).marks, leads a d ran, determined.proceeds ran⟩).mono ?_
  rintro a d ⟨tried, ⟨holds, proceeds⟩, rfl⟩ success
  rw [if_pos success]
  exact ⟨tried, holds, rfl, proceeds.unmarked⟩

/-- Behind a closing parenthesis, the end of what is in parentheses is that of a token, or it is lost. -/
theorem leads_closed (rests : Rests c) (on : c.toPlace.On text) :
    Leads (closeParenthesis >>= fun _ => spacing) c fun _ d => Proceeds c d ∧ d.builder = c.builder ∧
      d.tokenEnd.On text ∧ c.position.offset ≤ d.tokenEnd.offset ∧ d.tokenEnd.offset ≤ d.position.offset ∧
      (c.tokenEnd.offset ≤ d.tokenEnd.offset ∨ Overrun d.toPlace c.tokenEnd ∧ Lost d.problems c.tokenEnd) := by
  refine (leads_closeParenthesis rests).bind fun _ c₁ ⟨proceeds, same, closed⟩ => ?_
  intro u d ran
  have skipped := leads_spaced c₁ u d ran
  have behind := skipped.proceeds.from
  rw [skipped.tokenEnd, skipped.builder]
  refine ⟨proceeds.trans behind, same, on_position (proceeds.on on), proceeds.offset_le, behind.offset_le, ?_⟩
  refine closed.imp_right fun ⟨overrun, lost⟩ => ⟨?_, lost.mono behind.problems⟩
  -- No blank is skipped in front of a sign.
  have stays : d.toPlace = c₁.toPlace :=
    @Signs.leads_skipSpacing { c₁ with tokenEnd := c₁.position } _ overrun.signs true u d ran
  rwa [stays]

/-- Expressions are read whole, or nothing is found where the last token ends before the place or is a sign. -/
def Framed (text : List Char) (step : Read Bool) : Prop := ∀ c, Standing text c →
  Leads step c fun found d => if found then Whole text c d else Rests d

section

variable {depth : Nat} (inner : Framed text (expression depth))

include inner

theorem Standing.grouping (standing : Standing text c) :
    Leads (grouping (expression depth)) c fun found d => found = true → ∃ s, Placed text c d s := by
  have opened : Determined (do skip 1; spacing; expression depth) (do skip 1; spacing; expression depth) :=
    (determined_skip 1).bind fun _ => determined_spacing.bind fun _ => determined_expression depth depth
  refine (leads_attempt (R := fun found d => found = true → ∃ c₁, c.position.offset ≤ c₁.position.offset ∧
    c₁.builder = c.builder ∧ Whole text c₁ d) opened ?_).bind fun found c₂ success => ?_
  · rw [leads_skip]
    refine (leads_spaced _).bind fun _ c₁ skipped => ?_
    have first := Proceeds.forward { c with marks := c.toPlace :: c.marks } 1
    refine (inner c₁ ?_).mono fun found d whole success => ⟨c₁, ?_, skipped.builder, by rwa [if_pos success] at whole⟩
    · have marked : Standing text { c with marks := c.toPlace :: c.marks } := { standing with }
      exact marked.spaced first rfl skipped
    · exact (first.trans skipped.proceeds.from).offset_le
  · cases found with
    | false => exact leads_refused
    | true =>
      obtain ⟨tried, holds, rfl, proceeds⟩ := success rfl
      obtain ⟨c₁, before, same, whole⟩ := holds rfl
      rw [if_pos rfl, ← bind_assoc]
      refine (@leads_closed text { tried with marks := c.marks } whole.rests (proceeds.on standing.place)).bind ?_
      rintro _ d ⟨further, built, token, reaches, settled, stops⟩
      refine (leads_pure _).mpr fun _ => ⟨⟨c₁.position, tried.tokenEnd⟩, ⟨proceeds.trans further, ?_, token, ?_, ?_,
        List.pairwise_singleton ..⟩, settled, stops⟩
      · rw [built, ← same]
        exact whole.lays.mono fun _ lost => lost.mono further.problems
      · exact Nat.le_trans proceeds.offset_le reaches
      · intro s member
        rw [List.mem_singleton.mp member]
        exact before

/-- The body of an action is one expression, or there is none. -/
theorem Standing.body (standing : Standing text c) : Leads (expression depth) c fun _ d => Proceeds c d ∧ Rests d ∧
    ∃ ss : List Span, ss.length ≤ 1 ∧ c.builder.Lays (Position.On text) (Lost d.problems) d.builder ss ∧
      ∀ t ∈ ss, c.position.offset ≤ t.start.offset ∧ t.stop = d.tokenEnd := by
  intro found d ran
  have proceeds := (determined_expression depth depth).proceeds ran
  have holds := inner c standing found d ran
  cases found with
  | true =>
    have whole : Whole text c d := holds
    refine ⟨proceeds, whole.rests, _, Nat.le_refl _, whole.lays, fun t member => ?_⟩
    rw [List.mem_singleton.mp member]
    exact ⟨Nat.le_refl _, rfl⟩
  | false =>
    have missed := missed_expression depth c false d ran rfl
    refine ⟨proceeds, holds, [], Nat.zero_le _, ?_, nofun⟩
    rw [missed.builder]
    exact .refl standing.sound (Laid.lost_mono standing.laid proceeds)

theorem Standing.action (standing : Standing text c) :
    Leads (action (expression depth)) c fun found d => found = true → ∃ s, Placed text c d s := by
  refine leads_here.mpr ?_
  refine (ends_actionHead c).leads.bind fun found c₁ ⟨_, holds⟩ => ?_
  cases found with
  | none => exact leads_refused
  | some name =>
    obtain ⟨⟨count, rfl⟩, -⟩ := holds
    have first := Proceeds.forward c count
    refine (leads_spaced _).bind fun _ c₂ skipped => leads_build fun builder marked => ?_
    cases marked
    have standing₂ := standing.spaced first rfl skipped
    have before := first.trans skipped.proceeds.from
    obtain ⟨owner, current⟩ := standing₂.current
    have sound := standing₂.sound.mark current
    have standing₃ : Standing text { c₂ with builder := c₂.builder.mark } := { standing₂ with sound := sound }
    refine (standing₃.body inner).bind fun _ c₄ ⟨inside, rests, ss, single, lays, ends⟩ => ?_
    refine (leads_closeParenthesis rests).bind fun _ c₅ ⟨closes, same, closed⟩ => ?_
    have behind := (before.trans inside.from).trans closes
    have stop := on_position (behind.on standing.place)
    rw [leads_here]
    refine leads_build fun b₁ handed => leads_locate fun b₂ b₃ started stopped => leads_build fun b₄ released => ?_
    rw [same] at handed
    refine (leads_spaced _).bind fun _ d skipped' => (leads_pure _).mpr fun _ => ?_
    have further : Proceeds c₅ d := @Proceeds.from c₅ d _ _ skipped'.proceeds
    have places : c₄.builder.Places (.action name) ⟨c.position, c₅.position⟩ b₃ := ⟨b₁, b₂, handed, started, stopped⟩
    have lays := lays.mono fun _ lost => lost.mono (closes.problems.trans further.problems)
    have lays := lays.action sound.ordered single places (on_position standing.place) stop behind.offset_le
      fun t member => ?_
    · have lays := lays.release released
      have from₀ : c₂.builder = c.builder := skipped.builder
      rw [from₀] at lays
      exact ⟨_, .of_skipped behind stop skipped' lays⟩
    · obtain ⟨begins, last⟩ := ends t member
      rw [last]
      exact ⟨Nat.le_trans before.offset_le begins, closed.imp_right fun holds => holds.2.mono further.problems⟩

theorem Standing.operand (standing : Standing text c) :
    Leads (operand (expression depth)) c fun found d => found = true → ∃ s, Placed text c d s := by
  have leaf {t : Terminal} {c' : Cursor} (proceeds : Proceeds c c') (same : c'.builder = c.builder) :
      Leads (do Read.leaf c.position (.terminal t); return true) c'
        fun found d => found = true → ∃ s, Placed text c d s :=
    (standing.leaf rfl proceeds same).found
  refine leads_here.mpr (leads_peek.mpr ?_)
  cases ahead : c.rest with
  | nil => exact leads_refused
  | cons first rest =>
    rw [List.head?_cons]
    split
    · exact (standing.token '\'').found
    · exact (standing.token '"').found
    · refine (leads_ran charset c).bind fun set c' ran => ?_
      have holds := (ends_charset (by simp [ahead])).leads _ _ ran
      exact leaf (determined_charset.proceeds ran) holds.1.builder
    · exact standing.charClass
    · exact leaf (.forward c 1) rfl
    · exact standing.grouping inner
    · exact standing.action inner
    · exact standing.reference
    · split
      · exact standing.reference
      · exact leads_refused
    · exact leads_refused

end

end Parentheses

section Quantifiers

/-- No expression ends behind what begins with another character than a sign. -/
theorem Placed.inside (found : Placed text c d s) {first : Char} {rest : List Char} (ahead : d.rest = first :: rest)
    (other : first ∉ openings) : s.stop.offset ≤ d.position.offset := by
  refine Nat.le_trans (found.stops.resolve_right fun ⟨overrun, _⟩ => ?_) found.settled
  obtain ⟨sign, _, ahead', known⟩ := overrun.signs.head
  cases ahead.symm.trans ahead'
  exact other known

/-- Text behind an expression that changes nothing. -/
theorem Placed.onward (found : Placed text c d s) (on : d.toPlace.On text) (proceeds : Proceeds d c')
    (same : c'.builder = d.builder) (inside : s.stop.offset ≤ d.position.offset) :
    Leads spacing c' fun _ d' => Placed text c d' s := by
  refine (leads_spaced c').mono fun _ d' skipped => ?_
  have further : Proceeds c' d' := skipped.proceeds.from
  have row : Row text c d' [s] := by
    refine found.toRow.onward (proceeds.trans further) (skipped.builder.trans same) ?_ ?_
    · rw [skipped.tokenEnd]
      exact on_position (proceeds.on on)
    · rw [skipped.tokenEnd]
      exact Nat.le_trans found.settled proceeds.offset_le
  refine ⟨row, ?_, .inl ?_⟩
  · rw [skipped.tokenEnd]
    exact further.offset_le
  · rw [skipped.tokenEnd]
    exact Nat.le_trans inside proceeds.offset_le

/-- A quantifier behind an expression. -/
theorem Placed.repeated {min max : Nat} {b : Builder} (found : Placed text c d s) (standing : Standing text c)
    (proceeds : Proceeds d c') (inside : s.stop.offset ≤ d.position.offset)
    (places : d.builder.Places (.repetition min max) ⟨c.position, c'.position⟩ b)
    (skipped : Skipped { c' with builder := b, tokenEnd := c'.position } d') :
    Placed text c d' ⟨c.position, c'.position⟩ := by
  have behind := found.proceeds.trans proceeds
  have further : Proceeds c' d' := @Proceeds.from c' d' _ _ skipped.proceeds
  have stop := on_position (behind.on standing.place)
  have lays := found.lays.mono fun _ lost => lost.mono (proceeds.trans further).problems
  refine .of_skipped behind stop skipped ?_
  refine @Builder.Lays.wrap _ _ _ _ _ _ [] _ (.repetition · min max) s lays standing.sound.ordered places ?_ rfl
    (fun _ => rfl) (on_position standing.place) stop behind.offset_le ?_ fun _ => .inl ?_
  · intro b₁ applied
    obtain ⟨owner, child, stack, -, popped, rfl⟩ := Builder.of_wrapTop (Builder.of_repeatTop applied).2
    exact ⟨owner, child, stack, popped, rfl⟩
  · exact found.starts s (List.mem_singleton_self s)
  · exact Nat.le_trans inside proceeds.offset_le

theorem quiet_boundNumbers : Quiet boundNumbers :=
  quiet_of_ends determined_boundNumbers answers_boundNumbers fun _ _ _ holds => holds.1.builder

theorem Placed.bounds (found : Placed text c d s) (standing : Standing text c)
    (inside : s.stop.offset ≤ d.position.offset) : Leads (bounds c.position) d fun _ d' => ∃ s, Placed text c d' s := by
  have on := found.proceeds.on standing.place
  refine leads_here.mpr (leads_skip.mpr ?_)
  refine (leads_spaced _).bind fun _ c₁ skipped => (quiet_boundNumbers c₁).bind fun numbers c₂ ⟨proceeds, same⟩ => ?_
  have proceeds := ((Proceeds.forward d 1).trans skipped.proceeds.from).trans proceeds
  have same : c₂.builder = d.builder := same.trans skipped.builder
  have reported {c₃ : Cursor} (further : Proceeds c₂ c₃) (same' : c₃.builder = c₂.builder) (stop : Position)
      (message : String) : Leads (do report .invalidExpression d.position stop message; spacing) c₃
      fun _ d' => ∃ s, Placed text c d' s := by
    rw [leads_report]
    refine (found.onward on ((proceeds.trans further).trans (.reported c₃ _)) (same'.trans same) inside).mono ?_
    exact fun _ _ found => ⟨s, found⟩
  have malformed : Leads (do
      let _ ← takeWhile fun c => c != '\x7d' && c != ';' && c != '\n'
      let _ ← eat "\x7d"
      report .invalidExpression d.position (← here) "malformed repetition bounds"
      spacing) c₂ fun _ d' => ∃ s, Placed text c d' s := by
    refine ((total_takeWhile true _).quiet (determined_takeWhile _) c₂).bind fun _ c₃ ⟨further, same₃⟩ => ?_
    refine ((total_eat true _).quiet (determined_eat _) c₃).bind fun _ c₄ ⟨further', same₄⟩ => ?_
    exact reported (further.trans further') (same₄.trans same₃) _ _
  dsimp only
  cases numbers with
  | none => exact malformed
  | some numbers =>
    obtain ⟨min, max⟩ := numbers
    rw [Option.isSome_some, if_pos rfl]
    refine leads_eat (fun _ => ?_) fun _ => malformed
    have closes := Proceeds.forward c₂ "\x7d".length
    dsimp only
    rw [leads_here]
    split
    · refine leads_build fun b₁ made => leads_locate fun b₂ b₃ started stopped => ?_
      have places : (c₂.forward "\x7d".length).builder.Places (.repetition min max)
        ⟨c.position, (c₂.forward "\x7d".length).position⟩ b₃ := ⟨b₁, b₂, made, started, stopped⟩
      rw [show (c₂.forward "\x7d".length).builder = d.builder from same] at places
      refine (leads_spaced _).mono fun _ d' skipped' => ?_
      exact ⟨_, found.repeated standing (proceeds.trans closes) inside places skipped'⟩
    · exact reported closes rfl _ _

theorem Placed.suffix (found : Placed text c d s) (standing : Standing text c) :
    Leads (suffix c.position) d fun _ d' => ∃ s, Placed text c d' s := by
  refine leads_peek.mpr ?_
  cases ahead : d.rest with
  | nil => exact (leads_pure _).mpr ⟨s, found⟩
  | cons first rest =>
    dsimp only [List.head?_cons]
    split
    · next quantifier known =>
      have other : first ∉ openings := by
        intro opening
        simp only [openings, List.mem_cons, List.not_mem_nil, or_false] at opening
        rcases opening with rfl | rfl | rfl <;> cases known
      rw [leads_skip]
      refine (leads_leaf _ _ _).mono fun _ d' ⟨b, places, skipped⟩ => ?_
      exact ⟨_, found.repeated standing (.forward d 1) (found.inside ahead other) places skipped⟩
    · split
      · next brace =>
        subst brace
        exact found.bounds standing (found.inside ahead (by decide))
      · exact (leads_pure _).mpr ⟨s, found⟩

end Quantifiers

section Signs

theorem Placed.before (found : Placed text c' d s) (proceeds : Proceeds c c') (same : c'.builder = c.builder) :
    Placed text c d s := ⟨found.toRow.before proceeds same, found.settled, found.stops⟩

section

variable {depth : Nat} (inner : Framed text (expression depth))

include inner

theorem Standing.signedOperand (standing : Standing text c) :
    Leads (signedOperand (expression depth)) c fun found d => found.isSome = true → ∃ s, Placed text c d s := by
  have determined := determined_operand (determined_expression depth depth)
  let marked : Cursor := { c with marks := c.toPlace :: c.marks }
  refine (leads_attempt (R := fun found d => found.isSome = true → ∃ s, Placed text marked d s)
    (determined_lookaheadSign.bind fun sign => determined.bind fun found => ?_) ?_).mono ?_
  · cases found <;> exact determined_pure _
  · have start : Standing text marked := { standing with }
    have read {c₁ : Cursor} (standing₁ : Standing text c₁) (proceeds : Proceeds marked c₁)
        (same : c₁.builder = c.builder) (sign : Option Lookahead) : Leads (do
          if ← Read.operand (expression depth) then return some sign else return none) c₁
          fun found d => found.isSome = true → ∃ s, Placed text marked d s := by
      refine (standing₁.operand inner).bind fun found d holds => ?_
      cases found with
      | false => exact (leads_pure _).mpr nofun
      | true =>
        obtain ⟨s, found⟩ := holds rfl
        exact (leads_pure _).mpr fun _ => ⟨s, found.before proceeds same⟩
    refine (leads_lookaheadSign _).bind fun sign c₁ signed => ?_
    rcases signed with ⟨-, rfl⟩ | ⟨first, rest, ahead, known, ran⟩
    · exact read start (.refl _) rfl sign
    · have first := Proceeds.forward marked 1
      have skipped := leads_spaced _ _ _ ran
      exact read (start.spaced first rfl skipped) (first.trans skipped.proceeds.from) skipped.builder sign
  · rintro found d success found'
    obtain ⟨tried, holds, rfl, proceeds⟩ := success found'
    obtain ⟨s, found⟩ := holds found'
    exact ⟨s, { found with proceeds }⟩

theorem Standing.unary (standing : Standing text c) :
    Leads (unary (expression depth)) c fun found d => found = true → ∃ s, Placed text c d s := by
  refine leads_here.mpr ?_
  refine (standing.signedOperand inner).bind fun found d holds => ?_
  rcases found with _ | _ | sign
  · exact leads_refused
  · obtain ⟨s, found⟩ := holds rfl
    exact (found.suffix standing).found
  · obtain ⟨s, found⟩ := holds rfl
    refine leads_build fun b₁ made => ?_
    rw [leads_tokenEnd]
    refine leads_locate fun b₂ b₃ started stopped => ?_
    have places : d.builder.Places (.lookahead sign) ⟨c.position, d.tokenEnd⟩ b₃ := ⟨b₁, b₂, made, started, stopped⟩
    have lays := @Builder.Lays.wrap _ _ _ _ _ _ [] _ (.lookahead · sign) s found.lays standing.sound.ordered places ?_
      rfl (fun _ => rfl) (on_position standing.place) found.tokenEnd found.reaches ?_ fun _ => ?_
    · have signed : Placed text c { d with builder := b₃ } ⟨c.position, d.tokenEnd⟩ := by
        refine ⟨⟨?_, lays, found.tokenEnd, found.reaches, ?_, List.pairwise_singleton ..⟩, found.settled, .inl ?_⟩
        · exact ⟨found.proceeds.marks, found.proceeds.problems, found.proceeds.taken⟩
        · intro s member
          rw [List.mem_singleton.mp member]
        · exact Nat.le_refl _
      exact (signed.suffix standing).found
    · intro b₁ applied
      obtain ⟨owner, child, stack, -, popped, rfl⟩ := Builder.of_wrapTop applied
      exact ⟨owner, child, stack, popped, rfl⟩
    · exact found.starts s (List.mem_singleton_self s)
    · exact found.stops.imp_right fun holds => ⟨rfl, holds.2⟩

end

end Signs

section Sequences

/-- Operands have been read, the last one of which may end behind the place. -/
structure Chain (text : List Char) (c d : Cursor) (ss : List Span) : Prop extends Row text c d ss where
  nonempty : ss ≠ []
  settled : d.tokenEnd.offset ≤ d.position.offset
  stops : ∀ s ∈ ss, s.stop.offset ≤ d.tokenEnd.offset ∨ Overrun d.toPlace s.stop

/-- Expressions have been read that all end where the last token does at most. -/
structure Series (text : List Char) (c d : Cursor) (ss : List Span) : Prop extends Row text c d ss where
  nonempty : ss ≠ []
  rests : Rests d
  stops : ∀ s ∈ ss, s.stop.offset ≤ d.tokenEnd.offset

theorem Row.standing (row : Row text c d ss) (standing : Standing text c)
    (settled : d.tokenEnd.offset ≤ d.position.offset) : Standing text d where
  place := row.proceeds.on standing.place
  tokenEnd := settled
  sound := row.lays.sound
  laid := row.lays.laid
  current := row.lays.current ▸ standing.current

theorem Row.append (row : Row text c d ss) (next : Row text d d' [t])
    (behind : ∀ s ∈ ss, s.stop.offset ≤ d.position.offset) : Row text c d' (ss ++ [t]) where
  proceeds := row.proceeds.trans next.proceeds
  lays := (row.lays.mono fun _ lost => lost.mono next.proceeds.problems).trans next.lays
  tokenEnd := next.tokenEnd
  reaches := Nat.le_trans row.proceeds.offset_le next.reaches
  starts s member := by
    rcases List.mem_append.mp member with member | member
    · exact row.starts s member
    · exact Nat.le_trans row.proceeds.offset_le (next.starts s member)
  apart := by
    refine List.pairwise_append.mpr ⟨row.apart, next.apart, fun s member t member' => ?_⟩
    exact Nat.le_trans (behind s member) (next.starts t member')

/-- What fails behind expressions leaves them as they are. -/
theorem Row.missed (row : Row text c d ss) (standing : Standing text c) (missed : Missed d d')
    (proceeds : Proceeds d d') (settled : d.tokenEnd.offset ≤ d.position.offset) :
    Row text c d' ss ∧ d.tokenEnd.offset ≤ d'.tokenEnd.offset := by
  have later : d'.tokenEnd.On text ∧ d.tokenEnd.offset ≤ d'.tokenEnd.offset := by
    rcases missed.tokenEnd with same | signs
    · rw [same]
      exact ⟨row.tokenEnd, Nat.le_refl _⟩
    · exact ⟨signs.on (row.proceeds.on standing.place), Nat.le_trans settled (Nat.le_of_lt signs.lt)⟩
  exact ⟨row.onward proceeds missed.builder later.1 later.2, later.2⟩

/-- Another operand is read only where no signs are overrun. -/
theorem Chain.next {depth : Nat} (chain : Chain text c d ss) (found : Placed text d d' s)
    (ran : unary (expression depth) d = .ok (true, d')) : Chain text c d' (ss ++ [s]) := by
  have behind : ∀ t ∈ ss, t.stop.offset ≤ d.position.offset := by
    intro t member
    refine Nat.le_trans ((chain.stops t member).resolve_right fun overrun => ?_) chain.settled
    exact Bool.false_ne_true (overrun.again ran).1.symm
  refine ⟨chain.toRow.append found.toRow behind, by simp, found.settled, fun t member => ?_⟩
  rcases List.mem_append.mp member with member | member
  · exact .inl (Nat.le_trans (behind t member) found.reaches)
  · rw [List.mem_singleton.mp member]
    exact found.stops.imp_right And.left

/-- The operands end where the last sign does that has been seen. -/
theorem Chain.last {depth : Nat} (chain : Chain text c d ss) (standing : Standing text c)
    (ran : unary (expression depth) d = .ok (false, d')) : Series text c d' ss := by
  have determined := determined_expression depth depth
  have missed := missed_unary determined (missed_expression depth) d false d' ran rfl
  have proceeds := (determined_unary determined).proceeds ran
  obtain ⟨row, later⟩ := chain.toRow.missed standing missed proceeds chain.settled
  refine ⟨row, chain.nonempty, overrun_of_missed chain.settled ran, fun s member => ?_⟩
  rcases chain.stops s member with inside | overrun
  · exact Nat.le_trans inside later
  · rw [(overrun.again ran).2]

/-- The expressions become one. -/
theorem Series.joined {made : Builder.Step} {make : List Nat → Expr} (standing : Standing text c)
    (series : Series text { c with builder := c.builder.mark } d ss)
    (combines : ∀ {b b' : Builder}, b.apply made = .ok b' → b.combine make = .ok b')
    (balances : ∀ b : Builder, made.balances b = true) (parts : ∀ children, (make children).children = children) :
    Leads (do build made; locate c.position (← tokenEnd); build .release; return true) d
      fun found d => if found then Whole text c d else Rests d := by
  obtain ⟨owner, current⟩ := standing.current
  refine leads_build fun b₁ applied => ?_
  rw [leads_tokenEnd]
  refine leads_locate fun b₂ b₃ started stopped => leads_build fun b₄ released => (leads_pure _).mpr ?_
  have places : d.builder.Places made ⟨c.position, d.tokenEnd⟩ b₃ := ⟨b₁, b₂, applied, started, stopped⟩
  have lays := series.lays.combine current series.nonempty places combines (balances _) parts
    (on_position standing.place) series.tokenEnd series.reaches
    (fun s member => ⟨series.starts s member, series.stops s member⟩) series.apart
  refine ⟨⟨?_, lays.release released, series.tokenEnd, series.reaches, ?_, List.pairwise_singleton ..⟩, series.rests⟩
  · exact ⟨series.proceeds.marks, series.proceeds.problems, series.proceeds.taken⟩
  · intro s member
    rw [List.mem_singleton.mp member]

theorem Standing.marked (standing : Standing text c) : Standing text { c with builder := c.builder.mark } :=
  { standing with sound := standing.current.elim fun _ current => standing.sound.mark current }

section

variable {depth : Nat} (inner : Framed text (expression depth))

include inner

theorem framed_sequence : Framed text (sequence (expression depth)) := by
  intro c standing
  refine leads_here.mpr ?_
  refine leads_build fun builder marked => ?_
  cases marked
  rw [leads_steps]
  let c₀ : Cursor := { c with builder := c.builder.mark }
  have standing₀ : Standing text c₀ := standing.marked
  refine (leads_countWhile (I := fun count d => count = 0 ∧ d = c₀ ∨ 0 < count ∧ ∃ ss, Chain text c₀ d ss)
    (D := fun count d => count = 0 ∧ Rests d ∨ 0 < count ∧ ∃ ss, Series text c₀ d ss) ?_ _ (.inl ⟨rfl, rfl⟩)).bind ?_
  · intro count d before more d' ran
    rcases before with ⟨rfl, rfl⟩ | ⟨some, ss, chain⟩
    · have holds := standing₀.unary inner more d' ran
      cases more with
      | false => exact .inl ⟨rfl, overrun_of_missed standing₀.tokenEnd ran⟩
      | true =>
        obtain ⟨s, found⟩ := holds rfl
        refine .inr ⟨Nat.one_pos, [s], ⟨found.toRow, by simp, found.settled, fun t member => ?_⟩⟩
        rw [List.mem_singleton.mp member]
        exact found.stops.imp_right And.left
    · have holds := (chain.toRow.standing standing₀ chain.settled).unary inner more d' ran
      cases more with
      | false => exact .inr ⟨some, ss, chain.last standing₀ ran⟩
      | true =>
        obtain ⟨s, found⟩ := holds rfl
        exact .inr ⟨Nat.succ_pos count, _, chain.next found ran⟩
  · rintro count d (⟨rfl, rests⟩ | ⟨some, ss, series⟩)
    · rw [if_pos rfl]
      exact leads_build fun builder _ => (leads_pure _).mpr rests
    · rw [if_neg (Nat.ne_of_gt some)]
      exact series.joined standing id (fun _ => rfl) fun _ => rfl

theorem Series.alternative (series : Series text c d ss) (standing : Standing text c) :
    Leads (alternative (expression depth)) d fun _ d' => ∃ ss, Series text c d' ss := by
  have read (settled : d.tokenEnd.offset ≤ d.position.offset) : Leads (do
      spacing
      if ← sequence (expression depth) then return true
      let place ← here
      report .syntaxError place place "expecting an alternative after `/`"
      return false) (d.forward 1) fun _ d' => ∃ ss, Series text c d' ss := by
    have first := Proceeds.forward d 1
    have standing₁ := series.toRow.standing standing settled
    refine (leads_spaced _).bind fun _ d₁ skipped => ?_
    have standing₂ := standing₁.spaced first rfl skipped
    have proceeds := first.trans skipped.proceeds.from
    have later : d.tokenEnd.offset ≤ d₁.tokenEnd.offset := by
      rw [skipped.tokenEnd]
      exact Nat.le_trans settled first.offset_le
    have determined := determined_expression depth depth
    refine (leads_ran (sequence (expression depth)) d₁).bind fun found d₂ ran => ?_
    have holds := framed_sequence inner d₁ standing₂ found d₂ ran
    cases found with
    | true =>
      have whole : Whole text d₁ d₂ := holds
      have next := whole.toRow.before proceeds skipped.builder
      have behind : ∀ s ∈ ss, s.stop.offset ≤ d.position.offset :=
        fun s member => Nat.le_trans (series.stops s member) settled
      refine (leads_pure _).mpr ⟨_, series.toRow.append next behind, by simp, whole.rests, fun s member => ?_⟩
      rcases List.mem_append.mp member with member | member
      · exact Nat.le_trans (behind s member) next.reaches
      · rw [List.mem_singleton.mp member]
    | false =>
      have missed := missed_sequence determined (missed_expression depth) d₁ false d₂ ran rfl
      have token : d₁.tokenEnd.On text := by
        rw [skipped.tokenEnd]
        exact on_position (first.on standing₁.place)
      have row := series.toRow.onward proceeds skipped.builder token later
      have proceeds' := (determined_sequence determined).proceeds ran
      obtain ⟨row, later'⟩ := row.missed standing missed proceeds' standing₂.tokenEnd
      rw [if_neg Bool.false_ne_true, leads_here, leads_report, leads_pure]
      refine ⟨ss, row.onward (.reported d₂ _) rfl row.tokenEnd (Nat.le_refl _), series.nonempty, holds,
        fun s member => ?_⟩
      exact Nat.le_trans (series.stops s member) (Nat.le_trans later later')
  rw [Read.alternative]
  refine leads_eat (fun ahead => ?_) fun _ => leads_eat (fun ahead => ?_) fun _ => ?_
  · exact read (series.rests.settled ahead rfl (by decide))
  · exact read (series.rests.settled ahead rfl (by decide))
  · exact (leads_pure _).mpr ⟨ss, series⟩

theorem framed_expression_succ : Framed text (expression (depth + 1)) := by
  intro c standing
  rw [expression, leads_here]
  refine leads_build fun builder marked => ?_
  cases marked
  refine (framed_sequence inner _ standing.marked).bind fun found d holds => ?_
  cases found with
  | false => exact leads_build fun builder _ => (leads_pure _).mpr holds
  | true =>
    have whole : Whole text { c with builder := c.builder.mark } d := holds
    have first : Series text { c with builder := c.builder.mark } d [⟨c.position, d.tokenEnd⟩] := by
      refine ⟨whole.toRow, by simp, whole.rests, fun s member => ?_⟩
      rw [List.mem_singleton.mp member]
    rw [Bool.not_true, if_neg Bool.false_ne_true, leads_steps]
    refine (leads_countWhile (I := fun _ d => ∃ ss, Series text { c with builder := c.builder.mark } d ss)
      (D := fun _ d => ∃ ss, Series text { c with builder := c.builder.mark } d ss) ?_ _ ⟨_, first⟩).bind ?_
    · rintro count d ⟨ss, series⟩
      refine (series.alternative inner standing.marked).mono fun more d' series => ?_
      cases more <;> exact series
    · rintro count d ⟨ss, series⟩
      exact series.joined standing id (fun _ => rfl) fun _ => rfl

end

theorem framed_expression (text : List Char) (depth : Nat) : Framed text (expression depth) := by
  induction depth with
  | zero => exact fun c _ => leads_throw _
  | succ depth ih => exact framed_expression_succ ih

end Sequences

end Read

end Packrat
