import Packrat.Proofs.Reader.Derived
import Packrat.Proofs.Reader.Determined
import Packrat.Proofs.Reader.Leads
import Packrat.Proofs.Reader.Totality

/-! # Signs without an operand

A reader of operands reads signs before it looks for an operand. Where it finds none, it goes back to the place before
the signs, but it has seen the tokens that the signs are: the last token it knows of ends behind its place. `Overrun`
says so of a place. There the text goes on with a sign, so nothing but a sign can be read at the place; whoever tries
again fails again and sees the same token end; and the text up to the end of that token is passed over where a
production ends.
-/

namespace Packrat

/-- Going back to a mark that has just been set changes nothing. -/
theorem Builder.eq_of_reset_mark {b b' : Builder} (discarded : b.mark.apply .reset = .ok b') : b' = b := by
  rw [apply, reset] at discarded
  split at discarded
  · cases discarded
  · have stack : b.mark.stack.reset? = some b.stack := by simp [mark, Segments.reset?, Segments.mark]
    rw [stack] at discarded
    cases discarded
    simp [mark]

namespace Read

variable {c d : Cursor} {p : Place} {stop : Position}

/-- Blanks that are skipped, with the place behind them. -/
structure Skipped (c d : Cursor) : Prop where
  proceeds : Proceeds c d
  tokenEnd : d.tokenEnd = c.tokenEnd
  builder : d.builder = c.builder

/-- Reporting an open comment makes no other difference. -/
theorem leads_skipSpacing (reporting : Bool) (c : Cursor) :
    Leads (skipSpacing reporting) c fun _ d => Skipped c d := by
  intro u d ran
  have after := (total_skipSpacing reporting c).leads u d ran
  obtain ⟨_, d', ran', ⟨count, rfl⟩⟩ := total_skipSpacing false c
  obtain ⟨-, meets⟩ := determined_skipSpacing reporting false rfl ran ran'
  refine ⟨meets.proceeds, ?_, after.onward.builder⟩
  rcases meets.tokenEnd with same | ⟨same, -⟩
  · exact same.symm
  · exact same

/-- Behind a token its end is known, and blanks are skipped. -/
theorem leads_spaced (c : Cursor) : Leads spacing c fun _ d => Skipped { c with tokenEnd := c.position } d :=
  leads_skipSpacing true { c with tokenEnd := c.position }

/-- The characters that are read before it is known whether an operand follows. -/
def openings : List Char := ['!', '&', '(']

theorem openings_subset {sign : Char} (known : sign ∈ openings) : sign ∈ signs :=
  @forall_of_all (· ∈ signs) _ openings (by decide) sign known

/-- From the place on there are signs with blanks between them, and the last one of them ends at the position. -/
inductive Signs : Place → Position → Prop
  | last {p : Place} {sign : Char} {rest : List Char} (ahead : p.rest = sign :: rest) (known : sign ∈ openings) :
    Signs p (p.position.next sign)
  | more {c d : Cursor} {sign : Char} {rest : List Char} {stop : Position} (ahead : c.rest = sign :: rest)
    (known : sign ∈ openings) (blanks : skipSpacing true (c.forward 1) = .ok ((), d)) (others : Signs d.toPlace stop) :
    Signs c.toPlace stop

theorem Signs.head (found : Signs p stop) : ∃ sign rest, p.rest = sign :: rest ∧ sign ∈ openings := by
  cases found with
  | last ahead known => exact ⟨_, _, ahead, known⟩
  | more ahead known => exact ⟨_, _, ahead, known⟩

theorem Signs.lt (found : Signs p stop) : p.position.offset < stop.offset := by
  induction found with
  | last => simp
  | @more c d _ _ _ ahead _ blanks _ ih =>
    have first : (c.forward 1).position.offset = c.position.offset + 1 := by
      simp [Cursor.forward, ahead]
    have behind := (leads_skipSpacing true _ _ _ blanks).proceeds.offset_le
    omega

/-- No other text can be read where there are signs. -/
theorem Signs.not_prefix (found : Signs p stop) {text : String} {first : Char} (opens : text.toList.head? = some first)
    (other : first ∉ openings) : ¬ text.toList <+: p.rest := by
  obtain ⟨sign, rest, ahead, known⟩ := found.head
  obtain ⟨more, same⟩ := List.head?_eq_some_iff.mp opens
  rw [ahead, same, List.cons_prefix_cons]
  rintro ⟨rfl, -⟩
  exact other known

/-- The builder is as it was, and no tokens but signs have been seen. -/
structure Sought (c d : Cursor) : Prop where
  builder : d.builder = c.builder
  tokenEnd : d.tokenEnd = c.tokenEnd ∨ Signs c.toPlace d.tokenEnd

/-- The reader has found nothing: all it has left is the end of the last sign that it has seen. -/
structure Missed (c d : Cursor) : Prop extends Sought c d where
  place : d.toPlace = c.toPlace
  marks : d.marks = c.marks

theorem Missed.refl (c : Cursor) : Missed c c := ⟨⟨rfl, .inl rfl⟩, rfl, rfl⟩

/-- What fails behind a sign has seen this sign at least. -/
theorem Missed.behind {c₁ : Cursor} {sign : Char} {rest : List Char} (missed : Missed c₁ d)
    (ahead : c.rest = sign :: rest) (known : sign ∈ openings) (ran : spacing (c.forward 1) = .ok ((), c₁)) :
    Sought c d := by
  have blanks := leads_spaced _ _ _ ran
  refine ⟨missed.builder.trans blanks.builder, .inr ?_⟩
  have first : (c.forward 1).position = c.position.next sign := by simp [Cursor.forward, ahead]
  rcases missed.tokenEnd with same | others
  · rw [same, blanks.tokenEnd]
    change Signs c.toPlace (c.forward 1).position
    rw [first]
    exact .last ahead known
  · exact @Signs.more { c with tokenEnd := (c.forward 1).position } c₁ sign rest _ ahead known ran others

variable {α : Type} {step : Read α}

/-- An attempt that fails goes back to its place. -/
theorem missed_attempt {succeeds : α → Bool} (determined : Determined step step)
    (leads : Leads step { c with marks := c.toPlace :: c.marks } fun a d =>
      succeeds a = false → Sought { c with marks := c.toPlace :: c.marks } d) :
    Leads (attempt succeeds step) c fun a d => succeeds a = false → Missed c d := by
  refine (Leads.attempt fun a d ran => ⟨(determined.proceeds ran).marks, leads a d ran⟩).mono ?_
  rintro a _ ⟨tried, holds, rfl⟩ failed
  rw [failed, if_neg Bool.false_ne_true]
  exact ⟨⟨(holds failed).builder, (holds failed).tokenEnd⟩, rfl, rfl⟩

/-- The step never fails. -/
def Succeeds (step : Read Bool) : Prop := ∀ c, Leads step c fun found _ => found = true

theorem succeeds_pure : Succeeds (pure true) := fun _ => (leads_pure true).mpr rfl

theorem succeeds_bind {first : Read α} {next : α → Read Bool} (rest : ∀ a, Succeeds (next a)) :
    Succeeds (first >>= next) := fun c => (leads_ran first c).bind fun a d _ => rest a d

theorem Succeeds.missed {step : Read Bool} {Q : Cursor → Prop} (succeeds : Succeeds step) :
    Leads step c fun found d => found = false → Q d :=
  (succeeds c).mono fun _ _ found failed => absurd (found.symm.trans failed) (by decide)

theorem missed_charClass : Leads charClass c fun found d => found = false → Missed c d := by
  refine leads_here.mpr ?_
  refine (ends_className c).leads.bind fun found c' ⟨_, holds⟩ => ?_
  cases found with
  | none =>
    obtain rfl : c' = c := holds
    exact (leads_pure _).mpr fun _ => .refl c'
  | some name => exact (succeeds_bind fun _ => succeeds_pure).missed

theorem missed_reference : Leads reference c fun found d => found = false → Missed c d := by
  refine (ends_atProductionHead c).leads.bind fun head c' ⟨same, _⟩ => ?_
  subst same
  cases head with
  | true => exact (leads_pure _).mpr fun _ => .refl c'
  | false =>
    rw [if_neg Bool.false_ne_true, leads_here]
    refine (ends_referenceName c').leads.bind fun found c'' ⟨_, holds⟩ => ?_
    cases found with
    | none =>
      obtain rfl : c'' = c' := holds
      exact (leads_pure _).mpr fun _ => .refl c''
    | some name => exact (succeeds_bind fun _ => succeeds_pure).missed

theorem leads_lookaheadSign (c : Cursor) : Leads lookaheadSign c fun sign d => sign = none ∧ d = c ∨
    ∃ first rest, c.rest = first :: rest ∧ first ∈ openings ∧ spacing (c.forward 1) = .ok ((), d) := by
  have ahead {text : String} {first : Char} (single : text.toList = [first]) (found : text.toList <+: c.rest) :
      ∃ rest, c.rest = first :: rest := by
    obtain ⟨rest, same⟩ := found
    exact ⟨rest, by rw [← same, single]; rfl⟩
  rw [lookaheadSign]
  refine leads_eat (fun found => ?_) fun _ => leads_eat (fun found => ?_) fun _ => (leads_pure _).mpr (.inl ⟨rfl, rfl⟩)
  · obtain ⟨rest, ahead⟩ := ahead rfl found
    refine (leads_ran spacing _).bind fun _ d ran => (leads_pure _).mpr (.inr ⟨_, rest, ahead, ?_, ran⟩)
    decide
  · obtain ⟨rest, ahead⟩ := ahead rfl found
    refine (leads_ran spacing _).bind fun _ d ran => (leads_pure _).mpr (.inr ⟨_, rest, ahead, ?_, ran⟩)
    decide

section

variable {expression : Read Bool}

theorem missed_action : Leads (action expression) c fun found d => found = false → Missed c d := by
  refine leads_here.mpr ?_
  refine (ends_actionHead c).leads.bind fun found c' ⟨_, holds⟩ => ?_
  cases found with
  | none =>
    obtain rfl : c' = c := holds
    exact (leads_pure _).mpr fun _ => .refl c'
  | some name =>
    refine Succeeds.missed ?_
    iterate 9 refine succeeds_bind fun _ => ?_
    exact succeeds_pure

variable (same : Determined expression expression)
  (inner : ∀ c, Leads expression c fun found d => found = false → Missed c d)

include same inner

theorem missed_grouping {rest : List Char} (ahead : c.rest = '(' :: rest) :
    Leads (grouping expression) c fun found d => found = false → Missed c d := by
  have opened : Determined (do skip 1; spacing; expression) (do skip 1; spacing; expression) :=
    (determined_skip 1).bind fun _ => determined_spacing.bind fun _ => same
  refine (missed_attempt opened ?_).bind fun found d holds => ?_
  · rw [leads_skip]
    refine (leads_ran spacing _).bind fun _ c₁ ran => (inner c₁).mono fun found d missed failed => ?_
    exact (missed failed).behind ahead (by decide) ran
  · cases found with
    | true => exact (succeeds_bind fun _ => succeeds_bind fun _ => succeeds_pure).missed
    | false => exact (leads_pure _).mpr fun _ => holds rfl

theorem missed_operand : Leads (operand expression) c fun found d => found = false → Missed c d := by
  refine leads_here.mpr (leads_peek.mpr ?_)
  cases ahead : c.rest with
  | nil => exact (leads_pure _).mpr fun _ => .refl c
  | cons first rest =>
    rw [List.head?_cons]
    split
    · exact (succeeds_bind fun _ => succeeds_pure).missed
    · exact (succeeds_bind fun _ => succeeds_pure).missed
    · exact (succeeds_bind fun _ => succeeds_bind fun _ => succeeds_pure).missed
    · exact missed_charClass
    · exact (succeeds_bind fun _ => succeeds_bind fun _ => succeeds_pure).missed
    · next opening =>
      cases opening
      exact missed_grouping same inner ahead
    · exact missed_action
    · exact missed_reference
    · split
      · exact missed_reference
      · exact (leads_pure _).mpr fun _ => .refl c
    · exact (leads_pure _).mpr fun _ => .refl c

theorem missed_signedOperand :
    Leads (signedOperand expression) c fun found d => found.isSome = false → Missed c d := by
  refine missed_attempt (determined_lookaheadSign.bind fun sign => (determined_operand same).bind fun found => ?_) ?_
  · cases found <;> exact determined_pure _
  · refine (leads_lookaheadSign _).bind fun sign c₁ read => (missed_operand same inner).bind fun found d missed => ?_
    cases found with
    | true => exact (leads_pure _).mpr nofun
    | false =>
      rw [if_neg Bool.false_ne_true, leads_pure]
      rcases read with ⟨-, rfl⟩ | ⟨first, rest, ahead, known, ran⟩
      · exact fun _ => (missed rfl).toSought
      · exact fun _ => (missed rfl).behind ahead known ran

theorem missed_unary (c : Cursor) : Leads (unary expression) c fun found d => found = false → Missed c d := by
  refine leads_here.mpr ?_
  refine (missed_signedOperand same inner).bind fun found c₁ missed => ?_
  rcases found with _ | _ | sign
  · exact (leads_pure _).mpr fun _ => missed rfl
  · exact (succeeds_bind fun _ => succeeds_pure).missed
  · refine Succeeds.missed ?_
    iterate 4 refine succeeds_bind fun _ => ?_
    exact succeeds_pure

theorem missed_sequence (c : Cursor) : Leads (sequence expression) c fun found d => found = false → Missed c d := by
  refine leads_here.mpr ?_
  refine leads_build fun builder marked => ?_
  cases marked
  rw [leads_steps]
  refine (leads_countWhile (I := fun count d => count = 0 → d = { c with builder := c.builder.mark })
    (D := fun count d => count = 0 → Missed { c with builder := c.builder.mark } d) ?_ _ fun _ => rfl).bind ?_
  · intro count c' first
    refine (missed_unary same inner c').mono fun more d missed => ?_
    cases more with
    | true => exact fun none => absurd none (Nat.succ_ne_zero count)
    | false => exact fun none => first none ▸ missed rfl
  · intro count d missed
    split
    · next none =>
      have missed := missed none
      refine leads_build fun builder discarded => (leads_pure _).mpr fun _ => ?_
      rw [missed.builder] at discarded
      have regained := Builder.eq_of_reset_mark discarded
      exact ⟨⟨regained, missed.tokenEnd⟩, missed.place, missed.marks⟩
    · refine Succeeds.missed ?_
      iterate 4 refine succeeds_bind fun _ => ?_
      exact succeeds_pure

end

theorem missed_expression (depth : Nat) (c : Cursor) :
    Leads (expression depth) c fun found d => found = false → Missed c d := by
  induction depth generalizing c with
  | zero => exact leads_throw _
  | succ depth ih =>
    rw [expression, leads_here]
    refine leads_build fun builder marked => ?_
    cases marked
    refine (missed_sequence (determined_expression depth depth) ih _).bind fun found d missed => ?_
    cases found with
    | true =>
      refine Succeeds.missed ?_
      iterate 6 refine succeeds_bind fun _ => ?_
      exact succeeds_pure
    | false =>
      have missed := missed rfl
      refine leads_build fun builder discarded => (leads_pure _).mpr fun _ => ?_
      rw [missed.builder] at discarded
      exact ⟨⟨Builder.eq_of_reset_mark discarded, missed.tokenEnd⟩, missed.place, missed.marks⟩

/-- Signs without an operand follow the place. Reading them has failed and seen the last of them end at `stop`. -/
def Overrun (p : Place) (stop : Position) : Prop := p.position.offset < stop.offset ∧ ∃ depth c d, c.toPlace = p ∧
  c.tokenEnd.offset ≤ p.position.offset ∧ unary (expression depth) c = .ok (false, d) ∧ d.tokenEnd = stop

theorem Overrun.signs (overrun : Overrun p stop) : Signs p stop := by
  obtain ⟨behind, depth, c, d, rfl, before, ran, rfl⟩ := overrun
  have missed := missed_unary (determined_expression depth depth) (missed_expression depth) c _ _ ran rfl
  rcases missed.tokenEnd with same | signs
  · rw [same] at behind
    omega
  · exact signs

/-- Every other attempt to read the signs fails too, and sees the same token end. -/
theorem Overrun.again {found : Bool} {depth : Nat} (overrun : Overrun c.toPlace stop)
    (ran : unary (expression depth) c = .ok (found, d)) :
    found = false ∧ d.tokenEnd = stop := by
  obtain ⟨behind, depth', c', d', same, before', ran', rfl⟩ := overrun
  obtain ⟨rfl, meets⟩ := determined_unary (determined_expression depth' depth) same.symm ran' ran
  refine ⟨rfl, meets.tokenEnd.resolve_right ?_⟩
  rintro ⟨still, -⟩
  rw [still] at behind
  omega

/-- A failure sees a token end behind its place only where signs are overrun. -/
theorem overrun_of_missed {depth : Nat} (before : c.tokenEnd.offset ≤ c.position.offset)
    (ran : unary (expression depth) c = .ok (false, d)) :
    d.tokenEnd.offset ≤ d.position.offset ∨ Overrun d.toPlace d.tokenEnd := by
  have missed := missed_unary (determined_expression depth depth) (missed_expression depth) c _ _ ran rfl
  rw [missed.place]
  by_cases behind : d.tokenEnd.offset ≤ c.position.offset
  · exact .inl behind
  · exact .inr ⟨by omega, depth, c, d, rfl, before, ran, rfl⟩

/-- No blank begins with a sign. -/
theorem Signs.leads_skipSpacing (found : Signs c.toPlace stop) (reporting : Bool) :
    Leads (skipSpacing reporting) c fun _ d => d.toPlace = c.toPlace := by
  obtain ⟨sign, rest, ahead, known⟩ := found.head
  have ahead : c.rest = sign :: rest := ahead
  have apart (second : Char) : ¬ ['/', second].isPrefixOf c.rest = true := by
    rw [ahead, List.isPrefixOf_iff_prefix, List.cons_prefix_cons]
    rintro ⟨rfl, -⟩
    exact absurd known (by decide)
  have solid : isBlank sign = false := isBlank_of_sign sign (openings_subset known)
  have last : Leads (skipBlank reporting) c fun more d => more = false ∧ d = c := by
    rw [skipBlank_eq, leads_get, if_neg (apart '/'), if_neg (apart '*'), ahead, List.head?_cons, Option.any_some, solid,
      if_neg Bool.false_ne_true, leads_pure]
    exact ⟨rfl, rfl⟩
  rw [skipSpacing, leads_steps]
  refine (leads_countWhile (I := fun _ d => d = c) (D := fun _ d => d = c) ?_ _ rfl).bind fun _ d same => ?_
  · rintro count _ rfl
    refine last.mono ?_
    rintro _ _ ⟨rfl, rfl⟩
    rfl
  · exact (leads_pure ()).mpr (congrArg Cursor.toPlace same)

/-- A sign is no end of a production, and no beginning of the next one. -/
theorem Signs.moreItems_ran (found : Signs c.toPlace stop) :
    inGarbage c = .ok (true, c) ∧ moreItems c = .ok (true, c) := by
  obtain ⟨sign, rest, ahead, known⟩ := found.head
  have ahead : c.rest = sign :: rest := ahead
  obtain ⟨head, ran, start⟩ := atProductionHead_ran c
  have unnamed : head = false := by
    cases head with
    | false => rfl
    | true =>
      obtain ⟨_, _, ahead', named⟩ := start rfl
      cases ahead.symm.trans ahead'
      cases (not_nameStart_sign (openings_subset known)).symm.trans named
  have garbage := inGarbage_ran ran
  rw [ahead, unnamed] at garbage
  refine ⟨garbage, ?_⟩
  have other : (some sign == some ';') = false := by
    have apart : sign ≠ ';' := by
      rintro rfl
      exact absurd known (by decide)
    simpa using apart
  refine bind_eq_ok.mpr ⟨some sign, c, ?_, ?_⟩
  · rw [← List.head?_cons, ← ahead]
    rfl
  · rw [other, if_neg Bool.false_ne_true]
    exact garbage

/-- A sign is passed over alone. -/
theorem skipItem_ran {sign : Char} {rest : List Char} (ahead : c.rest = sign :: rest) (known : sign ∈ openings) :
    skipItem c = .ok ((), c.forward 1) := by
  have other : ¬ (sign = '\'' ∨ sign = '"') := by
    rintro (rfl | rfl) <;> exact absurd known (by decide)
  have ends : Ends skipItem c fun _ d => d = c.forward 1 := by
    rw [skipItem, ends_get, ahead]
    dsimp only
    rw [if_neg other, ends_skip_last]
  obtain ⟨_, _, ran, rfl⟩ := ends
  exact ran

theorem Signs.leads_skipItems (found : Signs p stop) (same : c.toPlace = p) (limit : Nat) (last : Position) :
    Leads (skipItems moreItems false limit last) c fun _ d => stop.offset ≤ d.position.offset := by
  induction found generalizing c limit last with
  | @last p sign rest ahead known =>
    subst same
    cases limit with
    | zero => exact leads_throw _
    | succ limit =>
      have further := determined_skipItems determined_moreItems false limit limit
      refine leads_behind (Signs.moreItems_ran (.last ahead known)).2 (leads_behind (skipItem_ran ahead known) ?_)
      rw [leads_here]
      intro stop d ran
      have reached := ((determined_skipSpacing false false).bind fun _ => further _).proceeds ran |>.offset_le
      have first : (c.forward 1).position = c.position.next sign := by simp [Cursor.forward, ahead]
      rwa [first] at reached
  | @more c' d' sign rest stop ahead known blanks others ih =>
    cases limit with
    | zero => exact leads_throw _
    | succ limit =>
      have found : Signs c.toPlace stop := same ▸ .more ahead known blanks others
      have ahead : c.rest = sign :: rest := (congrArg Place.rest same).trans ahead
      refine leads_behind found.moreItems_ran.2 (leads_behind (skipItem_ran ahead known) ?_)
      rw [leads_here]
      -- The blanks behind the sign are those that the reader of the sign has skipped.
      refine (leads_ran (skipSpacing false) _).bind fun _ d ran => ?_
      refine ih ?_ limit _
      refine (determined_skipSpacing true false ?_ blanks ran).2.place
      simp only [Cursor.forward, same]

/-- Where a production ends, the signs before its end are passed over. -/
theorem Signs.leads_terminate (found : Signs c.toPlace stop) :
    Leads terminate c fun _ d => stop.offset ≤ d.position.offset := by
  refine leads_eat (fun closed => absurd closed (found.not_prefix rfl (by decide))) fun _ => ?_
  dsimp only
  rw [if_neg Bool.false_ne_true]
  refine leads_behind found.moreItems_ran.1 ?_
  rw [if_pos rfl, leads_here, leads_steps]
  refine (found.leads_skipItems rfl _ _).bind fun last d reached => ?_
  exact fun u d' ran => Nat.le_trans reached ((determined_repaired _ _).proceeds ran).offset_le

end Read

end Packrat
