import Packrat.Proofs.Builder.Phrases
import Packrat.Proofs.Reader.Literal

/-! # Reading expressions

Inside a production every reader of expressions ends, whatever the text is: the builder accepts all that it is
asked for. A reader that finds an expression has read something and pushed one phrase, and one that finds none has
left the builder's stack alone. What is pushed can be written as text again.
-/

namespace Packrat

/-- The terminal has a text of its own, as those that are read have. -/
def Terminal.Writable : Terminal → Prop
  | .interval bounds => bounds.Ordered
  | .set members => members.Normal
  | .charClass k => Read.IsName k.name ∧ CharClass.named k.name = k
  | _ => True

inductive Phrase.Writable : Phrase → Prop
  | terminal {t : Terminal} (writable : t.Writable) : Writable (.terminal t)
  | reference {name : String} {memo : Bool} (named : Read.IsName name) : Writable (.reference name memo)
  | action {name : String} {body : Phrase} (named : Read.IsName name) (inner : Writable body) :
      Writable (.action name body)
  | sequence {items : List Phrase} (several : 2 ≤ items.length) (each : ∀ item ∈ items, Writable item) :
      Writable (.sequence items)
  | choice {items : List Phrase} (several : 2 ≤ items.length) (each : ∀ item ∈ items, Writable item) :
      Writable (.choice items)
  | repetition {min max : Nat} {body : Phrase} (ordered : min ≤ max) (positive : 0 < max) (bounded : max ≤ unbounded)
      (inner : Writable body) : Writable (.repetition min max body)
  | lookahead {sign : Lookahead} {body : Phrase} (inner : Writable body) : Writable (.lookahead sign body)

/-- Several phrases that can be written can be written together. -/
theorem Phrase.writable_joined {make : List Phrase → Phrase} {ps : List Phrase} (nonempty : ps ≠ [])
    (each : ∀ p ∈ ps, p.Writable) (made : 2 ≤ ps.length → (make ps).Writable) :
    (Builder.joined make ps).Writable := by
  rcases ps with _ | ⟨p, _ | ⟨q, rest⟩⟩
  · exact absurd rfl nonempty
  · exact each p (List.mem_singleton_self _)
  · exact made (Nat.le_add_left ..)

theorem CharClass.writable_named {name : String} (named : Read.IsName name) :
    (Terminal.charClass (.named name)).Writable := by
  have known : (CharClass.named name).isUndefined = false ∨ CharClass.named name = .undefined name := by
    unfold CharClass.named
    split <;> simp [isUndefined]
  rcases known with known | same
  · refine ⟨?_, named_name known⟩
    generalize CharClass.named name = k at known
    cases k with
    | undefined => cases known
    | _ => decide +kernel
  · rw [same]
    exact ⟨named, same⟩

namespace Read

variable {α : Type} {c c' c'' : Cursor} {p : Phrase} {ps qs : List Phrase}

section Pushing

/-- `c'` is `c` after reading on, with the phrases pushed. -/
structure Grows (c c' : Cursor) (ps : List Phrase) : Prop where
  marks : c'.marks = c.marks
  balanced : c'.builder.Balanced
  ext : c.builder.Extends c'.builder ps
  writable : ∀ p ∈ ps, p.Writable

theorem Grows.refl (opened : c.builder.Open) : Grows c c [] :=
  ⟨rfl, opened.balanced, .refl _, nofun⟩

theorem Grows.onward (grows : Grows c c' ps) (onward : Onward c' c'') : Grows c c'' ps where
  marks := onward.marks.trans grows.marks
  balanced := onward.builder ▸ grows.balanced
  ext := onward.builder ▸ grows.ext
  writable := grows.writable

theorem Grows.trans (first : Grows c c' ps) (second : Grows c' c'' qs) : Grows c c'' (ps ++ qs) where
  marks := second.marks.trans first.marks
  balanced := second.balanced
  ext := first.ext.trans second.ext
  writable p member := (List.mem_append.mp member).elim (first.writable p) (second.writable p)

theorem Grows.opened (grows : Grows c c' ps) (opened : c.builder.Open) : c'.builder.Open :=
  ⟨grows.balanced, grows.ext.current_eq opened⟩

theorem ends_build {step : Builder.Step} {builder : Builder} {next : Unit → Read α} {Q : α → Cursor → Prop}
    (applied : c.builder.apply step = .ok builder) :
    Ends (build step >>= next) c Q ↔ Ends (next ()) { c with builder } Q := by
  rw [build, bind_assoc, ends_get, applied]
  exact Iff.rfl

/-- An operation of the builder that is accepted. -/
theorem Grows.build {step : Builder.Step} (grows : Grows c c' ps)
    (accepted : ∃ builder, c'.builder.apply step = .ok builder ∧ c.builder.Extends builder qs)
    (balances : step.balances c'.builder = true) (writable : ∀ q ∈ qs, q.Writable) :
    Ends (Read.build step) c' fun _ c'' => Grows c c'' qs ∧ c''.rest = c'.rest := by
  obtain ⟨builder, applied, ext⟩ := accepted
  rw [ends_last, ends_build applied, ends_pure]
  exact ⟨⟨grows.marks, .step grows.balanced balances applied, ext, writable⟩, rfl⟩

theorem Grows.locate (grows : Grows c c' ps) (opened : c.builder.Open) (start stop : Position) :
    Ends (Read.locate start stop) c' fun _ c'' => Grows c c'' ps ∧ c''.rest = c'.rest := by
  refine (grows.build (grows.ext.setStart opened start) rfl grows.writable).bind fun _ next ⟨grows, same⟩ => ?_
  refine (grows.build (grows.ext.setStop opened stop) rfl grows.writable).mono fun _ last ⟨grows, same'⟩ => ?_
  exact ⟨grows, same'.trans same⟩

/-- An operation with a place for what it pushes, and the blanks behind it. -/
theorem Grows.leaf {step : Builder.Step} (grows : Grows c c' ps) (opened : c.builder.Open)
    (accepted : ∃ builder, c'.builder.apply step = .ok builder ∧ c.builder.Extends builder qs)
    (balances : step.balances c'.builder = true) (writable : ∀ q ∈ qs, q.Writable) (start : Position) :
    Ends (Read.leaf start step) c' fun _ c'' => Grows c c'' qs ∧ c''.rest.length ≤ c'.rest.length := by
  refine (grows.build accepted balances writable).bind fun _ next ⟨grows, same⟩ => ?_
  rw [ends_here]
  refine (grows.locate opened start next.position).bind fun _ next' ⟨grows, same'⟩ => ?_
  refine (total_spacing next').mono fun _ last after => ⟨grows.onward after, ?_⟩
  rw [← same, ← same']
  exact after.onward.rest

end Pushing

section Operands

/-- What a reader of expressions has done: pushed one phrase and read something, or pushed nothing. -/
structure Outcome (found : Bool) (c c' : Cursor) : Prop where
  grows : ∃ ps, Grows c c' ps ∧ ps.length = found.toNat
  rest : c'.rest.length ≤ c.rest.length
  less : found = true → c'.rest.length < c.rest.length

theorem Outcome.found (grows : Grows c c' [p]) (less : c'.rest.length < c.rest.length) : Outcome true c c' :=
  ⟨⟨_, grows, rfl⟩, Nat.le_of_lt less, fun _ => less⟩

theorem Outcome.missed (grows : Grows c c' []) (rest : c'.rest.length ≤ c.rest.length) : Outcome false c c' :=
  ⟨⟨_, grows, rfl⟩, rest, nofun⟩

theorem outcome_refl (opened : c.builder.Open) : Outcome false c c := .missed (.refl opened) (Nat.le_refl _)

/-- Inside a production the reader ends with an outcome, if less than `bound` characters are left. -/
def Reader (bound : Nat) (step : Read Bool) : Prop :=
  ∀ c : Cursor, c.builder.Open → c.rest.length < bound → Ends step c fun found c' => Outcome found c c'

/-- A terminal behind what has been read. -/
theorem ends_leaf_terminal {t : Terminal} (opened : c.builder.Open) (onward : Onward c c')
    (less : c'.rest.length < c.rest.length) (writable : t.Writable) (start : Position) :
    Ends (leaf start (.terminal t)) c' fun _ c'' => Outcome true c c'' := by
  have grows := (Grows.refl opened).onward onward
  refine (grows.leaf opened (grows.ext.terminal opened t) rfl ?_ start).mono fun _ c'' ⟨grows, rest⟩ => ?_
  · intro p member
    rw [List.mem_singleton.mp member]
    exact .terminal writable
  · exact .found grows (Nat.lt_of_le_of_lt rest less)

theorem ends_token (opened : c.builder.Open) (nonempty : c.rest ≠ []) (quote : Char) :
    Ends (token quote) c fun _ c' => Outcome true c c' := by
  have text : Ends (do
      let image ← quotedText quote
      leaf c.position (.terminal (.token (String.ofList image) (quote == '\'')))) c fun _ c' => Outcome true c c' := by
    refine (ends_quotedText quote c).bind fun image c' ⟨onward, less⟩ => ?_
    refine ends_leaf_terminal opened onward (less nonempty) ?_ c.position
    trivial
  rw [token, ends_here]
  by_cases single : quote = '\''
  · rw [if_pos single]
    refine (ends_quietInterval c).bind fun interval c' holds => ?_
    cases interval with
    | none =>
      obtain rfl : c' = c := holds
      exact text
    | some bounds =>
      obtain ⟨⟨count, rfl⟩, less⟩ := holds
      refine ends_leaf_terminal opened (onward_forward c count) less ?_ c.position
      exact Interval.ordered_between bounds.1 bounds.2
  · rw [if_neg single, pure_bind]
    exact text

theorem ends_className (c : Cursor) : Ends className c fun found c' => (∀ name ∈ found, IsName name) ∧
    if found.isSome then (∃ count, c' = c.forward count) ∧ c'.rest.length < c.rest.length else c' = c := by
  refine Tries.attempt (fun c => ?_) c
  rw [ends_skip]
  refine (total_skipSpacing false _).bind fun _ c₁ blank => ?_
  refine (tries_identifier c₁).bind fun found c₂ ⟨after, named, less⟩ => ?_
  refine (total_skipSpacing false c₂).bind fun _ c₃ blank' => ?_
  have before := (After.forward false c 1).trans blank
  have behind := after.trans blank'
  cases found with
  | none =>
    rw [ends_pure]
    exact ⟨before.trans behind, nofun, nofun⟩
  | some name =>
    have less : c₃.rest.length < c.rest.length :=
      Nat.lt_of_le_of_lt blank'.onward.rest (Nat.lt_of_lt_of_le (less rfl) before.onward.rest)
    rw [ends_eat]
    split
    · rw [if_pos rfl, ends_pure]
      have closed := After.forward false c₃ ">".length
      exact ⟨before.trans (behind.trans closed), named, fun _ => Nat.lt_of_le_of_lt closed.onward.rest less⟩
    · rw [if_neg Bool.false_ne_true, ends_pure]
      exact ⟨before.trans behind, nofun, nofun⟩

theorem ends_charClass (opened : c.builder.Open) : Ends charClass c fun found c' => Outcome found c c' := by
  rw [charClass, ends_here]
  refine (ends_className c).bind fun found c' ⟨named, holds⟩ => ?_
  cases found with
  | none =>
    obtain rfl : c' = c := holds
    exact (ends_pure _).mpr (outcome_refl opened)
  | some name =>
    obtain ⟨⟨count, rfl⟩, less⟩ := holds
    refine (ends_leaf_terminal opened (onward_forward c count) less
      (CharClass.writable_named (named name rfl)) c.position).bind fun _ c' outcome => ?_
    exact (ends_pure _).mpr outcome

theorem ends_referenceName (c : Cursor) : Ends referenceName c fun found c' => (∀ named ∈ found, IsName named.1) ∧
    if found.isSome then (∃ count, c' = c.forward count) ∧ c'.rest.length < c.rest.length else c' = c := by
  refine Tries.attempt (fun c => ?_) c
  refine (total_eat false "@" c).bind fun memo c₁ sign => ?_
  refine (tries_identifier c₁).bind fun found c₂ ⟨after, named, less⟩ => ?_
  rw [ends_pure]
  refine ⟨sign.trans after, ?_, fun success => ?_⟩
  · intro _ member
    obtain ⟨name, found, rfl⟩ := Option.map_eq_some_iff.mp member
    exact named name found
  · rw [Option.isSome_map] at success
    exact Nat.lt_of_lt_of_le (less success) sign.onward.rest

theorem ends_reference (opened : c.builder.Open) : Ends reference c fun found c' => Outcome found c c' := by
  refine (ends_atProductionHead c).bind fun head c' ⟨same, _⟩ => ?_
  subst same
  cases head with
  | true => exact (ends_pure _).mpr (outcome_refl opened)
  | false =>
    rw [if_neg Bool.false_ne_true, ends_here]
    refine (ends_referenceName c').bind fun found c'' ⟨named, holds⟩ => ?_
    cases found with
    | none =>
      obtain rfl : c'' = c' := holds
      exact (ends_pure _).mpr (outcome_refl opened)
    | some found =>
      obtain ⟨name, memo⟩ := found
      obtain ⟨⟨count, rfl⟩, less⟩ := holds
      have grows := (Grows.refl opened).onward (onward_forward c' count)
      refine (grows.leaf opened (grows.ext.reference opened name memo) rfl ?_ c'.position).bind
        fun _ c'' ⟨grows, rest⟩ => (ends_pure _).mpr (.found grows (Nat.lt_of_le_of_lt rest less))
      intro p member
      rw [List.mem_singleton.mp member]
      exact .reference (named _ rfl)

theorem total_closeParenthesis : Total true closeParenthesis := by
  refine (total_eat true ")").bind fun closed => ?_
  cases closed with
  | true => exact total_pure _ _
  | false => exact fun c => ⟨_, _, rfl, (After.refl true c).report⟩

end Operands

section Parentheses

theorem Outcome.onward {found : Bool} (outcome : Outcome found c c') (onward : Onward c' c'') : Outcome found c c'' := by
  obtain ⟨ps, grows, length⟩ := outcome.grows
  refine ⟨⟨ps, grows.onward onward, length⟩, Nat.le_trans onward.rest outcome.rest, fun success => ?_⟩
  exact Nat.lt_of_le_of_lt onward.rest (outcome.less success)

/-- An outcome from a place further on. -/
theorem Outcome.after {found : Bool} (outcome : Outcome found c' c'') (opened : c.builder.Open)
    (onward : Onward c c') : Outcome found c c'' := by
  obtain ⟨ps, grows, length⟩ := outcome.grows
  have before := (Grows.refl opened).onward onward
  refine ⟨⟨ps, before.trans grows, length⟩, Nat.le_trans outcome.rest onward.rest, fun success => ?_⟩
  exact Nat.lt_of_lt_of_le (outcome.less success) onward.rest

theorem ends_attempt {succeeds : α → Bool} {step : Read α}
    (tried : Ends step { c with marks := c.toPlace :: c.marks } fun a c' =>
      Outcome (succeeds a) { c with marks := c.toPlace :: c.marks } c') :
    Ends (attempt succeeds step) c fun a c' => Outcome (succeeds a) c c' := by
  have marked := tried.mono fun a before outcome => (⟨outcome.grows.choose_spec.1.marks, outcome⟩ :
    before.marks = c.toPlace :: c.marks ∧ Outcome (succeeds a) { c with marks := c.toPlace :: c.marks } before)
  refine Ends.mono (Ends.attempt marked) fun a c' ⟨before, outcome, same⟩ => ?_
  obtain ⟨⟨ps, grows, length⟩, rest, less⟩ := outcome
  subst same
  split
  · exact ⟨⟨ps, ⟨rfl, grows.balanced, grows.ext, grows.writable⟩, length⟩, rest, less⟩
  · next failed =>
    exact ⟨⟨ps, ⟨rfl, grows.balanced, grows.ext, grows.writable⟩, length⟩, Nat.le_refl _,
      fun success => absurd success failed⟩

/-- A mark that is closed keeps what was pushed behind it. -/
theorem Grows.release (grows : Grows { c with builder := c.builder.mark } c' ps) (opened : c.builder.Open) :
    Ends (Read.build .release) c' fun _ c'' => Grows c c'' ps ∧ c''.rest = c'.rest := by
  obtain ⟨builder, applied, ext⟩ := grows.ext.release opened
  rw [ends_last, ends_build applied, ends_pure]
  exact ⟨⟨grows.marks, .step grows.balanced rfl applied, ext, grows.writable⟩, rfl⟩

/-- A mark that is gone back to leaves nothing behind. -/
theorem Grows.reset (grows : Grows { c with builder := c.builder.mark } c' ps) (opened : c.builder.Open) :
    Ends (Read.build .reset) c' fun _ c'' => Grows c c'' [] ∧ c''.rest = c'.rest := by
  obtain ⟨builder, applied, ext⟩ := grows.ext.reset opened
  rw [ends_last, ends_build applied, ends_pure]
  exact ⟨⟨grows.marks, .step grows.balanced rfl applied, ext, nofun⟩, rfl⟩

theorem ends_actionHead (c : Cursor) : Ends actionHead c fun found c' => (∀ name ∈ found, IsName name) ∧
    if found.isSome then (∃ count, c' = c.forward count) ∧ c'.rest.length < c.rest.length else c' = c := by
  refine Tries.attempt (fun c => ?_) c
  rw [ends_skip]
  refine (tries_identifier _).bind fun found c₁ ⟨after, named, less⟩ => ?_
  have before := (After.forward false c 1).trans after
  cases found with
  | none =>
    rw [ends_pure]
    exact ⟨before, nofun, nofun⟩
  | some name =>
    refine (total_skipSpacing false c₁).bind fun _ c₂ blank => ?_
    have less : c₂.rest.length < c.rest.length :=
      Nat.lt_of_le_of_lt blank.onward.rest (Nat.lt_of_lt_of_le (less rfl) (onward_forward c 1).rest)
    rw [ends_eat]
    split
    · rw [if_pos rfl, ends_pure]
      have opening := After.forward false c₂ "(".length
      exact ⟨before.trans (blank.trans opening), named, fun _ => Nat.lt_of_le_of_lt opening.onward.rest less⟩
    · rw [if_neg Bool.false_ne_true, ends_pure]
      exact ⟨before.trans blank, nofun, nofun⟩

section

variable {expression : Read Bool} {bound : Nat} (inner : Reader bound expression)

include inner

theorem ends_grouping (opened : c.builder.Open) (nonempty : c.rest ≠ []) (within : c.rest.length ≤ bound) :
    Ends (grouping expression) c fun found c' => Outcome found c c' := by
  refine Ends.bind (ends_attempt ?_) fun found c' outcome => ?_
  · rw [ends_skip]
    refine (total_spacing _).bind fun _ c₁ blank => ?_
    have onward := (onward_forward { c with marks := c.toPlace :: c.marks } 1).trans blank
    have less := After.less (c := { c with marks := c.toPlace :: c.marks }) blank nonempty Nat.one_pos
    refine (inner c₁ (onward.builder ▸ opened) (Nat.lt_of_lt_of_le less within)).mono fun found c₂ outcome => ?_
    exact outcome.after opened onward
  · cases found with
    | false => exact (ends_pure _).mpr outcome
    | true =>
      rw [if_pos rfl]
      refine (total_closeParenthesis c').bind fun _ c₁ after => ?_
      refine (total_spacing c₁).bind fun _ c₂ blank => ?_
      exact (ends_pure _).mpr ((outcome.onward after).onward blank)

theorem ends_action (opened : c.builder.Open) (within : c.rest.length ≤ bound) :
    Ends (action expression) c fun found c' => Outcome found c c' := by
  rw [action, ends_here]
  refine (ends_actionHead c).bind fun found c₁ ⟨named, holds⟩ => ?_
  cases found with
  | none =>
    obtain rfl : c₁ = c := holds
    exact (ends_pure _).mpr (outcome_refl opened)
  | some name =>
    obtain ⟨⟨count, rfl⟩, less⟩ := holds
    refine (total_spacing _).bind fun _ c₂ blank => ?_
    have onward := (onward_forward c count).trans blank
    have opened₂ : c₂.builder.Open := onward.builder ▸ opened
    have less : c₂.rest.length < c.rest.length := Nat.lt_of_le_of_lt blank.onward.rest less
    rw [ends_build (show c₂.builder.apply .mark = .ok c₂.builder.mark from rfl)]
    refine (inner { c₂ with builder := c₂.builder.mark } opened₂.mark (Nat.lt_of_lt_of_le less within)).bind
      fun found c₃ outcome => ?_
    obtain ⟨⟨ps, grows, length⟩, rest, -⟩ := outcome
    have few : ps.length ≤ 1 := length ▸ Bool.toNat_le found
    have body : (ps.headD (.terminal .nil)).Writable := by
      cases ps with
      | nil => exact .terminal trivial
      | cons p rest => exact grows.writable p (List.mem_cons_self ..)
    have writable : ∀ p ∈ [Phrase.action name (ps.headD (.terminal .nil))], p.Writable := by
      intro p member
      rw [List.mem_singleton.mp member]
      exact .action (named name rfl) body
    refine (total_closeParenthesis c₃).bind fun _ c₄ after => ?_
    rw [ends_here]
    have grows := grows.onward after
    refine (grows.build (grows.ext.action opened₂ few name) rfl writable).bind fun _ c₅ ⟨grows, same₅⟩ => ?_
    refine (grows.locate opened₂.mark c.position c₄.position).bind fun _ c₆ ⟨grows, same₆⟩ => ?_
    refine (grows.release opened₂).bind fun _ c₇ ⟨grows, same₇⟩ => ?_
    refine (total_spacing c₇).bind fun _ c₈ blank' => (ends_pure _).mpr ?_
    have shorter := blank'.onward.rest
    rw [same₇, same₆, same₅] at shorter
    have shorter := Nat.le_trans shorter (Nat.le_trans after.onward.rest rest)
    exact .found (((Grows.refl opened).onward onward).trans (grows.onward blank')) (Nat.lt_of_le_of_lt shorter less)

theorem ends_operand (opened : c.builder.Open) (within : c.rest.length ≤ bound) :
    Ends (operand expression) c fun found c' => Outcome found c c' := by
  rw [operand, ends_here, ends_peek]
  cases here : c.rest with
  | nil => exact (ends_pure _).mpr (outcome_refl opened)
  | cons first rest =>
    have nonempty : c.rest ≠ [] := by simp [here]
    rw [List.head?_cons]
    split
    · exact (ends_token opened nonempty '\'').bind fun _ _ outcome => (ends_pure _).mpr outcome
    · exact (ends_token opened nonempty '"').bind fun _ _ outcome => (ends_pure _).mpr outcome
    · refine (ends_charset nonempty).bind fun set c' ⟨onward, less, normal⟩ => ?_
      refine Ends.bind (ends_leaf_terminal opened onward less ?_ c.position) fun _ _ outcome => (ends_pure _).mpr outcome
      exact normal
    · exact ends_charClass opened
    · rw [ends_skip]
      refine Ends.bind (ends_leaf_terminal opened (onward_forward c 1) (length_forward_lt nonempty Nat.one_pos) ?_
        c.position) fun _ _ outcome => (ends_pure _).mpr outcome
      trivial
    · exact ends_grouping inner opened nonempty within
    · exact ends_action inner opened within
    · exact ends_reference opened
    · next next _ _ =>
      split
      · exact ends_reference opened
      · exact (ends_pure _).mpr (outcome_refl opened)
    · exact (ends_pure _).mpr (outcome_refl opened)

end

end Parentheses

section Quantifiers

theorem answers_boundNumbers : Answers (fun found => ∀ bounds ∈ found, bounds.2 ≤ unbounded) boundNumbers := by
  intro c
  refine (answers_integer c).bind fun found c₁ ⟨before, bounded⟩ => ?_
  cases found with
  | none => exact (ends_pure _).mpr ⟨before, nofun⟩
  | some min =>
    have once : ∀ bounds ∈ some (min, min), bounds.2 ≤ unbounded := by
      rintro _ ⟨⟩
      exact bounded min rfl
    have endless : ∀ bounds ∈ some (min, unbounded), bounds.2 ≤ unbounded := by
      rintro _ ⟨⟩
      exact Nat.le_refl _
    refine (total_eat true "," c₁).bind fun comma c₂ after => ?_
    cases comma with
    | false => exact (ends_pure _).mpr ⟨before.trans after, once⟩
    | true =>
      rw [if_pos rfl]
      refine (total_spacing c₂).bind fun _ c₃ blank => ?_
      have before := before.trans (Onward.trans after blank)
      rw [ends_peek]
      split
      · split
        · refine (answers_integer c₃).bind fun found c₄ ⟨onward, bounded⟩ => ?_
          refine (ends_pure _).mpr ⟨before.trans onward, fun bounds member => ?_⟩
          obtain ⟨max, found, rfl⟩ := Option.map_eq_some_iff.mp member
          exact bounded max found
        · exact (ends_pure _).mpr ⟨before, endless⟩
      · exact (ends_pure _).mpr ⟨before, endless⟩

/-- Bounds that make no sense leave the expression before them as it is. -/
theorem Grows.bounds (grows : Grows c c' [p]) (opened : c.builder.Open) (start : Position) :
    Ends (Read.bounds start) c' fun _ c'' => (∃ q, Grows c c'' [q]) ∧ c''.rest.length ≤ c'.rest.length := by
  have finish {c₁ : Cursor} {q : Phrase} (grows : Grows c c₁ [q]) (shorter : c₁.rest.length ≤ c'.rest.length) :
      Ends spacing c₁ fun _ c'' => (∃ q, Grows c c'' [q]) ∧ c''.rest.length ≤ c'.rest.length :=
    (total_spacing c₁).mono fun _ c'' blank =>
      ⟨⟨q, grows.onward blank⟩, Nat.le_trans blank.onward.rest shorter⟩
  rw [Read.bounds, ends_here, ends_skip]
  refine (total_spacing _).bind fun _ c₁ blank => ?_
  refine (answers_boundNumbers c₁).bind fun numbers c₂ ⟨onward, bounded⟩ => ?_
  have onward := ((onward_forward c' 1).trans blank).trans onward
  have malformed : Ends (do
      let _ ← takeWhile fun c => c != '\x7d' && c != ';' && c != '\n'
      let _ ← eat "\x7d"
      report .invalidExpression c'.position (← here) "malformed repetition bounds"
      spacing) c₂ fun _ c'' => (∃ q, Grows c c'' [q]) ∧ c''.rest.length ≤ c'.rest.length := by
    refine (total_takeWhile true _ c₂).bind fun _ c₃ after => ?_
    refine (total_eat true _ c₃).bind fun _ c₄ after' => ?_
    rw [ends_here, ends_report]
    have onward := onward.trans (Onward.trans after after')
    exact finish (grows.onward (After.report onward)) onward.rest
  dsimp only
  cases numbers with
  | none => exact malformed
  | some numbers =>
    obtain ⟨min, max⟩ := numbers
    rw [Option.isSome_some, if_pos rfl, ends_eat]
    split
    · have closed := onward.trans (onward_forward c₂ "\x7d".length)
      rw [ends_here]
      split
      · next valid =>
        have grows := grows.onward closed
        refine (grows.build (@Builder.Extends.repetition _ _ p [] min max grows.ext opened valid.1 valid.2) rfl ?_).bind
          fun _ c₃ ⟨grows, same₃⟩ => ?_
        · intro q member
          rw [List.mem_singleton.mp member]
          exact .repetition valid.1 valid.2 (bounded _ rfl) (grows.writable p (List.mem_singleton_self _))
        · refine (grows.locate opened start _).bind fun _ c₄ ⟨grows, same₄⟩ => finish grows ?_
          rw [same₄, same₃]
          exact closed.rest
      · rw [ends_report]
        exact finish (grows.onward (After.report closed)) closed.rest
    · exact malformed

theorem Grows.suffix (grows : Grows c c' [p]) (opened : c.builder.Open) (start : Position) :
    Ends (Read.suffix start) c' fun _ c'' => (∃ q, Grows c c'' [q]) ∧ c''.rest.length ≤ c'.rest.length := by
  rw [Read.suffix, ends_peek]
  split
  · exact (ends_pure _).mpr ⟨⟨p, grows⟩, Nat.le_refl _⟩
  · split
    · next quantifier _ =>
      have valid : quantifier.bounds.1 ≤ quantifier.bounds.2 ∧ 0 < quantifier.bounds.2 ∧
          quantifier.bounds.2 ≤ unbounded := by
        cases quantifier <;> decide
      have onward := onward_forward c' 1
      rw [ends_skip]
      have grows := grows.onward onward
      refine (grows.leaf opened (@Builder.Extends.repetition _ _ p [] _ _ grows.ext opened valid.1 valid.2.1) rfl ?_
        start).mono fun _ c'' ⟨grows, shorter⟩ => ⟨⟨_, grows⟩, Nat.le_trans shorter onward.rest⟩
      intro q member
      rw [List.mem_singleton.mp member]
      exact .repetition valid.1 valid.2.1 valid.2.2 (grows.writable p (List.mem_singleton_self _))
    · split
      · exact grows.bounds opened start
      · exact (ends_pure _).mpr ⟨⟨p, grows⟩, Nat.le_refl _⟩

theorem total_lookaheadSign : Total true lookaheadSign := by
  refine (total_eat true "!").bind fun absent => ?_
  cases absent with
  | true => exact total_spacing.bind fun _ => total_pure _ _
  | false =>
    refine (total_eat true "&").bind fun present => ?_
    cases present with
    | true => exact total_spacing.bind fun _ => total_pure _ _
    | false => exact total_pure _ _

/-- What was pushed behind a mark becomes one phrase. -/
private theorem Grows.join {step : Builder.Step} {make : List Phrase → Phrase}
    (grows : Grows { c with builder := c.builder.mark } c' ps) (opened : c.builder.Open) (nonempty : ps ≠ [])
    (accepted : ∃ builder, c'.builder.apply step = .ok builder ∧
      c.builder.mark.Extends builder [Builder.joined make ps]) (balances : step.balances c'.builder = true)
    (made : 2 ≤ ps.length → (make ps).Writable) (less : c'.rest.length < c.rest.length) (start : Position) :
    Ends (do Read.build step; Read.locate start (← Read.tokenEnd); Read.build .release; return true) c'
      fun found c'' => Outcome found c c'' := by
  have writable : ∀ p ∈ [Builder.joined make ps], p.Writable := by
    intro p member
    rw [List.mem_singleton.mp member]
    exact Phrase.writable_joined nonempty grows.writable made
  refine (grows.build accepted balances writable).bind fun _ c₁ ⟨grows, same₁⟩ => ?_
  rw [ends_tokenEnd]
  refine (grows.locate opened.mark start c₁.tokenEnd).bind fun _ c₂ ⟨grows, same₂⟩ => ?_
  refine (grows.release opened).bind fun _ c₃ ⟨grows, same₃⟩ => (ends_pure _).mpr (.found grows ?_)
  rw [same₃, same₂, same₁]
  exact less

section

variable {expression : Read Bool} {bound : Nat} (inner : Reader bound expression)

include inner

theorem ends_signedOperand (opened : c.builder.Open) (within : c.rest.length ≤ bound) :
    Ends (signedOperand expression) c fun found c' => Outcome found.isSome c c' := by
  refine ends_attempt ?_
  refine (total_lookaheadSign _).bind fun sign c₁ onward => ?_
  refine (ends_operand inner (onward.builder ▸ opened) (Nat.le_trans onward.rest within)).bind fun found c₂ outcome => ?_
  cases found with
  | true => exact (ends_pure _).mpr (outcome.after opened onward)
  | false => exact (ends_pure _).mpr (outcome.after opened onward)

theorem reader_unary : Reader (bound + 1) (unary expression) := by
  intro c opened within
  rw [unary, ends_here]
  refine (ends_signedOperand inner opened (Nat.le_of_lt_succ within)).bind fun found c₁ outcome => ?_
  have suffixed {c₂ : Cursor} {p : Phrase} (grows : Grows c c₂ [p]) (less : c₂.rest.length < c.rest.length) :
      Ends (do suffix c.position; return true) c₂ fun found c' => Outcome found c c' :=
    (grows.suffix opened c.position).bind fun _ c' ⟨⟨_, grows⟩, rest⟩ =>
      (ends_pure _).mpr (.found grows (Nat.lt_of_le_of_lt rest less))
  cases found with
  | none => exact (ends_pure _).mpr outcome
  | some sign =>
    obtain ⟨⟨ps, grows, length⟩, -, less⟩ := outcome
    obtain ⟨p, rfl⟩ := List.length_eq_one_iff.mp length
    cases sign with
    | none => exact suffixed grows (less rfl)
    | some sign =>
      have writable : ∀ q ∈ [] ++ [Phrase.lookahead sign p], q.Writable := by
        intro q member
        rw [List.mem_singleton.mp member]
        exact .lookahead (grows.writable p (List.mem_singleton_self _))
      have accepted := @Builder.Extends.lookahead _ _ p [] grows.ext opened sign
      refine (grows.build accepted rfl writable).bind fun _ c₂ ⟨grows, same₂⟩ => ?_
      rw [ends_tokenEnd]
      refine (grows.locate opened c.position c₂.tokenEnd).bind fun _ c₃ ⟨grows, same₃⟩ => ?_
      refine suffixed grows ?_
      rw [same₃, same₂]
      exact less rfl

theorem reader_sequence : Reader (bound + 1) (sequence expression) := by
  intro c opened within
  rw [sequence, ends_here, ends_build (show c.builder.apply .mark = .ok c.builder.mark from rfl), ends_steps]
  have marked := opened.mark
  -- The segment holds a phrase for each success, and only a success reads.
  refine (ends_countWhile (I := fun count c' => ∃ ps, Grows { c with builder := c.builder.mark } c' ps ∧
    ps.length = count ∧ c'.rest.length ≤ c.rest.length ∧ (0 < count → c'.rest.length < c.rest.length))
      ?_ (Nat.lt_succ_self _) ⟨[], .refl marked, rfl, Nat.le_refl _, nofun⟩).bind ?_
  · rintro count c₁ ⟨ps, grows, length, rest, less⟩
    refine (reader_unary inner c₁ (grows.opened marked) (Nat.lt_of_le_of_lt rest within)).mono
      fun more c₂ ⟨⟨qs, grows', length'⟩, rest', less'⟩ => ?_
    have grows := grows.trans grows'
    cases more with
    | true =>
      have less := less' rfl
      refine ⟨⟨ps ++ qs, grows, ?_, by omega, fun _ => by omega⟩, less⟩
      rw [List.length_append, length, length']
      rfl
    | false =>
      obtain rfl := List.length_eq_zero_iff.mp length'
      rw [List.append_nil] at grows
      exact ⟨ps, grows, length, by omega, fun positive => Nat.lt_of_le_of_lt rest' (less positive)⟩
  · rintro count c₁ ⟨ps, grows, length, rest, less⟩
    split
    · refine (grows.reset opened).bind fun _ c₂ ⟨grows, same⟩ => (ends_pure _).mpr (.missed grows ?_)
      rw [same]
      exact rest
    · next positive =>
      have nonempty : ps ≠ [] := by
        rintro rfl
        exact positive length.symm
      exact grows.join opened nonempty (grows.ext.sequence opened nonempty) rfl
        (fun several => .sequence several grows.writable) (less (Nat.pos_of_ne_zero positive)) c.position

theorem reader_alternative : Reader (bound + 1) (alternative expression) := by
  intro c opened within
  have behind {c₁ : Cursor} (onward : Onward c c₁) : Ends (do
      spacing
      if ← sequence expression then return true
      let place ← here
      report .syntaxError place place "expecting an alternative after `/`"
      return false) c₁ fun found c' => Outcome found c c' := by
    refine (total_spacing c₁).bind fun _ c₂ blank => ?_
    have onward := onward.trans blank
    have rest := onward.rest
    refine (reader_sequence inner c₂ (onward.builder ▸ opened) (by omega)).bind fun found c₃ outcome => ?_
    have outcome := outcome.after opened onward
    cases found with
    | true => exact (ends_pure _).mpr outcome
    | false =>
      rw [if_neg Bool.false_ne_true, ends_here, ends_report, ends_pure]
      exact outcome.onward (After.refl true c₃).report
  rw [alternative, ends_eat]
  split
  · exact behind (onward_forward c _)
  · dsimp only
    rw [if_neg Bool.false_ne_true, ends_eat]
    split
    · exact behind (onward_forward c _)
    · exact (ends_pure _).mpr (outcome_refl opened)

end

/-- Inside a production an expression can be read, with enough depth for all of the text. -/
theorem reader_expression (depth : Nat) : Reader depth (expression depth) := by
  induction depth with
  | zero =>
    intro c _ within
    omega
  | succ depth inner =>
    intro c opened within
    have marked := opened.mark
    rw [expression, ends_here, ends_build (show c.builder.apply .mark = .ok c.builder.mark from rfl)]
    refine (reader_sequence inner { c with builder := c.builder.mark } marked within).bind fun found c₁ outcome => ?_
    obtain ⟨⟨ps, grows, length⟩, rest, less⟩ := outcome
    cases found with
    | false =>
      refine (grows.reset opened).bind fun _ c₂ ⟨grows, same⟩ => (ends_pure _).mpr (.missed grows ?_)
      rw [same]
      exact rest
    | true =>
      have less := less rfl
      rw [Bool.not_true, if_neg Bool.false_ne_true, ends_steps]
      -- A phrase is there before the first alternative.
      refine (ends_countWhile (I := fun _ c' => ∃ ps, Grows { c with builder := c.builder.mark } c' ps ∧
        ps ≠ [] ∧ c'.rest.length < c.rest.length) ?_ (Nat.lt_succ_self _) ⟨ps, grows, ?_, less⟩).bind ?_
      · rintro count c₂ ⟨ps, grows, nonempty, less⟩
        refine (reader_alternative inner c₂ (grows.opened marked) (by omega)).mono
          fun more c₃ ⟨⟨qs, grows', _⟩, rest', less'⟩ => ?_
        have holds : ∃ ps, Grows { c with builder := c.builder.mark } c₃ ps ∧ ps ≠ [] ∧
            c₃.rest.length < c.rest.length :=
          ⟨ps ++ qs, grows.trans grows', List.append_ne_nil_of_left_ne_nil nonempty qs, by omega⟩
        cases more with
        | true => exact ⟨holds, less' rfl⟩
        | false => exact holds
      · rintro rfl
        cases length
      · rintro count c₂ ⟨ps, grows, nonempty, less⟩
        exact grows.join opened nonempty (grows.ext.choice opened nonempty) rfl
          (fun several => .choice several grows.writable) less c.position

end Quantifiers

end Read

end Packrat
