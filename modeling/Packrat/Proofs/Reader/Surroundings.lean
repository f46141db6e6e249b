import Packrat.Proofs.Builder.Drafts
import Packrat.Proofs.Reader.Silence

/-! # Reading in surroundings

A text can be read on its own, and as a part of a longer text. `Agrees` compares the two readings step by step: the
places in the longer text are those of the text alone moved over what stands in front, more text is left ahead, and
the builders have been told the same. A step agrees with itself whatever stands in front. Text behind can change what
is read, so then the step must have reported nothing and what it leaves must tell that it has not read on.

As both steps are assumed to have ended, it does not matter how many steps a loop can take.
-/

namespace Packrat

namespace Position

/-- The position in a text with `front` in front of it, which ends its last line. -/
def shift (p : Position) (front : List Char) : Position :=
  ⟨p.offset + front.length, p.line + front.count '\n', p.column⟩

theorem next_shift (p : Position) (front : List Char) (c : Char) : (p.shift front).next c = (p.next c).shift front := by
  unfold next shift
  split <;> simp only [mk.injEq, and_true] <;> omega

theorem advance_shift (p : Position) (front text : List Char) :
    (p.shift front).advance text = (p.advance text).shift front := by
  induction text generalizing p with
  | nil => rfl
  | cons c rest ih => rw [advance_cons, advance_cons, next_shift, ih]

/-- Lines are counted from the beginning, columns from the last line end. -/
theorem advance_line (p : Position) (text : List Char) :
    p.advance (text ++ ['\n']) = ⟨p.offset + (text.length + 1), p.line + (text.count '\n' + 1), 1⟩ := by
  induction text generalizing p with
  | nil => rfl
  | cons c rest ih =>
    rw [List.cons_append, advance_cons, ih]
    unfold next
    split
    · next newline =>
      rw [newline, List.count_cons_self, List.length_cons]
      simp only [mk.injEq, and_true]
      omega
    · next other =>
      rw [List.count_cons_of_ne other, List.length_cons]
      simp only [mk.injEq, and_true]
      omega

end Position

def Span.shift (s : Span) (front : List Char) : Span := ⟨s.start.shift front, s.stop.shift front⟩

def Problem.shift (p : Problem) (front : List Char) : Problem := { p with span := p.span.map (·.shift front) }

namespace Read

/-- What surrounds a text in a longer one, and the definitions that were read before it. -/
structure Setting where
  front : List Char
  behind : List Char
  earlier : List (String × Phrase)

/-- How much is known while a text is read. -/
inductive Mode where
  | outside
  /-- The last token ended in the text. -/
  | settled
  /-- And a production is under construction. -/
  | inside
deriving DecidableEq

def Setting.place (k : Setting) (p : Place) : Place := ⟨p.rest ++ k.behind, p.position.shift k.front⟩

/-- `c'` is in the longer text what `c` is in the text alone. -/
structure Setting.Relates (k : Setting) (m : Mode) (c c' : Cursor) : Prop where
  place : c'.toPlace = k.place c.toPlace
  marks : c'.marks = c.marks.map k.place
  problems : c'.problems = c.problems.map (·.shift k.front)
  /-- Only a whole text can be empty. -/
  nonempty : ∀ p ∈ c.problems, p.kind ≠ .emptyGrammar
  alike : c.builder.Alike k.earlier c'.builder
  tokenEnd : m ≠ .outside → c'.tokenEnd = c.tokenEnd.shift k.front
  current : m = .inside → c.builder.current.isSome

/-- The step has gone on in the text, and what was reported before is still reported. -/
structure Advances (c d : Cursor) : Prop where
  marks : d.marks = c.marks
  problems : c.problems.length ≤ d.problems.length
  taken : ∃ taken, c.rest = taken ++ d.rest ∧ d.position = c.position.advance taken

variable {α β : Type} {k : Setting} {m m' m'' : Mode} {c c' c'' d : Cursor}

namespace Advances

theorem refl (c : Cursor) : Advances c c := ⟨rfl, Nat.le_refl _, [], rfl, rfl⟩

theorem trans (first : Advances c c') (second : Advances c' c'') : Advances c c'' := by
  obtain ⟨taken, ahead, position⟩ := first.taken
  obtain ⟨taken', ahead', position'⟩ := second.taken
  refine ⟨second.marks.trans first.marks, Nat.le_trans first.problems second.problems, taken ++ taken', ?_, ?_⟩
  · rw [ahead, ahead', List.append_assoc]
  · rw [position', position, Position.advance_append]

theorem mem {e : Char} (advances : Advances c d) (member : e ∈ d.rest) : e ∈ c.rest := by
  obtain ⟨taken, ahead, -⟩ := advances.taken
  rw [ahead]
  exact List.mem_append_right taken member

theorem forward (c : Cursor) (count : Nat) : Advances c (c.forward count) :=
  ⟨rfl, Nat.le_refl _, c.rest.take count, (List.take_append_drop ..).symm, rfl⟩

end Advances

/-- `step'` does in the longer text what `step` does in the text alone. With text behind, this is only so if `step` has
reported nothing and `Q` holds of its answer and of what it has left. -/
def Agrees (k : Setting) (m m' : Mode) (Q : α → List Char → Prop) (step step' : Read α) : Prop :=
  ∀ c a d, step c = .ok (a, d) → Advances c d ∧
    ((k.behind = [] ∨ d.problems.length = c.problems.length ∧ Q a d.rest) →
      ∀ c' a' d', k.Relates m c c' → step' c' = .ok (a', d') → a' = a ∧ k.Relates m' d d')

/-- What is left has to go on to the end of a production, so nothing behind has been looked at. -/
def Stops (_ : α) (s : List Char) : Prop := ';' ∈ s

variable {Q : α → List Char → Prop} {Q' : β → List Char → Prop} {step step' : Read α}

theorem Agrees.mono {P : α → List Char → Prop} (agrees : Agrees k m m' Q step step') (stronger : ∀ a s, P a s → Q a s) :
    Agrees k m m' P step step' := by
  intro c a d ran
  obtain ⟨advances, follows⟩ := agrees c a d ran
  exact ⟨advances, fun told => follows (told.imp_right fun ⟨silent, holds⟩ => ⟨silent, stronger a _ holds⟩)⟩

/-- With nothing behind, nothing has to be told. -/
theorem Agrees.whole {P : α → List Char → Prop} (agrees : Agrees k m m' Q step step') (none : k.behind = []) :
    Agrees k m m' P step step' :=
  fun c a d ran => ⟨(agrees c a d ran).1, fun _ => (agrees c a d ran).2 (.inl none)⟩

/-- A step that has failed in the longer text agrees with everything. -/
theorem Agrees.throw (agrees : Agrees k m m' Q step step') (e : ReadError) :
    Agrees k m m' Q step (throw e : Read α) := by
  intro c a d ran
  refine ⟨(agrees c a d ran).1, fun _ c' a' d' _ ran' => ?_⟩
  cases ran'

/-- Where the step ends silently, what holds of what it leaves tells something of the text ahead of it. -/
def Asks (step : Read α) (Q : α → List Char → Prop) (P : List Char → Prop) : Prop :=
  ∀ c a d, step c = .ok (a, d) → Advances c d → d.problems.length = c.problems.length → Q a d.rest → P c.rest

theorem asks_stops (step : Read α) (stops : ∀ a s, Q a s → ';' ∈ s) : Asks step Q (';' ∈ ·) :=
  fun _ a d _ advances _ holds => advances.mem (stops a d.rest holds)

theorem Silently.asks {R : α → List Char → List Char → Prop} {P : List Char → Prop} (silently : Silently step R)
    (tells : ∀ a before after, R a before after → Q a after → after ⊆ before → P before) : Asks step Q P :=
  fun c a d ran advances silent holds =>
    tells a c.rest d.rest ((silently c a d ran).2.2 silent) holds fun _ member => advances.mem member

theorem asks_pure {a : α} {P : List Char → Prop} (holds : ∀ s, Q a s → P s) : Asks (pure a) Q P := by
  rintro c _ _ ⟨⟩ - - told
  exact holds _ told

section Steps

theorem agrees_pure (a : α) : Agrees k m m Q (pure a) (pure a) := by
  rintro c _ _ ⟨⟩
  refine ⟨.refl c, ?_⟩
  rintro - c' _ _ related ⟨⟩
  exact ⟨rfl, related⟩

theorem agrees_throw (e : ReadError) : Agrees k m m' Q (throw e : Read α) step' := by
  rintro c _ _ ⟨⟩

theorem Agrees.bind {first first' : Read β} {next next' : β → Read α} (leads : Agrees k m m' Q' first first')
    (rest : ∀ b, Agrees k m' m'' Q (next b) (next' b)) (asks : ∀ b, Asks (next b) Q (Q' b)) :
    Agrees k m m'' Q (first >>= next) (first' >>= next') := by
  intro c a d ran
  obtain ⟨b, c₁, ran₁, ran₂⟩ := bind_eq_ok.mp ran
  obtain ⟨advances₁, follows₁⟩ := leads c b c₁ ran₁
  obtain ⟨advances₂, follows₂⟩ := rest b c₁ a d ran₂
  refine ⟨advances₁.trans advances₂, fun told c' a' d' related ran' => ?_⟩
  obtain ⟨b', c₁', ran₁', ran₂'⟩ := bind_eq_ok.mp ran'
  have longer := advances₁.problems
  have longer' := advances₂.problems
  have told₁ : k.behind = [] ∨ c₁.problems.length = c.problems.length ∧ Q' b c₁.rest := by
    refine told.imp_right fun ⟨silent, holds⟩ => ⟨by omega, ?_⟩
    exact asks b c₁ a d ran₂ advances₂ (by omega) holds
  obtain ⟨rfl, related₁⟩ := follows₁ told₁ c' b' c₁' related ran₁'
  exact follows₂ (told.imp_right fun ⟨silent, holds⟩ => ⟨by omega, holds⟩) c₁' a' d' related₁ ran₂'

/-- A step that reads on is followed by others that read on. -/
theorem Agrees.seq {first first' : Read β} {next next' : β → Read α} (leads : Agrees k m m' Stops first first')
    (rest : ∀ b, Agrees k m' m'' Q (next b) (next' b)) (stops : ∀ a s, Q a s → ';' ∈ s) :
    Agrees k m m'' Q (first >>= next) (first' >>= next') := leads.bind rest fun _ => asks_stops _ stops

/-- The readers that read on. -/
theorem Agrees.onward {first first' : Read β} {next next' : β → Read α} (leads : Agrees k m m' Stops first first')
    (rest : ∀ b, Agrees k m' m'' Stops (next b) (next' b)) : Agrees k m m'' Stops (first >>= next) (first' >>= next') :=
  leads.seq rest fun _ _ holds => holds

/-- A step that needs nothing to be told is followed by any other. -/
theorem Agrees.next {first first' : Read β} {next next' : β → Read α}
    (leads : Agrees k m m' (fun _ _ => True) first first') (rest : ∀ b, Agrees k m' m'' Q (next b) (next' b)) :
    Agrees k m m'' Q (first >>= next) (first' >>= next') := leads.bind rest fun _ _ _ _ _ _ _ _ => trivial

/-- What the rest of a reader tells of the text ahead of it is told to its first step. -/
theorem Agrees.asks {first first' : Read β} {next next' : β → Read α} {R : α → List Char → Prop}
    {P : List Char → Prop} (leads : Agrees k m m' Q' first first') (rest : ∀ b, Agrees k m' m'' Q (next b) (next' b))
    {T : β → List Char → Prop} (asks : ∀ b, Asks (next b) R (T b)) (asked : Asks first T P) :
    Asks (first >>= next) R P := by
  intro c a d ran _ silent holds
  obtain ⟨b, c₁, ran₁, ran₂⟩ := bind_eq_ok.mp ran
  have advances₁ := (leads c b c₁ ran₁).1
  have advances₂ := (rest b c₁ a d ran₂).1
  have longer := advances₁.problems
  have longer' := advances₂.problems
  exact asked c b c₁ ran₁ advances₁ (by omega) (asks b c₁ a d ran₂ advances₂ (by omega) holds)

end Steps

section Text

namespace Setting.Relates

variable {k : Setting} {m : Mode} {c c' : Cursor} (related : k.Relates m c c')

include related

theorem rest : c'.rest = c.rest ++ k.behind := congrArg Place.rest related.place

theorem position : c'.position = c.position.shift k.front := congrArg Place.position related.place

/-- Both go on over the same text. -/
theorem forward {count : Nat} (within : k.behind = [] ∨ count ≤ c.rest.length) :
    k.Relates m (c.forward count) (c'.forward count) := by
  have taken : c'.rest.take count = c.rest.take count := by
    rw [related.rest]
    rcases within with none | within
    · rw [none, List.append_nil]
    · exact List.take_append_of_le_length within
  have left : c'.rest.drop count = c.rest.drop count ++ k.behind := by
    rw [related.rest]
    rcases within with none | within
    · rw [none, List.append_nil, List.append_nil]
    · exact List.drop_append_of_le_length within
  refine { related with place := ?_ }
  change Place.mk (c'.rest.drop count) (c'.position.advance (c'.rest.take count)) = _
  rw [taken, left, related.position, Position.advance_shift]
  rfl

theorem outside : k.Relates .outside c c' :=
  { related with tokenEnd := fun other => absurd rfl other, current := nofun }

end Setting.Relates

theorem agrees_here {next next' : Position → Read α}
    (rest : ∀ p, Agrees k m m' Q (next p) (next' (p.shift k.front))) :
    Agrees k m m' Q (here >>= next) (here >>= next') := by
  intro c a d ran
  obtain ⟨advances, follows⟩ := rest c.position c a d ran
  refine ⟨advances, fun told c' a' d' related ran' => follows told c' a' d' related ?_⟩
  rw [← related.position]
  exact ran'

theorem agrees_tokenEnd (settled : m ≠ .outside) {next next' : Position → Read α}
    (rest : ∀ p, Agrees k m m' Q (next p) (next' (p.shift k.front))) :
    Agrees k m m' Q (tokenEnd >>= next) (tokenEnd >>= next') := by
  intro c a d ran
  obtain ⟨advances, follows⟩ := rest c.tokenEnd c a d ran
  refine ⟨advances, fun told c' a' d' related ran' => follows told c' a' d' related ?_⟩
  rw [← related.tokenEnd settled]
  exact ran'

theorem agrees_steps {next next' : Nat → Read α} (rest : ∀ limit limit', Agrees k m m' Q (next limit) (next' limit')) :
    Agrees k m m' Q (steps >>= next) (steps >>= next') := by
  intro c a d ran
  refine ⟨(rest _ 0 c a d ran).1, fun told c' a' d' related ran' => ?_⟩
  exact (rest (c.rest.length + 1) (c'.rest.length + 1) c a d ran).2 told c' a' d' related ran'

/-- A reader that looks at the text ahead does the same if it cannot tell the longer text from the text. -/
theorem agrees_text {next next' : List Char → Read α} (rest : ∀ s, Agrees k m m' Q (next s) (next' s))
    (same : ∀ c a d, next c.rest c = .ok (a, d) → Advances c d → Q a d.rest →
      next' (c.rest ++ k.behind) = next' c.rest) :
    Agrees k m m' Q (get >>= fun c => next c.rest) (get >>= fun c => next' c.rest) := by
  intro c a d ran
  obtain ⟨advances, follows⟩ := rest c.rest c a d ran
  refine ⟨advances, fun told c' a' d' related ran' => follows told c' a' d' related ?_⟩
  have ahead : next' (c.rest ++ k.behind) = next' c.rest := by
    rcases told with none | ⟨-, holds⟩
    · rw [none, List.append_nil]
    · exact same c a d ran advances holds
  have ran' : next' c'.rest c' = .ok (a', d') := ran'
  rwa [related.rest, ahead] at ran'

theorem agrees_peek_last : Agrees k m m (fun _ s => s ≠ []) peek peek := by
  refine agrees_text (fun s => agrees_pure s.head?) ?_
  rintro c _ _ ⟨⟩ - some
  rw [List.head?_append_of_ne_nil _ some]

theorem agrees_atEnd_last : Agrees k m m (fun _ s => s ≠ []) atEnd atEnd := by
  refine agrees_text (fun s => agrees_pure s.isEmpty) ?_
  rintro c _ _ ⟨⟩ - some
  obtain ⟨first, rest, ahead⟩ := List.exists_cons_of_ne_nil some
  rw [ahead]
  rfl

theorem agrees_peek {next next' : Option Char → Read α} (rest : ∀ o, Agrees k m m' Q (next o) (next' o))
    (stops : ∀ a s, Q a s → ';' ∈ s) : Agrees k m m' Q (peek >>= next) (peek >>= next') :=
  agrees_peek_last.bind rest fun _ _ a d _ advances _ holds => List.ne_nil_of_mem (advances.mem (stops a d.rest holds))

theorem agrees_skip (count : Nat) : Agrees k m m Stops (skip count) (skip count) := by
  rintro c _ _ ⟨⟩
  refine ⟨.forward c count, ?_⟩
  rintro told c' _ _ related ⟨⟩
  refine ⟨rfl, related.forward (told.imp_right fun ⟨_, stops⟩ => ?_)⟩
  have left : 0 < (c.rest.drop count).length := List.length_pos_of_mem stops
  rw [List.length_drop] at left
  omega

theorem takeWhile_longer {p : Char → Bool} {s : List Char} (stops : s.drop (s.takeWhile p).length ≠ [])
    (more : List Char) : (s ++ more).takeWhile p = s.takeWhile p := by
  induction s with
  | nil => exact absurd rfl stops
  | cons c rest ih =>
    rw [List.cons_append]
    by_cases holds : p c = true
    · rw [List.takeWhile_cons_of_pos holds] at stops ⊢
      rw [List.takeWhile_cons_of_pos holds, ih stops]
    · rw [List.takeWhile_cons_of_neg holds, List.takeWhile_cons_of_neg holds]

theorem agrees_takeWhile (p : Char → Bool) : Agrees k m m Stops (takeWhile p) (takeWhile p) := by
  let next (s : List Char) : Read (List Char) := do
    skip (s.takeWhile p).length
    return s.takeWhile p
  refine @agrees_text _ _ _ _ _ next next (fun s => (agrees_skip _).onward fun _ => agrees_pure _) ?_
  rintro c _ _ ⟨⟩ - stops
  have stops : ';' ∈ c.rest.drop (c.rest.takeWhile p).length := stops
  simp only [next, takeWhile_longer (List.ne_nil_of_mem stops)]

/-- What does not contain the end of a production is not found across it. -/
theorem prefix_append {text s : List Char} (other : ';' ∉ text) (stops : ';' ∈ s) (more : List Char) :
    text <+: s ++ more ↔ text <+: s := by
  constructor
  · intro found
    rcases List.prefix_or_prefix_of_prefix found (List.prefix_append s more) with short | long
    · exact short
    · exact absurd (long.subset stops) other
  · exact fun found => found.trans (List.prefix_append s more)

theorem isPrefixOf_append {text s : List Char} (other : ';' ∉ text) (stops : ';' ∈ s) (more : List Char) :
    text.isPrefixOf (s ++ more) = text.isPrefixOf s := by
  rw [Bool.eq_iff_iff, List.isPrefixOf_iff_prefix, List.isPrefixOf_iff_prefix]
  exact prefix_append other stops more

theorem agrees_eat {text : String} (other : ';' ∉ text.toList ∨ k.behind = []) :
    Agrees k m m Stops (eat text) (eat text) := by
  let next (s : List Char) : Read Bool := do
    if text.toList.isPrefixOf s then
      skip text.length
      return true
    else return false
  refine @agrees_text _ _ _ _ _ next next (fun s => ?_) fun c a d _ advances stops => ?_
  · dsimp only [next]
    split
    · exact (agrees_skip _).onward fun _ => agrees_pure _
    · exact agrees_pure _
  · rcases other with other | none
    · simp only [next, isPrefixOf_append other (advances.mem stops)]
    · rw [none, List.append_nil]

end Text

section Building

/-- Where a problem is reported, nothing behind has to be told. -/
theorem agrees_report {kind : ProblemKind} (proper : kind ≠ .emptyGrammar) {start stop : Position} {message : String}
    {Q : Unit → List Char → Prop} : Agrees k m m Q (report kind start stop message)
      (report kind (start.shift k.front) (stop.shift k.front) message) := by
  rintro c _ _ ⟨⟩
  refine ⟨⟨rfl, ?_, [], rfl, rfl⟩, ?_⟩
  · rw [List.length_append]
    exact Nat.le_add_right ..
  · rintro - c' _ _ related ⟨⟩
    refine ⟨rfl, { related with problems := ?_, nonempty := fun p member => ?_ }⟩
    · dsimp only
      rw [related.problems, List.map_append]
      rfl
    · rcases List.mem_append.mp member with member | member
      · exact related.nonempty p member
      · rw [List.mem_singleton.mp member]
        exact proper

theorem agrees_reported {kind : ProblemKind} (proper : kind ≠ .emptyGrammar) {start stop : Position} {message : String}
    {next next' : Unit → Read α} (rest : Agrees k m m' Q (next ()) (next' ())) :
    Agrees k m m' Q (report kind start stop message >>= next)
      (report kind (start.shift k.front) (stop.shift k.front) message >>= next') := by
  intro c a d ran
  obtain ⟨_, c₁, ran₁, ran₂⟩ := bind_eq_ok.mp ran
  obtain ⟨advances₁, follows₁⟩ := agrees_report (Q := fun _ _ => True) proper c () c₁ ran₁
  obtain ⟨advances₂, follows₂⟩ := rest c₁ a d ran₂
  refine ⟨advances₁.trans advances₂, fun told c' a' d' related ran' => ?_⟩
  obtain ⟨_, c₁', ran₁', ran₂'⟩ := bind_eq_ok.mp ran'
  have more : c.problems.length < c₁.problems.length := by
    cases ran₁
    simp only [List.length_append, List.length_singleton, Nat.lt_add_one]
  have longer := advances₂.problems
  rcases told with none | ⟨silent, -⟩
  · exact follows₂ (.inl none) c₁' a' d' (follows₁ (.inl none) c' () c₁' related ran₁').2 ran₂'
  · omega

theorem build_eq {step : Builder.Step} {u : Unit} (ran : build step c = .ok (u, d)) :
    ∃ builder, c.builder.apply step = .ok builder ∧ d = { c with builder } := by
  obtain ⟨_, _, ⟨⟩, ran⟩ := bind_eq_ok.mp ran
  cases applied : c.builder.apply step with
  | ok builder =>
    rw [applied] at ran
    cases ran
    exact ⟨builder, rfl, rfl⟩
  | error e =>
    rw [applied] at ran
    cases ran

/-- Steps of the builders that say the same. -/
theorem agrees_build {step step' : Builder.Step} (inner : step.inner = true) (inner' : step'.inner = true)
    (same : ∀ draft : Draft, draft.apply step' = draft.apply step) {Q : Unit → List Char → Prop} :
    Agrees k .inside .inside Q (build step) (build step') := by
  intro c _ d ran
  obtain ⟨builder, applied, rfl⟩ := build_eq ran
  refine ⟨⟨rfl, Nat.le_refl _, [], rfl, rfl⟩, fun _ c' _ d' related ran' => ⟨rfl, ?_⟩⟩
  obtain ⟨builder', applied', rfl⟩ := build_eq ran'
  have current := related.current rfl
  have balances := Builder.Step.balances_of_inner inner current
  have balances' := Builder.Step.balances_of_inner inner' (related.alike.isSome.trans current)
  exact { related with
    alike := related.alike.apply same (Builder.Step.kept_of_inner inner') balances balances' applied applied'
    current := fun _ => related.alike.isSome_apply inner current applied }

theorem agrees_built {step step' : Builder.Step} (inner : step.inner = true) (inner' : step'.inner = true)
    (same : ∀ draft : Draft, draft.apply step' = draft.apply step) {next next' : Unit → Read α}
    (rest : Agrees k .inside m' Q (next ()) (next' ())) :
    Agrees k .inside m' Q (build step >>= next) (build step' >>= next') :=
  (agrees_build inner inner' same).next fun _ => rest

end Building

section Loops

/-- A step that is tried has to succeed if there is text behind. -/
theorem Agrees.attempt {succeeds : α → Bool} (agrees : Agrees k m m Q step step') :
    Agrees k m m (fun a s => succeeds a = true ∧ Q a s) (attempt succeeds step) (attempt succeeds step') := by
  intro c a d ran
  obtain ⟨tried, ran₁, same⟩ := attempt_eq_ok (fun a tried ran => (agrees _ a tried ran).1.marks) ran
  obtain ⟨advances, follows⟩ := agrees _ a tried ran₁
  subst same
  refine ⟨?_, fun told c' a' d' related ran' => ?_⟩
  · split
    · exact ⟨rfl, advances.problems, advances.taken⟩
    · exact ⟨rfl, advances.problems, [], rfl, rfl⟩
  · have marked : k.Relates m { c with marks := c.toPlace :: c.marks } { c' with marks := c'.toPlace :: c'.marks } :=
      { related with marks := by rw [List.map_cons, related.marks, related.place] }
    obtain ⟨_, _, ⟨⟩, rest'⟩ := bind_eq_ok.mp ran'
    obtain ⟨b', tried', ran₁', -⟩ := bind_eq_ok.mp rest'
    have told₁ : k.behind = [] ∨ tried.problems.length = c.problems.length ∧ Q a tried.rest := by
      refine told.imp_right fun ⟨silent, success, holds⟩ => ?_
      rw [if_pos success] at silent holds
      exact ⟨silent, holds⟩
    obtain ⟨rfl, after⟩ := follows told₁ _ b' tried' marked ran₁'
    obtain ⟨_, ran₂', same'⟩ := attempt_eq_ok (fun a'' tried'' ran'' => by
      cases ran₁'.symm.trans ran''
      rw [after.marks, advances.marks, List.map_cons, related.marks, related.place]) ran'
    cases ran₁'.symm.trans ran₂'
    subst same'
    refine ⟨rfl, ?_⟩
    split
    · exact { after with marks := related.marks }
    · exact { after with place := related.place, marks := related.marks }

/-- A loop that has ended has had a step to take. -/
theorem agrees_limit {reader : Nat → Read α} (endless : reader 0 = throw .endless)
    (succ : ∀ limit, Agrees k m m' Q step (reader (limit + 1))) (limit : Nat) :
    Agrees k m m' Q step (reader limit) := by
  cases limit with
  | zero =>
    rw [endless]
    exact (succ 0).throw _
  | succ limit => exact succ limit

/-- A loop reads on if the rest of it tells that each success has read on. -/
theorem agrees_countWhile {step step' : Read Bool} {P : Bool → List Char → Prop} {Q : List Char → Prop}
    (agrees : Agrees k m m P step step') (last : ∀ s, Q s → P false s)
    (more : ∀ limit, Asks (countWhile step limit) (fun _ => Q) (P true)) (limit limit' : Nat) :
    Agrees k m m (fun _ => Q) (countWhile step limit) (countWhile step' limit') := by
  induction limit generalizing limit' with
  | zero => exact agrees_throw _
  | succ limit ih =>
    refine agrees_limit rfl (fun limit' => agrees.bind (fun success => ?_) fun success => ?_) limit'
    · cases success with
      | true => exact (ih limit').bind (fun count => agrees_pure _) fun count => asks_pure fun s holds => holds
      | false => exact agrees_pure _
    · cases success with
      | true =>
        intro c a d ran advances silent holds
        obtain ⟨count, c₁, ran₁, ⟨⟩⟩ := bind_eq_ok.mp ran
        exact more limit c count _ ran₁ advances silent holds
      | false => exact asks_pure last

end Loops

end Read

end Packrat
