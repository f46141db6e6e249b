import Packrat.Proofs.Recognition.Images
import Packrat.Proofs.Recognition.Trail
import Packrat.Proofs.Text.Neighbours

/-! # Two steps in the place of one

Where one step does what two neighbours do together, it can take their place in a list of steps. In a choice the
neighbours must fail without a trace. In a sequence they may stray: the second one can fail behind a match of the first
one, and then the stream is not where the one step leaves it, until the mark around the sequence is closed (`Alike`).
-/

namespace Packrat

variable {H S τ α : Type}

namespace Reduction

/-- The answers are the same, up to the position where there is no match. -/
inductive Alike : Reduction H S τ → Reduction H S τ → Prop
  | same (x : Reduction H S τ) : Alike x x
  | strayed (v : Verdict) (st : State H S τ) (place : Position) (unmatched : v ≠ .matched) :
      Alike (.ok (v, st)) (.ok (v, { st with stream := { st.stream with position := place } }))

variable {x y : Reduction H S τ} {step step' next next' : State H S τ → Reduction H S τ}

/-- Without a match, nothing goes on. -/
theorem Alike.andThen (alike : Alike x y) (goesOn : ∀ st, Alike (next st) (next' st)) :
    Alike (x.andThen next) (y.andThen next') := by
  cases alike with
  | same =>
    rcases x with fault | ⟨v, st⟩
    · exact .same _
    · cases v with
      | matched => exact goesOn st
      | failed | aborted => exact .same _
  | strayed v st place unmatched =>
    cases v with
    | matched => exact absurd rfl unmatched
    | failed | aborted => exact .strayed _ st place nofun

/-- A mark is gone back to from everywhere. -/
theorem Alike.settle (alike : Alike x y) : x.always State.settle = y.always State.settle := by
  cases alike with
  | same => rfl
  | strayed v st place unmatched =>
    cases v with
    | matched => exact absurd rfl unmatched
    | failed | aborted =>
      simp only [always, State.settle, State.reset, Stream.reset]

theorem marked_alike (alike : ∀ st, Alike (step st) (step' st)) : marked step = marked step' :=
  funext fun st => (alike st.mark).settle

theorem andThen_assoc (x : Reduction H S τ) (step next : State H S τ → Reduction H S τ) :
    (x.andThen step).andThen next = x.andThen fun st => (step st).andThen next := by
  rcases x with fault | ⟨v, st⟩
  · rfl
  · cases v <;> rfl

theorem otherwise_assoc (x : Reduction H S τ) (step next : State H S τ → Reduction H S τ) :
    (x.otherwise step).otherwise next = x.otherwise fun st => (step st).otherwise next := by
  rcases x with fault | ⟨v, st⟩
  · rfl
  · cases v <;> rfl

section

variable {step step' : α → State H S τ → Reduction H S τ} {items before after : List α} {a b both : α}

theorem inSequence_congr (same : ∀ a ∈ items, step a = step' a) : inSequence step items = inSequence step' items := by
  induction items with
  | nil => rfl
  | cons a rest ih =>
    funext st
    rw [inSequence, inSequence, same a (List.mem_cons_self ..), ih fun b member => same b (List.mem_cons_of_mem _ member)]

theorem inOrder_congr (same : ∀ a ∈ items, step a = step' a) : inOrder step items = inOrder step' items := by
  induction items with
  | nil => rfl
  | cons a rest ih =>
    funext st
    rw [inOrder, inOrder, same a (List.mem_cons_self ..), ih fun b member => same b (List.mem_cons_of_mem _ member)]

/-- Two steps of a sequence that match together where one step does. -/
theorem inSequence_fused (fused : ∀ st, Alike ((step a st).andThen (step b)) (step' both st))
    (earlier : ∀ c ∈ before, step c = step' c) (later : ∀ c ∈ after, step c = step' c) (st : State H S τ) :
    Alike (inSequence step (before ++ a :: b :: after) st) (inSequence step' (before ++ both :: after) st) := by
  induction before generalizing st with
  | nil =>
    change Alike ((step a st).andThen fun st => (step b st).andThen (inSequence step after)) _
    rw [← andThen_assoc, inSequence_congr later]
    exact (fused st).andThen fun st => .same _
  | cons c before ih =>
    rw [List.cons_append, List.cons_append, inSequence, inSequence, earlier c (List.mem_cons_self ..)]
    exact (Alike.same _).andThen (ih fun c member => earlier c (List.mem_cons_of_mem _ member))

/-- Two alternatives that match where one step does. -/
theorem inOrder_fused (fused : ∀ st, (marked (step a) st).otherwise (marked (step b)) = marked (step' both) st)
    (earlier : ∀ c ∈ before, step c = step' c) (later : ∀ c ∈ after, step c = step' c) :
    inOrder step (before ++ a :: b :: after) = inOrder step' (before ++ both :: after) := by
  induction before with
  | nil =>
    funext st
    change (marked (step a) st).otherwise (fun st => (marked (step b) st).otherwise (inOrder step after)) = _
    rw [← otherwise_assoc, fused, inOrder_congr later]
    rfl
  | cons c before ih =>
    funext st
    rw [List.cons_append, List.cons_append, inOrder, inOrder, earlier c (List.mem_cons_self ..),
      ih fun c member => earlier c (List.mem_cons_of_mem _ member)]

end

/-- Two texts match one after the other where the longer text does. -/
theorem accept_fused (same : Char → Char → Bool) (first second : List Char) (st : State H S τ) :
    Alike ((looking (·.accept same first) st).andThen (looking (·.accept same second)))
      (looking (·.accept same (first ++ second)) st) := by
  have joined := Stream.accept_append same first second st.stream
  rcases accepted : st.stream.accept same first with ⟨_ | _, s⟩
  all_goals
    rw [accepted] at joined
    simp only [looking, joined, accepted]
  · exact .same _
  · change Alike (looking (·.accept same second) { st with stream := s }) _
    rcases accepted' : s.accept same second with ⟨_ | _, s'⟩
    all_goals simp only [looking, accepted']
    · exact .strayed .failed { st with stream := s' } _ nofun
    · exact .same _

/-- A terminal that fails needs no mark to go back. -/
theorem marked_recognize (t : Terminal) : marked (looking (H := H) (S := S) (τ := τ) t.recognize) = looking t.recognize := by
  funext st
  have moved := t.recognize_under st.stream st.mark.stream.marks
  have marks := t.marks_recognize st.stream
  have back := (t.position_recognize st.stream).2
  have settles {v : Verdict} {st' : State H S τ} (balanced : st'.stream.marks = st.mark.stream.marks) :
      st'.settle v = .ok (v, st.settled v st') := State.settle_eq balanced
  rw [marked, looking, always, show st.mark.stream = st.stream.under st.mark.stream.marks from rfl, moved,
    settles (by rfl), looking]
  rcases recognized : t.recognize st.stream with ⟨_ | _, s⟩
  all_goals
    rw [recognized] at marks back
    refine congrArg (fun stream => Except.ok (_, { st with stream })) ?_
  · change { s with position := st.stream.position, marks := st.stream.marks } = s
    rw [← marks, ← back rfl]
  · change { s with marks := st.stream.marks } = s
    rw [← marks]

/-- One of two kinds of characters is matched by an alternative for the one kind and one for the other. -/
theorem determined_fused {t u : Terminal} {members : Charset} (determined : t.isDetermined = true)
    (determined' : u.isDetermined = true) (union : ∀ c, members.contains c = (t.admits c || u.admits c))
    (st : State H S τ) :
    (marked (looking t.recognize) st).otherwise (marked (looking u.recognize)) =
      marked (looking (Terminal.set members).recognize) st := by
  have joined : (Terminal.set members).recognize st.stream =
      if (t.recognize st.stream).1 then t.recognize st.stream else u.recognize (t.recognize st.stream).2 := by
    rw [t.recognize_determined determined, u.recognize_determined determined', ← Terminal.readIf_or, ← funext union]
    rfl
  rw [marked_recognize, marked_recognize, marked_recognize]
  simp only [looking, joined]
  rcases t.recognize st.stream with ⟨_ | _, s⟩ <;> rfl

end Reduction

namespace Recognizer

/-- The recognizer over another grammar. -/
def withGrammar (r : Recognizer H S τ) (g : Grammar) : Recognizer H S τ := { r with grammar := g }

theorem projects_silent (r : Recognizer H S τ) : Projects id (fun _ => ()) r (r.withObserver .silent) where
  grammar := rfl
  memoize := rfl
  start _ := rfl
  commit _ := rfl
  rollback _ := rfl
  save _ := rfl
  load _ _ := rfl
  handle name st := by
    simp only [handle, withObserver]
    cases r.handlers.find? name with
    | none => rfl
    | some handler =>
      simp only [State.image, id_eq]
      rcases handler st.stream.context st.host with ⟨_ | _, host⟩ <;> rfl
  observer _ _ _ := rfl

theorem expressionBy_congr {r : Recognizer H S τ} {leaf : Terminal → Stream → Bool × Stream}
    {sub sub' : Rule → State H S τ → Reduction H S τ} {i : Nat} {e : Expr}
    (parts : ∀ child ∈ e.children, sub (.expression child) = sub' (.expression child))
    (targets : ∀ index, sub (.production index) = sub' (.production index)) :
    r.expressionBy leaf sub i e = r.expressionBy leaf sub' i e := by
  have only {child : Nat} (alone : e.children = [child]) : sub (.expression child) = sub' (.expression child) :=
    parts child (alone ▸ List.mem_singleton_self child)
  cases e with
  | terminal t => rfl
  | reference target memo => simp only [expressionBy, expression, targets]
  | action child name bound => simp only [expressionBy, expression, only rfl]
  | undo child => simp only [expressionBy, expression, only rfl]
  | sequence children => exact congrArg Reduction.marked (Reduction.inSequence_congr parts)
  | choice children => exact Reduction.inOrder_congr parts
  | repetition child min max => simp only [expressionBy, expression, only rfl]
  | lookahead child sign => simp only [expressionBy, expression, only rfl]

section

variable (r : Recognizer H S Unit) (leaf : Terminal → Stream → Bool × Stream)

theorem observing_unit (rule : Rule) (step : State H S Unit → Reduction H S Unit) : r.observing rule step = step := by
  funext st
  change (step st).always (fun v st => .ok (v, st)) = step st
  rcases step st with fault | ⟨v, st⟩ <;> rfl

theorem expressionBy_withGrammar (g : Grammar) (sub : Rule → State H S Unit → Reduction H S Unit) (i : Nat) (e : Expr) :
    (r.withGrammar g).expressionBy leaf sub i e = r.expressionBy leaf sub i e := by
  cases e <;> rfl

end

end Recognizer

end Packrat
