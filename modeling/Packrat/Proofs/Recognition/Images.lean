import Packrat.Recognition.Reduce

/-! # Images of a recognizer

A recognizer can be looked at through maps of its host and of what is observed. If scopes, handlers and the observer
agree with the maps, then another recognizer does to the image of a state what this one does to the state itself
(`Projects.reduceBy`). This holds for every way of matching terminals.
-/

namespace Packrat

variable {H K S τ σ : Type}

namespace State

/-- The state with other eyes for its host and for what was observed. -/
def image (host : H → K) (seen : τ → σ) (st : State H S τ) : State K S σ :=
  ⟨st.stream, host st.host, st.memo, seen st.observed⟩

end State

def Reduction.image (host : H → K) (seen : τ → σ) (reduction : Reduction H S τ) : Reduction K S σ :=
  reduction.map fun answer => (answer.1, answer.2.image host seen)

/-- A look at the text decides. -/
def Reduction.looking (look : Stream → Bool × Stream) (st : State H S τ) : Reduction H S τ :=
  .ok (.ofBool (look st.stream).1, { st with stream := (look st.stream).2 })

namespace Recognizer

section

variable (leaf : Terminal → Stream → Bool × Stream) (r : Recognizer H S τ)

/-- Reduces an expression, terminals by `leaf`. -/
def expressionBy (sub : Rule → State H S τ → Reduction H S τ) (i : Nat) : Expr → State H S τ → Reduction H S τ
  | .terminal t => Reduction.looking (leaf t)
  | e => r.expression sub i e

/-- Reduces a rule, terminals by `leaf`. -/
def reduceBy : (depth : Nat) → Rule → State H S τ → Reduction H S τ
  | 0, _, _ => .error .tooDeep
  | depth + 1, .production index, st =>
    match r.grammar.root? index with
    | none => .error (.dangling (.production index))
    | some root => r.observing (.production index) (Reduction.marked (reduceBy depth (.expression root))) st
  | depth + 1, .expression i, st =>
    match r.grammar.expr? i with
    | none => .error (.dangling (.expression i))
    | some e => r.observing (.expression i) (r.expressionBy leaf (reduceBy depth) i e) st

end

theorem reduceBy_recognize (r : Recognizer H S τ) : r.reduceBy (fun t s => t.recognize s) = r.reduce := by
  funext depth
  induction depth with
  | zero => rfl
  | succ depth ih =>
    funext rule st
    cases rule with
    | production index =>
      cases defined : r.grammar.root? index with
      | none => simp only [reduceBy, reduce, defined]
      | some root => simp only [reduceBy, reduce, defined, ih]
    | expression i =>
      cases present : r.grammar.expr? i with
      | none => simp only [reduceBy, reduce, present]
      | some e =>
        simp only [reduceBy, reduce, present, ih]
        cases e <;> rfl

/-- The recognizer `q` does to images what `r` does. -/
structure Projects (host : H → K) (seen : τ → σ) (r : Recognizer H S τ) (q : Recognizer K S σ) : Prop where
  grammar : q.grammar = r.grammar
  memoize : q.memoize = r.memoize
  start (h : H) : q.transaction.start (host h) = host (r.transaction.start h)
  commit (h : H) : q.transaction.commit (host h) = host (r.transaction.commit h)
  rollback (h : H) : q.transaction.rollback (host h) = host (r.transaction.rollback h)
  save (h : H) : q.transaction.save (host h) = ((r.transaction.save h).1, host (r.transaction.save h).2)
  load (snapshot : S) (h : H) : q.transaction.load snapshot (host h) = host (r.transaction.load snapshot h)
  handle (name : String) (st : State H S τ) :
    q.handle name (st.image host seen) = (r.handle name st).image host seen
  observer (s : Stream) (event : Event) (w : τ) :
    q.observer q.grammar s event (seen w) = seen (r.observer r.grammar s event w)

/-- The two steps do the same to a state and to its image. -/
private def Agree (host : H → K) (seen : τ → σ) (step : State H S τ → Reduction H S τ)
    (plain : State K S σ → Reduction K S σ) : Prop :=
  ∀ st, (step st).image host seen = plain (st.image host seen)

section

variable {host : H → K} {seen : τ → σ} {step next : State H S τ → Reduction H S τ}
  {plain plain' : State K S σ → Reduction K S σ} {closing : Verdict → State H S τ → Reduction H S τ}
  {closing' : Verdict → State K S σ → Reduction K S σ}

private theorem Agree.always (agree : Agree host seen step plain)
    (closes : ∀ v, Agree host seen (closing v) (closing' v)) :
    Agree host seen (fun st => Reduction.always (step st) closing) fun st => Reduction.always (plain st) closing' := by
  intro st
  dsimp only
  rw [← agree st]
  rcases step st with fault | ⟨v, middle⟩
  · rfl
  · exact closes v middle

private theorem Agree.andThen (agree : Agree host seen step plain) (goesOn : Agree host seen next plain') :
    Agree host seen (fun st => Reduction.andThen (step st) next) fun st => Reduction.andThen (plain st) plain' := by
  intro st
  dsimp only
  rw [← agree st]
  rcases step st with fault | ⟨v, middle⟩
  · rfl
  · cases v with
    | matched => exact goesOn middle
    | failed | aborted => rfl

private theorem Agree.otherwise (agree : Agree host seen step plain) (goesOn : Agree host seen next plain') :
    Agree host seen (fun st => Reduction.otherwise (step st) next) fun st =>
      Reduction.otherwise (plain st) plain' := by
  intro st
  dsimp only
  rw [← agree st]
  rcases step st with fault | ⟨v, middle⟩
  · rfl
  · cases v with
    | failed => exact goesOn middle
    | matched | aborted => rfl

private theorem image_release (st : State H S τ) :
    st.release.map (State.image host seen) = (st.image host seen).release := by
  simp only [State.release, State.image]
  cases st.stream.release <;> rfl

private theorem image_reset (st : State H S τ) :
    st.reset.map (State.image host seen) = (st.image host seen).reset := by
  simp only [State.reset, State.image]
  cases st.stream.reset <;> rfl

private theorem agree_settle (v : Verdict) : Agree host seen (State.settle v : State H S τ → _) (State.settle v) := by
  intro st
  cases v with
  | matched =>
    rw [State.settle, State.settle, ← image_release]
    cases st.release <;> rfl
  | failed | aborted =>
    rw [State.settle, State.settle, ← image_reset]
    · cases st.reset <;> rfl
    all_goals simp

private theorem Agree.marked (agree : Agree host seen step plain) :
    Agree host seen (Reduction.marked step) (Reduction.marked plain) :=
  Agree.always (fun st => agree st.mark) agree_settle

private theorem agree_inSequence {α : Type} {steps : α → State H S τ → Reduction H S τ}
    {plains : α → State K S σ → Reduction K S σ} (agree : ∀ a, Agree host seen (steps a) (plains a))
    (items : List α) : Agree host seen (Reduction.inSequence steps items) (Reduction.inSequence plains items) := by
  induction items with
  | nil => exact fun _ => rfl
  | cons a rest ih => exact (agree a).andThen ih

private theorem agree_inOrder {α : Type} {steps : α → State H S τ → Reduction H S τ}
    {plains : α → State K S σ → Reduction K S σ} (agree : ∀ a, Agree host seen (steps a) (plains a))
    (items : List α) : Agree host seen (Reduction.inOrder steps items) (Reduction.inOrder plains items) := by
  induction items with
  | nil => exact fun _ => rfl
  | cons a rest ih => exact (agree a).marked.otherwise ih

private theorem agree_exactly (agree : Agree host seen step plain) (count : Nat) :
    Agree host seen (Reduction.exactly step count) (Reduction.exactly plain count) := by
  induction count with
  | zero => exact fun _ => rfl
  | succ count ih => exact agree.andThen ih

private theorem agree_atMost (agree : Agree host seen step plain) (stopOnEmpty : Bool) (count : Nat) :
    Agree host seen (Reduction.atMost step stopOnEmpty count) (Reduction.atMost plain stopOnEmpty count) := by
  induction count with
  | zero => exact fun _ => rfl
  | succ count ih =>
    intro st
    rw [Reduction.atMost, Reduction.atMost, ← agree st]
    rcases step st with fault | ⟨v, middle⟩
    · rfl
    · cases v with
      | failed | aborted => rfl
      | matched =>
        change (if stopOnEmpty && middle.stream.position.offset == st.stream.position.offset then
            .ok (.matched, middle) else Reduction.atMost step stopOnEmpty count middle : Reduction _ S τ).image _ _ =
          if stopOnEmpty && middle.stream.position.offset == st.stream.position.offset then
            .ok (.matched, middle.image host seen)
          else Reduction.atMost plain stopOnEmpty count (middle.image host seen)
        split
        · rfl
        · exact ih middle

private theorem Agree.lookahead (agree : Agree host seen step plain) (sign : Lookahead) :
    Agree host seen (Recognizer.lookahead step sign) (Recognizer.lookahead plain sign) := by
  refine Agree.always (fun st => agree st.mark) fun v st => ?_
  cases sign <;> dsimp only <;> rw [← image_reset] <;> cases st.reset <;> rfl

end

namespace Projects

variable {host : H → K} {seen : τ → σ} {r : Recognizer H S τ} {q : Recognizer K S σ}
  {step next : State H S τ → Reduction H S τ} {plain plain' : State K S σ → Reduction K S σ}

theorem image_note (projects : Projects host seen r q) (event : Event) (st : State H S τ) :
    (r.note event st).image host seen = q.note event (st.image host seen) := by
  simp only [note, State.image, projects.observer]

theorem image_openScope (projects : Projects host seen r q) (st : State H S τ) :
    (r.openScope st).image host seen = q.openScope (st.image host seen) := by
  simp only [openScope, State.image, State.mark, projects.start]

theorem image_replay (projects : Projects host seen r q) (reference : Nat) (entry : Memo.Entry S)
    (st : State H S τ) :
    (r.replay reference entry st).image host seen = q.replay reference entry (st.image host seen) := by
  unfold replay
  rw [projects.image_note]
  cases entry.snapshot with
  | none => rfl
  | some snapshot =>
    simp only [State.image]
    rw [projects.load]

private theorem closeScope (projects : Projects host seen r q) (v : Verdict) :
    Agree host seen (r.closeScope v) (q.closeScope v) := by
  intro st
  refine (agree_settle v _).trans (congrArg (State.settle v) ?_)
  cases v with
  | matched => simp only [State.image, projects.commit]
  | failed | aborted => simp only [State.image, projects.rollback]

private theorem remember (projects : Projects host seen r q) (reference target offset : Nat) :
    Agree host seen (r.remember reference target offset) (q.remember reference target offset) := by
  intro st
  simp only [Recognizer.remember, State.image, State.release, projects.save, projects.commit]
  cases st.stream.release with
  | error e => rfl
  | ok stream =>
    simp only [Reduction.image, Except.map, projects.image_note]
    rfl

private theorem action (projects : Projects host seen r q) (agree : Agree host seen step plain)
    (accepts : Agree host seen next plain') : Agree host seen (r.action next step) (q.action plain' plain) := by
  have entered : Agree host seen (fun st => step (r.openScope st)) fun st => plain (q.openScope st) := by
    intro st
    rw [agree, projects.image_openScope]
  exact (entered.andThen accepts).always projects.closeScope

private theorem remembered (projects : Projects host seen r q) (agree : Agree host seen step plain)
    (reference target : Nat) :
    Agree host seen (r.remembered reference target step) (q.remembered reference target plain) := by
  intro st
  have entered : Agree host seen (fun st => step (r.openScope (r.note (.lookedUp reference false) st)))
      fun st => plain (q.openScope (q.note (.lookedUp reference false) st)) := by
    intro st
    rw [agree, projects.image_openScope, projects.image_note]
  have memo : (st.image host seen).memo.get? target (st.image host seen).stream.position.offset =
      st.memo.get? target st.stream.position.offset := rfl
  rw [Recognizer.remembered, Recognizer.remembered, memo]
  cases st.memo.get? target st.stream.position.offset with
  | some entry =>
    exact congrArg (fun st => Except.ok (Verdict.matched, st)) (projects.image_replay reference entry st)
  | none =>
    refine entered.always (fun v => ?_) st
    cases v with
    | matched => exact projects.remember reference target _
    | failed => exact projects.closeScope .failed
    | aborted e => exact projects.closeScope (.aborted e)

private theorem observing (projects : Projects host seen r q) (agree : Agree host seen step plain) (rule : Rule) :
    Agree host seen (r.observing rule step) (q.observing rule plain) := by
  have entered : Agree host seen (fun st => step (r.note (.entered rule) st))
      fun st => plain (q.note (.entered rule) st) := by
    intro st
    rw [agree, projects.image_note]
  exact entered.always fun v st => congrArg (fun st => Except.ok (v, st)) (projects.image_note _ st)

private theorem expressionBy (projects : Projects host seen r q) (leaf : Terminal → Stream → Bool × Stream)
    {sub : Rule → State H S τ → Reduction H S τ} {plains : Rule → State K S σ → Reduction K S σ}
    (agree : ∀ rule, Agree host seen (sub rule) (plains rule)) (i : Nat) (e : Expr) :
    Agree host seen (r.expressionBy leaf sub i e) (q.expressionBy leaf plains i e) := by
  cases e with
  | terminal t => exact fun _ => rfl
  | reference target memo =>
    change Agree host seen (r.expression sub i (.reference target memo)) (q.expression plains i (.reference target memo))
    rw [expression, expression, projects.memoize]
    split
    · exact projects.remembered (agree _) i target
    · exact (agree _).marked
  | action child name bound => exact projects.action (agree _) (projects.handle name · |>.symm)
  | undo child => exact projects.action (agree _) fun _ => rfl
  | sequence children => exact (agree_inSequence (fun child => agree (.expression child)) children).marked
  | choice children => exact agree_inOrder (fun child => agree (.expression child)) children
  | repetition child min max =>
    exact ((agree_exactly (agree _) min).andThen (agree_atMost (agree _) _ _)).marked
  | lookahead child sign => exact (agree _).lookahead sign

/-- The image of what a recognizer answers is what the other one answers to the image. -/
theorem reduceBy (projects : Projects host seen r q) (leaf : Terminal → Stream → Bool × Stream) (depth : Nat)
    (rule : Rule) (st : State H S τ) :
    (r.reduceBy leaf depth rule st).image host seen = q.reduceBy leaf depth rule (st.image host seen) := by
  induction depth generalizing rule st with
  | zero => rfl
  | succ depth ih =>
    cases rule with
    | production index =>
      simp only [Recognizer.reduceBy, projects.grammar]
      cases r.grammar.root? index with
      | none => rfl
      | some root => exact projects.observing (Agree.marked (ih (.expression root))) (.production index) st
    | expression i =>
      simp only [Recognizer.reduceBy, projects.grammar]
      cases r.grammar.expr? i with
      | none => rfl
      | some e => exact projects.observing (projects.expressionBy leaf ih i e) (.expression i) st

theorem reduce (projects : Projects host seen r q) (depth : Nat) (rule : Rule) (st : State H S τ) :
    (r.reduce depth rule st).image host seen = q.reduce depth rule (st.image host seen) := by
  rw [← reduceBy_recognize, ← reduceBy_recognize]
  exact projects.reduceBy _ depth rule st

end Projects

end Recognizer

end Packrat
