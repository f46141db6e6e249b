import Packrat.Proofs.Recognition.Progress

/-! # What a log tells

Observers have no say in a recognition, so whatever one of them sees, any other one would have seen too
(`Runs.reobserve`). Read from its beginning, a log tells which reductions there were: every rule that is left was
entered last among those not left yet (`Trail`). With each reduction its trail keeps where it started, whether it
matched, and the rules around it.
-/

namespace Packrat

abbrev Log := List (Event × Position)

/-- The expression is a lookahead of the grammar. -/
def Grammar.isLookahead (g : Grammar) : Rule → Bool
  | .expression i =>
    match g.expr? i with
    | some (.lookahead ..) => true
    | _ => false
  | .production _ => false

/-- The terminal that the rule consists of. -/
def Grammar.terminal? (g : Grammar) : Rule → Option Terminal
  | .expression i =>
    match g.expr? i with
    | some (.terminal t) => some t
    | _ => none
  | .production _ => none

/-- What is done between entering a rule and leaving it. -/
def Grammar.body? (g : Grammar) : Rule → Option Task
  | .production index => (g.root? index).map fun root => .marked (.rule (.expression root))
  | .expression i => (g.expr? i).map (.operator i)

/-- A rule that was reduced. -/
structure Reduced where
  rule : Rule
  start : Position
  success : Bool
  /-- The rules it was reduced in, the innermost first. -/
  around : List Rule

/-- A terminal that failed outside of lookaheads, with the place where it was reduced. -/
def Reduced.failure? (g : Grammar) (reduced : Reduced) : Option (Position × Terminal) :=
  if reduced.success || reduced.around.any g.isLookahead then none
  else (g.terminal? reduced.rule).map (reduced.start, ·)

/-- A use of the memo table by a reference. -/
structure MemoUse where
  reference : Nat
  start : Position
  /-- The rules around the reference, the innermost first. -/
  around : List Rule

/-- What a log tells so far. -/
structure Trail where
  /-- Rules that are not left yet with the places where they were entered, the innermost first. -/
  pending : List (Rule × Position) := []
  /-- The reductions in the order in which they ended. -/
  reduced : List Reduced := []
  stores : List MemoUse := []
  hits : List MemoUse := []

namespace Trail

/-- The innermost rule uses the memo table. -/
def use (trail : Trail) (reference : Nat) : Option MemoUse :=
  trail.pending.head?.map fun (_, start) => ⟨reference, start, trail.pending.tail.map Prod.fst⟩

def step (entry : Event × Position) (trail : Trail) : Trail :=
  match entry.1 with
  | .entered rule => { trail with pending := (rule, entry.2) :: trail.pending }
  | .left _ success =>
    match trail.pending with
    | [] => trail
    | (rule, start) :: pending =>
      { trail with pending, reduced := trail.reduced ++ [⟨rule, start, success, pending.map Prod.fst⟩] }
  | .stored reference => { trail with stores := trail.stores ++ (trail.use reference).toList }
  | .lookedUp reference true => { trail with hits := trail.hits ++ (trail.use reference).toList }
  | .lookedUp _ false | .opened | .closed _ => trail

/-- What a log tells whose last entry comes first. -/
def ofLog (log : Log) : Trail := log.foldr step {}

@[simp] theorem ofLog_cons (entry : Event × Position) (log : Log) : ofLog (entry :: log) = step entry (ofLog log) := rfl

/-- The terminals that failed outside of lookaheads, with the places where they were reduced, in the order of their
failures. -/
def failures (g : Grammar) (trail : Trail) : List (Position × Terminal) := trail.reduced.filterMap (Reduced.failure? g)

/-- The second trail has what the first one has, and maybe more. -/
structure Extends (trail trail' : Trail) : Prop where
  reduced : trail.reduced <+: trail'.reduced
  stores : trail.stores <+: trail'.stores
  hits : trail.hits <+: trail'.hits

theorem Extends.refl (trail : Trail) : trail.Extends trail := ⟨List.prefix_rfl, List.prefix_rfl, List.prefix_rfl⟩

theorem Extends.trans {trail trail' trail'' : Trail} (first : trail.Extends trail') (second : trail'.Extends trail'') :
    trail.Extends trail'' :=
  ⟨first.reduced.trans second.reduced, first.stores.trans second.stores, first.hits.trans second.hits⟩

theorem extends_step (entry : Event × Position) (trail : Trail) : trail.Extends (step entry trail) := by
  unfold step
  split
  · exact ⟨List.prefix_rfl, List.prefix_rfl, List.prefix_rfl⟩
  · split
    · exact .refl trail
    · exact ⟨List.prefix_append .., List.prefix_rfl, List.prefix_rfl⟩
  · exact ⟨List.prefix_rfl, List.prefix_append .., List.prefix_rfl⟩
  · exact ⟨List.prefix_rfl, List.prefix_rfl, List.prefix_append ..⟩
  all_goals exact .refl trail

theorem Extends.mem_failures {g : Grammar} {trail trail' : Trail} (extended : trail.Extends trail')
    {failure : Position × Terminal} (member : failure ∈ trail.failures g) : failure ∈ trail'.failures g :=
  (extended.reduced.filterMap _).subset member

end Trail

namespace State

variable {H S τ τ' : Type}

/-- The same state before the eyes of another observer. -/
def seenAs (st : State H S τ) (observed : τ') : State H S τ' := ⟨st.stream, st.host, st.memo, observed⟩

/-- What observers see of a state, and what they made of it. -/
def seen (st : State H S τ) : Stream × τ := (st.stream, st.observed)

/-- The trail of a state whose observer keeps a log. -/
def trail (log : τ → Log) (st : State H S τ) : Trail := .ofLog (log st.observed)

end State

namespace Recognizer

variable {H S τ τ' : Type} {r : Recognizer H S τ} {task : Task} {st st' : State H S τ} {v : Verdict}

/-- The recognizer with another observer. -/
def withObserver (r : Recognizer H S τ) (observer : Observer τ') : Recognizer H S τ' :=
  ⟨r.grammar, r.transaction, r.handlers, observer, r.memoize⟩

private theorem handle_seenAs {name : String} (observer : Observer τ') (w : τ')
    (answered : r.handle name st = .ok (v, st')) :
    st'.observed = st.observed ∧ (r.withObserver observer).handle name (st.seenAs w) = .ok (v, st'.seenAs w) := by
  cases found : r.handlers.find? name with
  | none =>
    simp only [handle, found] at answered
    cases answered
    exact ⟨rfl, by simp only [handle, withObserver, found]⟩
  | some handler =>
    simp only [handle, found] at answered
    rcases same : handler st.stream.context st.host with ⟨message | accepted, host⟩
    all_goals
      rw [same] at answered
      cases answered
      refine ⟨rfl, ?_⟩
      simp only [handle, withObserver, State.seenAs, found, same]

/-- Handlers are not observed. -/
theorem handle_observed {name : String} (answered : r.handle name st = .ok (v, st')) : st'.observed = st.observed :=
  (handle_seenAs r.observer st'.observed answered).1

/-- What an observer would have seen, as far as its state stays related to that of the observer that was there. -/
theorem Runs.reobserve (observer : Observer τ') (Related : τ → τ' → Prop)
    (keeps : ∀ {s event w w'}, Related w w' →
      Related (r.observer r.grammar s event w) (observer r.grammar s event w'))
    (run : r.Runs task st v st') {w : τ'} (related : Related st.observed w) :
    ∃ w', Related st'.observed w' ∧ (r.withObserver observer).Runs task (st.seenAs w) v (st'.seenAs w') := by
  induction run generalizing w with
  | @production index root st st' v defined _ ih =>
    obtain ⟨w', related, run⟩ := ih (keeps related)
    exact ⟨_, keeps related, @Runs.production _ _ _ _ _ _ (st.seenAs w) (st'.seenAs w') v defined run⟩
  | @expression i e st st' v present _ ih =>
    obtain ⟨w', related, run⟩ := ih (keeps related)
    exact ⟨_, keeps related, @Runs.expression _ _ _ _ _ _ (st.seenAs w) (st'.seenAs w') v present run⟩
  | @marked task st st' v _ ih =>
    obtain ⟨w', related, run⟩ := ih related
    exact ⟨w', related, @Runs.marked _ _ _ _ _ (st.seenAs w) (st'.seenAs w') v run⟩
  | terminal => exact ⟨w, related, .terminal⟩
  | reference plain _ ih =>
    obtain ⟨w', related, run⟩ := ih related
    exact ⟨w', related, .reference plain run⟩
  | @hit i target memo st entry memoized found =>
    exact ⟨_, keeps related, @Runs.hit _ _ _ _ _ _ _ (st.seenAs w) entry memoized found⟩
  | @store i target memo st st' memoized missing _ ih =>
    obtain ⟨w', related, run⟩ := ih (keeps related)
    exact ⟨_, keeps related, @Runs.store _ _ _ _ _ _ _ (st.seenAs w) (st'.seenAs w') memoized missing run⟩
  | @miss i target memo st st' v memoized missing _ unmatched ih =>
    obtain ⟨w', related, run⟩ := ih (keeps related)
    exact ⟨w', related, @Runs.miss _ _ _ _ _ _ _ (st.seenAs w) (st'.seenAs w') v memoized missing run unmatched⟩
  | @act i child name bound st st' st'' v _ answered ih =>
    obtain ⟨w', related, run⟩ := ih related
    obtain ⟨same, answered⟩ := handle_seenAs observer w' answered
    refine ⟨w', ?_, @Runs.act _ _ _ _ _ _ _ _ (st.seenAs w) _ (st''.seenAs w') v run answered⟩
    exact (congrArg (Related · w') same).mpr related
  | @idle i child name bound st st' v _ unmatched ih =>
    obtain ⟨w', related, run⟩ := ih related
    exact ⟨w', related, @Runs.idle _ _ _ _ _ _ _ _ (st.seenAs w) (st'.seenAs w') v run unmatched⟩
  | @undo i child st st' v _ ih =>
    obtain ⟨w', related, run⟩ := ih related
    exact ⟨w', related, @Runs.undo _ _ _ _ _ _ (st.seenAs w) (st'.seenAs w') v run⟩
  | sequence _ ih =>
    obtain ⟨w', related, run⟩ := ih related
    exact ⟨w', related, .sequence run⟩
  | choice _ ih =>
    obtain ⟨w', related, run⟩ := ih related
    exact ⟨w', related, .choice run⟩
  | repetition _ ih =>
    obtain ⟨w', related, run⟩ := ih related
    exact ⟨w', related, .repetition run⟩
  | @present i child st st' v _ ih =>
    obtain ⟨w', related, run⟩ := ih related
    exact ⟨w', related, @Runs.present _ _ _ _ _ _ (st.seenAs w) (st'.seenAs w') v run⟩
  | @absent i child st st' v _ ih =>
    obtain ⟨w', related, run⟩ := ih related
    exact ⟨w', related, @Runs.absent _ _ _ _ _ _ (st.seenAs w) (st'.seenAs w') v run⟩
  | allDone => exact ⟨w, related, .allDone⟩
  | allNext _ _ head tail =>
    obtain ⟨w', related, first⟩ := head related
    obtain ⟨w'', related, rest⟩ := tail related
    exact ⟨w'', related, .allNext first rest⟩
  | allStop _ unmatched ih =>
    obtain ⟨w', related, run⟩ := ih related
    exact ⟨w', related, .allStop run unmatched⟩
  | firstNone => exact ⟨w, related, .firstNone⟩
  | firstNext _ _ head tail =>
    obtain ⟨w', related, first⟩ := head related
    obtain ⟨w'', related, rest⟩ := tail related
    exact ⟨w'', related, .firstNext first rest⟩
  | firstStop _ decided ih =>
    obtain ⟨w', related, run⟩ := ih related
    exact ⟨w', related, .firstStop run decided⟩
  | repeatedEnough _ _ least more =>
    obtain ⟨w', related, first⟩ := least related
    obtain ⟨w'', related, rest⟩ := more related
    exact ⟨w'', related, .repeatedEnough first rest⟩
  | repeatedShort _ unmatched ih =>
    obtain ⟨w', related, run⟩ := ih related
    exact ⟨w', related, .repeatedShort run unmatched⟩
  | upToZero => exact ⟨w, related, .upToZero⟩
  | upToEmpty _ empty ih =>
    obtain ⟨w', related, run⟩ := ih related
    exact ⟨w', related, .upToEmpty run empty⟩
  | upToNext _ advanced _ body more =>
    obtain ⟨w', related, first⟩ := body related
    obtain ⟨w'', related, rest⟩ := more related
    exact ⟨w'', related, .upToNext first advanced rest⟩
  | upToEnd _ ih =>
    obtain ⟨w', related, run⟩ := ih related
    exact ⟨w', related, .upToEnd run⟩
  | upToAbort _ ih =>
    obtain ⟨w', related, run⟩ := ih related
    exact ⟨w', related, .upToAbort run⟩

/-- What is done in a rule goes back where it does not match. -/
theorem Runs.restored_of_body {rule : Rule} (run : r.Runs task st v st') (does : r.grammar.body? rule = some task)
    (failed : v.isMatched = false) : st'.stream.position = st.stream.position := by
  have restores : task.restores = true := by
    cases rule <;> obtain ⟨_, -, rfl⟩ := Option.map_eq_some_iff.mp does <;> rfl
  refine run.restored restores ?_
  rintro rfl
  cases failed

/-- What rules do around what is done in them, and what terminals, marks and uses of the memo table do, a run does. -/
theorem Runs.seen_induction {motive : Stream × τ → Stream × τ → Prop} (place : Stream → Prop)
    (run : r.Runs task st v st') (start : place st.stream) (mark : ∀ {s}, place s → place s.mark)
    (stays : ∀ {task st v st'}, r.Runs task st v st' → place st.stream → place st'.stream)
    (refl : ∀ x, motive x x) (trans : ∀ {x y z}, motive x y → motive y z → motive x z)
    (recognize : ∀ {s w} (t : Terminal), place s → motive (s, w) ((t.recognize s).2, w))
    (skip : ∀ {s w} (count : Nat), place s → motive (s, w) ((s.skip count).2, w))
    (lookedUp : ∀ {s w i hit}, r.memoize = true → motive (s, w) (s, r.observer r.grammar s (.lookedUp i hit) w))
    (stored : ∀ {s w i}, r.memoize = true → motive (s, w) (s, r.observer r.grammar s (.stored i) w))
    (settled : ∀ {st st' : State H S τ} {v}, st'.stream.marks = st.mark.stream.marks → motive st.mark.seen st'.seen →
      motive st.seen (st.settled v st').seen)
    (rule : ∀ {rule body st st' v}, r.grammar.body? rule = some body → r.Runs body (r.note (.entered rule) st) v st' →
      place st.stream → motive (r.note (.entered rule) st).seen st'.seen →
      motive st.seen (r.note (.left rule v.isMatched) st').seen) :
    motive st.seen st'.seen := by
  have remembers {memo : Bool} (memoized : (memo && r.memoize) = true) : r.memoize = true :=
    (Bool.and_eq_true_iff.mp memoized).2
  induction run with
  | @production index root st st' v defined run ih =>
    exact @rule (.production index) _ _ _ _ (congrArg (Option.map _) defined) run start (ih start)
  | @expression i e st st' v present run ih =>
    exact @rule (.expression i) _ _ _ _ (congrArg (Option.map _) present) run start (ih start)
  | marked run ih => exact settled run.marks (ih (mark start))
  | terminal => exact recognize _ start
  | reference _ _ ih => exact ih start
  | hit memoized => exact trans (skip _ start) (lookedUp (remembers memoized))
  | @store i target memo st st' memoized _ run ih =>
    have missed := @settled (r.note (.lookedUp i false) st) _ .matched run.marks (ih (mark start))
    exact trans (trans (lookedUp (remembers memoized)) missed) (stored (remembers memoized))
  | @miss i target memo st st' v memoized _ run _ ih =>
    have missed := @settled (r.note (.lookedUp i false) st) _ v run.marks (ih (mark start))
    exact trans (lookedUp (remembers memoized)) missed
  | @act i child name bound st st' st'' v run answered ih =>
    have same : st''.seen = st'.seen := by
      rw [State.seen, handle_stream answered, handle_observed answered, State.seen]
    have balanced : st''.stream.marks = st.mark.stream.marks := by
      rw [handle_stream answered]
      exact run.marks
    exact @settled _ _ v balanced (same ▸ ih (mark start))
  | @idle i child name bound st st' v run _ ih =>
    exact @settled st st' v run.marks (ih (mark start))
  | @undo i child st st' v run ih => exact @settled st st' v run.marks (ih (mark start))
  | sequence _ ih => exact ih start
  | choice _ ih => exact ih start
  | repetition _ ih => exact ih start
  | present run ih => exact settled run.marks (ih (mark start))
  | absent run ih => exact settled run.marks (ih (mark start))
  | allNext run _ head tail => exact trans (head start) (tail (stays run start))
  | firstNext run _ head tail => exact trans (head start) (tail (stays run start))
  | repeatedEnough run _ least more => exact trans (least start) (more (stays run start))
  | upToNext run _ _ body more => exact trans (body start) (more (stays run start))
  | allDone | firstNone | upToZero => exact refl _
  | allStop _ _ ih => exact ih start
  | firstStop _ _ ih => exact ih start
  | repeatedShort _ _ ih => exact ih start
  | upToEmpty _ _ ih => exact ih start
  | upToEnd _ ih => exact ih start
  | upToAbort _ ih => exact ih start

/-- What rules do to an observer around what is done in them, and what each use of the memo table does, a run does. -/
theorem Runs.observed_induction {motive : τ → τ → Prop} (place : Stream → Prop) (run : r.Runs task st v st')
    (start : place st.stream) (mark : ∀ {s}, place s → place s.mark)
    (stays : ∀ {task st v st'}, r.Runs task st v st' → place st.stream → place st'.stream)
    (refl : ∀ w, motive w w) (trans : ∀ {w w' w''}, motive w w' → motive w' w'' → motive w w'')
    (lookedUp : ∀ {s i hit w}, r.memoize = true → motive w (r.observer r.grammar s (.lookedUp i hit) w))
    (stored : ∀ {s i w}, r.memoize = true → motive w (r.observer r.grammar s (.stored i) w))
    (rule : ∀ {rule success s s' w w'}, place s → (success = false → s'.position = s.position) →
      motive (r.observer r.grammar s (.entered rule) w) w' →
      motive w (r.observer r.grammar s' (.left rule success) w')) :
    motive st.observed st'.observed := by
  refine run.seen_induction (motive := fun x y => motive x.2 y.2) place start mark stays (fun _ => refl _) trans
    (fun _ _ => refl _) (fun _ _ => refl _) lookedUp stored (fun _ inside => inside) ?_
  exact fun does run start inside => rule start (run.restored_of_body does) inside

/-- The observer keeps a log beside other things. -/
def Logs (r : Recognizer H S τ) (log : τ → Log) : Prop :=
  ∀ s event w, log (r.observer r.grammar s event w) = (event, s.position) :: log w

variable {log : τ → Log}

theorem Logs.trail_note (logs : r.Logs log) (event : Event) (st : State H S τ) :
    (r.note event st).trail log = Trail.step (event, st.stream.position) (st.trail log) := by
  rw [State.trail, note, logs, Trail.ofLog_cons]
  rfl

/-- A run leaves the rules that it enters. -/
theorem Runs.pending (run : r.Runs task st v st') (logs : r.Logs log) :
    (st'.trail log).pending = (st.trail log).pending := by
  refine Runs.observed_induction
    (motive := fun w w' => (Trail.ofLog (log w')).pending = (Trail.ofLog (log w)).pending)
    (fun _ => True) run trivial (fun _ => trivial) (fun _ _ => trivial) (fun _ => rfl)
    (fun first second => second.trans first) ?_ ?_ ?_
  · intro s i hit w _
    rw [logs, Trail.ofLog_cons]
    cases hit <;> rfl
  · intro s i w _
    rw [logs, Trail.ofLog_cons]
    rfl
  · intro rule success s s' w w' _ _ inside
    rw [logs, Trail.ofLog_cons] at inside ⊢
    simp only [Trail.step] at inside ⊢
    rw [inside]

theorem Runs.extends (run : r.Runs task st v st') (logs : r.Logs log) : (st.trail log).Extends (st'.trail log) := by
  refine Runs.observed_induction (motive := fun w w' => (Trail.ofLog (log w)).Extends (Trail.ofLog (log w')))
    (fun _ => True) run trivial (fun _ => trivial) (fun _ _ => trivial) (fun _ => .refl _)
    (fun first second => first.trans second) ?_ ?_ ?_
  · intro s i hit w _
    rw [logs, Trail.ofLog_cons]
    exact Trail.extends_step ..
  · intro s i w _
    rw [logs, Trail.ofLog_cons]
    exact Trail.extends_step ..
  · intro rule success s s' w w' _ _ inside
    rw [logs, Trail.ofLog_cons] at inside ⊢
    exact (Trail.extends_step ..).trans (inside.trans (Trail.extends_step ..))

/-- Without memoization nothing is recalled. -/
theorem Runs.hits_of_plain (run : r.Runs task st v st') (logs : r.Logs log) (plain : r.memoize = false) :
    (st'.trail log).hits = (st.trail log).hits := by
  refine Runs.observed_induction (motive := fun w w' => (Trail.ofLog (log w')).hits = (Trail.ofLog (log w)).hits)
    (fun _ => True) run trivial (fun _ => trivial) (fun _ _ => trivial) (fun _ => rfl)
    (fun first second => second.trans first) ?_ ?_ ?_
  · intro s i hit w memoized
    cases plain.symm.trans memoized
  · intro s i w memoized
    cases plain.symm.trans memoized
  · intro rule success s s' w w' _ _ inside
    rw [logs, Trail.ofLog_cons] at inside ⊢
    refine Eq.trans ?_ inside
    simp only [Trail.step]
    split <;> rfl

end Recognizer

end Packrat
