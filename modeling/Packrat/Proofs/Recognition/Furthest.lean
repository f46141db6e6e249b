import Packrat.Proofs.Recognition.Trail
import Packrat.Proofs.Recognition.Transparency

/-! # The furthest failure

While rules are entered and left, the observer of failures keeps what the failed terminals of the trail tell: the
furthest place where one was reduced, and those that failed there. So the error of a recognition that fails is a
function of its log and of the text.
-/

namespace Packrat

/-- The terminals that failed at the offset, in the order in which each of them failed first. -/
def failedAt (failures : List (Position × Terminal)) (offset : Nat) : List Terminal :=
  ((failures.filter fun failure => failure.1.offset == offset).map Prod.snd).eraseDups

/-- The error of a recognition of `text` from `start` tells the furthest of the failures. -/
structure SyntaxError.Furthest (e : SyntaxError) (start : Position) (text : List Char)
    (failures : List (Position × Terminal)) : Prop where
  none : failures = [] → e.farthest = start ∧ e.expected = []
  place : failures ≠ [] → (∃ t, (e.farthest, t) ∈ failures) ∧
    ∀ failure ∈ failures, failure.1.offset ≤ e.farthest.offset
  expected : e.expected = failedAt failures e.farthest.offset
  found : e.found = String.ofList (text[e.farthest.offset]?.elim [] (Escape.char '`'))
  ended : e.found = "" ↔ e.farthest.offset = text.length

theorem Grammar.terminal?_of_isLookahead {g : Grammar} {rule : Rule} (lookahead : g.isLookahead rule = true) :
    g.terminal? rule = none := by
  cases rule with
  | production => rfl
  | expression i =>
    rcases found : g.expr? i with _ | e
    · simp [Grammar.terminal?, found]
    · cases e <;> simp_all [Grammar.isLookahead, Grammar.terminal?]

namespace Farthest

variable {f : Farthest} {failures : List (Position × Terminal)} {p : Position} {t : Terminal}

/-- What is kept is the furthest of the failures. -/
def Tells (f : Farthest) (failures : List (Position × Terminal)) : Prop :=
  match f.position with
  | none => failures = [] ∧ f.expected = []
  | some furthest =>
    (∃ t, (furthest, t) ∈ failures) ∧ (∀ failure ∈ failures, failure.1.offset ≤ furthest.offset) ∧
      f.expected = failedAt failures furthest.offset

/-- A terminal joins those that failed at the offset unless it is one of them. -/
private theorem failedAt_concat (failures : List (Position × Terminal)) (p : Position) (t : Terminal) :
    failedAt (failures ++ [(p, t)]) p.offset =
      if (failedAt failures p.offset).contains t then failedAt failures p.offset
      else failedAt failures p.offset ++ [t] := by
  have last : [(p, t)].filter (fun failure => failure.1.offset == p.offset) = [(p, t)] := by simp
  simp only [failedAt, List.filter_append, last, List.map_append, List.map_cons, List.map_nil, List.eraseDups_append]
  by_cases known : t ∈ (failures.filter fun failure => failure.1.offset == p.offset).map Prod.snd
  · simp [List.removeAll, known]
  · simp [List.removeAll, known, List.eraseDups_cons]

private theorem failedAt_concat_of_ne {offset : Nat} (other : p.offset ≠ offset) :
    failedAt (failures ++ [(p, t)]) offset = failedAt failures offset := by
  simp [failedAt, other]

private theorem failedAt_of_lt {offset : Nat} (before : ∀ failure ∈ failures, failure.1.offset < offset) :
    failedAt failures offset = [] := by
  have none : failures.filter (fun failure => failure.1.offset == offset) = [] := by
    rw [List.filter_eq_nil_iff]
    intro failure member same
    exact Nat.ne_of_lt (before failure member) (beq_iff_eq.mp same)
  rw [failedAt, none]
  rfl

/-- A failure at a new furthest place. -/
private theorem tells_of_lt (before : ∀ failure ∈ failures, failure.1.offset < p.offset) :
    ({ f with position := some p, expected := [t] } : Farthest).Tells (failures ++ [(p, t)]) := by
  refine ⟨⟨t, List.mem_append_right _ (List.mem_singleton_self _)⟩, fun failure member => ?_, ?_⟩
  · rcases List.mem_append.mp member with member | last
    · exact Nat.le_of_lt (before failure member)
    · obtain rfl := List.mem_singleton.mp last
      exact Nat.le_refl _
  · dsimp only
    rw [failedAt_concat, failedAt_of_lt before]
    rfl

theorem Tells.fail (tells : f.Tells failures) (p : Position) (t : Terminal) :
    (f.fail p t).Tells (failures ++ [(p, t)]) := by
  unfold Tells at tells
  cases place : f.position with
  | none =>
    rw [place] at tells
    obtain ⟨rfl, -⟩ := tells
    have first : f.fail p t = { f with position := some p, expected := [t] } := by
      simp [Farthest.fail, place]
    rw [first]
    exact tells_of_lt nofun
  | some furthest =>
    rw [place] at tells
    obtain ⟨⟨u, met⟩, furthest_le, expected⟩ := tells
    rcases Nat.lt_trichotomy furthest.offset p.offset with further | same | nearer
    · have first : f.fail p t = { f with position := some p, expected := [t] } := by
        simp [Farthest.fail, place, further]
      rw [first]
      exact tells_of_lt fun failure member => Nat.lt_of_le_of_lt (furthest_le failure member) further
    · have joined : f.fail p t =
          { f with expected := if f.expected.contains t then f.expected else f.expected ++ [t] } := by
        obtain ⟨position, terminals, lookaheads⟩ := f
        obtain rfl : position = some furthest := place
        simp only [Farthest.fail, same, Nat.lt_irrefl, ↓reduceIte, decide_false, Bool.false_or]
        split <;> rfl
      rw [joined, Tells, place]
      refine ⟨⟨u, List.mem_append_left _ met⟩, fun failure member => ?_, ?_⟩
      · rcases List.mem_append.mp member with member | last
        · exact furthest_le failure member
        · rw [List.mem_singleton.mp last]
          exact Nat.le_of_eq same.symm
      · dsimp only
        rw [expected, same, failedAt_concat]
    · have kept : f.fail p t = f := by
        simp [Farthest.fail, place, nearer, Nat.not_lt_of_lt nearer]
      rw [kept, Tells, place]
      refine ⟨⟨u, List.mem_append_left _ met⟩, fun failure member => ?_, ?_⟩
      · rcases List.mem_append.mp member with member | last
        · exact furthest_le failure member
        · rw [List.mem_singleton.mp last]
          exact Nat.le_of_lt nearer
      · rw [expected, failedAt_concat_of_ne (Nat.ne_of_lt nearer)]

/-- Where nothing failed, the place is the start. -/
theorem Tells.place (tells : f.Tells failures) (start : Position) :
    (failures = [] → f.position.getD start = start ∧ f.expected = []) ∧
      (failures ≠ [] → (∃ t, (f.position.getD start, t) ∈ failures) ∧
        ∀ failure ∈ failures, failure.1.offset ≤ (f.position.getD start).offset) ∧
      f.expected = failedAt failures (f.position.getD start).offset := by
  unfold Tells at tells
  cases place : f.position with
  | none =>
    rw [place] at tells
    obtain ⟨rfl, expected⟩ := tells
    exact ⟨fun _ => ⟨rfl, expected⟩, fun some => absurd rfl some, expected⟩
  | some furthest =>
    rw [place] at tells
    obtain ⟨met, furthest_le, expected⟩ := tells
    refine ⟨?_, fun _ => ⟨met, furthest_le⟩, expected⟩
    rintro rfl
    obtain ⟨t, member⟩ := met
    cases member

theorem observe_entered (g : Grammar) (s : Stream) (rule : Rule) (f : Farthest) :
    observe g s (.entered rule) f =
      { f with lookaheads := f.lookaheads + if g.isLookahead rule then 1 else 0 } := by
  cases rule with
  | production => rfl
  | expression i =>
    rcases found : g.expr? i with _ | e
    · simp [observe, Grammar.isLookahead, found]
    · cases e <;> simp [observe, Grammar.isLookahead, found]

/-- A lookahead is closed, and a terminal that fails outside of lookaheads is noted. -/
theorem observe_left (g : Grammar) (s : Stream) (rule : Rule) (success : Bool) (f : Farthest) :
    observe g s (.left rule success) f =
      if g.isLookahead rule then { f with lookaheads := f.lookaheads - 1 }
      else (g.terminal? rule).elim f fun t => if f.lookaheads = 0 && !success then f.fail s.position t else f := by
  cases rule with
  | production => rfl
  | expression i =>
    rcases found : g.expr? i with _ | e
    · simp [observe, Grammar.isLookahead, Grammar.terminal?, found]
    · cases e <;> simp [observe, Grammar.isLookahead, Grammar.terminal?, found]

@[simp] theorem fail_lookaheads : (f.fail p t).lookaheads = f.lookaheads := by
  unfold Farthest.fail
  cases f.position <;> grind

/-- The rules around the one that is left are open lookaheads as often as the observer counts. -/
private theorem tells_left {g : Grammar} {s : Stream} {rule : Rule} {success : Bool} {start : Position}
    {around : List Rule} (count : f.lookaheads = around.countP g.isLookahead + if g.isLookahead rule then 1 else 0)
    (back : success = false → s.position = start) (tells : f.Tells failures) :
    (observe g s (.left rule success) f).lookaheads = around.countP g.isLookahead ∧
      (observe g s (.left rule success) f).Tells
        (failures ++ (Reduced.failure? g ⟨rule, start, success, around⟩).toList) := by
  rw [observe_left]
  by_cases lookahead : g.isLookahead rule = true
  · have none : Reduced.failure? g ⟨rule, start, success, around⟩ = none := by
      simp [Reduced.failure?, Grammar.terminal?_of_isLookahead lookahead]
    rw [if_pos lookahead, none, Option.toList_none, List.append_nil]
    refine ⟨?_, tells⟩
    rw [if_pos lookahead] at count
    exact Nat.sub_eq_of_eq_add count
  · rw [if_neg lookahead] at count ⊢
    have outside : f.lookaheads = 0 ↔ around.any g.isLookahead = false := by
      rw [count, Nat.add_zero, List.countP_eq_zero, List.any_eq_false]
    cases consists : g.terminal? rule with
    | none =>
      have none : Reduced.failure? g ⟨rule, start, success, around⟩ = none := by
        simp [Reduced.failure?, consists]
      rw [none, Option.toList_none, List.append_nil]
      exact ⟨count, tells⟩
    | some t =>
      rw [Option.elim_some]
      by_cases fails : f.lookaheads = 0 ∧ success = false
      · obtain ⟨top, rfl⟩ := fails
        have failure : Reduced.failure? g ⟨rule, start, false, around⟩ = some (start, t) := by
          simp only [Reduced.failure?, consists, outside.mp top, Bool.or_self, Bool.false_eq_true, ↓reduceIte,
            Option.map_some]
        rw [failure, Option.toList_some, back rfl]
        simp only [top, decide_true, Bool.not_false, Bool.and_self, ↓reduceIte, fail_lookaheads]
        exact ⟨top ▸ count, tells.fail start t⟩
      · have failure : Reduced.failure? g ⟨rule, start, success, around⟩ = none := by
          rw [outside] at fails
          simp only [Reduced.failure?, ite_eq_left_iff, Bool.or_eq_true, not_or, Bool.not_eq_true]
          exact fun both => absurd ⟨both.2, both.1⟩ fails
        have kept : (decide (f.lookaheads = 0) && !success) = false := by
          simpa [not_and] using fails
        rw [failure, kept, Option.toList_none, List.append_nil]
        exact ⟨count, tells⟩

end Farthest

/-- The observer of failures has kept up with the log beside it, and all failures are at places `placed`. -/
structure Tracks (g : Grammar) (placed : Position → Prop) (w : Farthest × Log) : Prop where
  lookaheads : w.1.lookaheads = (Trail.ofLog w.2).pending.countP fun entry => g.isLookahead entry.1
  tells : w.1.Tells ((Trail.ofLog w.2).failures g)
  placed : ∀ failure ∈ (Trail.ofLog w.2).failures g, placed failure.1

namespace Tracks

variable {g : Grammar} {placed : Position → Prop} {w : Farthest × Log} {rule : Rule}

/-- The observer of failures beside the log. -/
abbrev observer : Observer (Farthest × Log) := Farthest.observe.both .recording

/-- What happens to the memo table is neither here nor there. -/
theorem of_same {w' : Farthest × Log} (tracks : Tracks g placed w) (same : w'.1 = w.1)
    (pending : (Trail.ofLog w'.2).pending = (Trail.ofLog w.2).pending)
    (reduced : (Trail.ofLog w'.2).reduced = (Trail.ofLog w.2).reduced) : Tracks g placed w' := by
  have failures : (Trail.ofLog w'.2).failures g = (Trail.ofLog w.2).failures g := by
    rw [Trail.failures, reduced, Trail.failures]
  constructor
  · rw [same, pending]
    exact tracks.lookaheads
  · rw [same, failures]
    exact tracks.tells
  · rw [failures]
    exact tracks.placed

private theorem entered (tracks : Tracks g placed w) (s : Stream) (rule : Rule) :
    Tracks g placed (observer g s (.entered rule) w) := by
  refine ⟨?_, ?_, tracks.placed⟩
  · change (Farthest.observe g s (.entered rule) w.1).lookaheads =
      List.countP _ ((rule, s.position) :: (Trail.ofLog w.2).pending)
    rw [Farthest.observe_entered, List.countP_cons, tracks.lookaheads]
  · change (Farthest.observe g s (.entered rule) w.1).Tells _
    rw [Farthest.observe_entered]
    exact tracks.tells

private theorem left {s : Stream} {success : Bool} {start : Position} {rest : List (Rule × Position)}
    (tracks : Tracks g placed w) (pending : (Trail.ofLog w.2).pending = (rule, start) :: rest) (here : placed start)
    (back : success = false → s.position = start) : Tracks g placed (observer g s (.left rule success) w) := by
  have trail : Trail.ofLog (observer g s (.left rule success) w).2 = { Trail.ofLog w.2 with
      pending := rest
      reduced := (Trail.ofLog w.2).reduced ++ [⟨rule, start, success, rest.map Prod.fst⟩] } := by
    have logged : (observer g s (.left rule success) w).2 = (.left rule success, s.position) :: w.2 := rfl
    rw [logged, Trail.ofLog_cons]
    simp only [Trail.step, pending]
  have failures : (Trail.ofLog (observer g s (.left rule success) w).2).failures g =
      (Trail.ofLog w.2).failures g ++ (Reduced.failure? g ⟨rule, start, success, rest.map Prod.fst⟩).toList := by
    rw [trail, Trail.failures, List.filterMap_append, Trail.failures]
    rfl
  have count := tracks.lookaheads
  rw [pending, List.countP_cons] at count
  have counted : rest.countP (fun entry => g.isLookahead entry.1) = (rest.map Prod.fst).countP g.isLookahead := by
    rw [List.countP_map]
    rfl
  rw [counted] at count
  obtain ⟨lookaheads, tells⟩ := Farthest.tells_left count back tracks.tells
  constructor
  · rw [trail, counted]
    exact lookaheads
  · rw [failures]
    exact tells
  · intro failure member
    rw [failures, List.mem_append, Option.mem_toList] at member
    rcases member with earlier | last
    · exact tracks.placed failure earlier
    · simp only [Reduced.failure?, Option.ite_none_left_eq_some, Option.map_eq_some_iff] at last
      obtain ⟨-, t, -, rfl⟩ := last
      exact here

/-- Every rule that a run enters and leaves is noted. -/
theorem run {H S : Type} {r : Recognizer H S (Farthest × Log)} {task : Task} {st st' : State H S (Farthest × Log)}
    {v : Verdict} {text : List Char} {least : Nat} (run : r.Runs task st v st') (observes : r.observer = observer)
    (reads : st.stream.Over text) (start : least ≤ st.stream.position.offset)
    (tracks : Tracks r.grammar (fun p => p = .after text p.offset ∧ least ≤ p.offset) st.observed) :
    Tracks r.grammar (fun p => p = .after text p.offset ∧ least ≤ p.offset) st'.observed := by
  have followed : (Trail.ofLog st'.observed.2).pending = (Trail.ofLog st.observed.2).pending ∧
      (Tracks r.grammar (fun p => p = .after text p.offset ∧ least ≤ p.offset) st.observed →
        Tracks r.grammar (fun p => p = .after text p.offset ∧ least ≤ p.offset) st'.observed) := by
    refine Recognizer.Runs.observed_induction
      (motive := fun w w' => (Trail.ofLog w'.2).pending = (Trail.ofLog w.2).pending ∧
        (Tracks r.grammar _ w → Tracks r.grammar _ w'))
      (fun s => s.Over text ∧ least ≤ s.position.offset) run ⟨reads, start⟩ ?_ ?_ ?_ ?_ ?_ ?_ ?_
    · exact fun place => ⟨place.1.mark, place.2⟩
    · exact fun run place => ⟨run.reads place.1, Nat.le_trans place.2 run.forward⟩
    · exact fun _ => ⟨rfl, id⟩
    · exact fun first second => ⟨second.1.trans first.1, second.2 ∘ first.2⟩
    · intro s i hit w _
      rw [observes]
      refine ⟨?_, fun tracks => tracks.of_same rfl ?_ ?_⟩ <;> cases hit <;> rfl
    · intro s i w _
      rw [observes]
      exact ⟨rfl, fun tracks => tracks.of_same rfl rfl rfl⟩
    · intro rule success s s' w w' place back inside
      rw [observes] at inside ⊢
      obtain ⟨pending, kept⟩ := inside
      have opened : (Trail.ofLog (observer r.grammar s (.entered rule) w).2).pending =
          (rule, s.position) :: (Trail.ofLog w.2).pending := rfl
      rw [opened] at pending
      refine ⟨?_, fun tracks => (kept (tracks.entered s rule)).left pending ?_ back⟩
      · change (Trail.step (.left rule success, s'.position) (Trail.ofLog w'.2)).pending = _
        simp only [Trail.step, pending]
      · exact ⟨place.1.position.eq_after, place.2⟩
  exact followed.2 tracks

end Tracks

theorem Escape.char_ne_nil (quote c : Char) : Escape.char quote c ≠ [] := by
  fun_cases Escape.char quote c <;> exact nofun

namespace Parser

variable {H S τ : Type} {p : Parser H S} {host : H} {s : Stream} {text : List Char}

/-- The events of a recognition that comes to an end, the last one first. -/
def Logged (p : Parser H S) (host : H) (s : Stream) (log : Log) : Prop :=
  ∃ depth done, p.parseWithin depth host s .recording [] = .ok done ∧ done.observed = log

/-- Whoever observes a recognition, it can be logged. -/
theorem exists_logged {observer : Observer τ} {observed : τ} {v : Verdict} {st : State H S (Farthest × τ)}
    (run : (p.recognizer host (Farthest.observe.both observer)).Runs (.rule (.production 0))
      (p.initial host s observer observed) v st) :
    ∃ w, (p.recognizer host Tracks.observer).Runs (.rule (.production 0)) (p.initial host s .recording []) v
      (st.seenAs w) ∧ w.1 = st.observed.1 ∧ p.Logged host s ((.closed v.isMatched, st.stream.position) :: w.2) := by
  let Related (w : Farthest × τ) (w' : Farthest × Log) : Prop := w'.1 = w.1
  have keeps {s : Stream} {event : Event} {w : Farthest × τ} {w' : Farthest × Log} (same : Related w w') :
      Related (Farthest.observe.both observer p.grammar s event w) (Tracks.observer p.grammar s event w') :=
    congrArg (Farthest.observe p.grammar s event) same
  have start : Related (p.initial host s observer observed).observed (p.initial host s .recording []).observed := rfl
  obtain ⟨w, same, run⟩ := run.reobserve Tracks.observer Related keeps start
  obtain ⟨depth, ended⟩ := parseWithin_iff_run.mpr ⟨v, st.seenAs w, run, rfl⟩
  exact ⟨w, run, same, depth, _, ended, rfl⟩

/-- A logged recognition is a run. -/
theorem Logged.run {log : Log} (logged : p.Logged host s log) :
    ∃ v st, (p.recognizer host Tracks.observer).Runs (.rule (.production 0)) (p.initial host s .recording []) v st ∧
      log = (.closed v.isMatched, st.stream.position) :: st.observed.2 := by
  obtain ⟨depth, done, ended, rfl⟩ := logged
  obtain ⟨v, st, run, rfl⟩ := parseWithin_iff_run.mp ⟨depth, ended⟩
  exact ⟨v, st, run, rfl⟩

theorem Logged.unique {log log' : Log} (logged : p.Logged host s log) (logged' : p.Logged host s log') :
    log = log' := by
  obtain ⟨v, st, run, rfl⟩ := logged.run
  obtain ⟨v', st', run', rfl⟩ := logged'.run
  obtain ⟨rfl, rfl⟩ := run.deterministic run'
  rfl

/-- From the start of a recognition on, the observer of failures keeps up with the log. -/
theorem tracks_run {v : Verdict} {st : State H S (Farthest × Log)} (reads : s.Over text)
    (run : (p.recognizer host Tracks.observer).Runs (.rule (.production 0)) (p.initial host s .recording []) v st) :
    Tracks p.grammar (fun q => q = .after text q.offset ∧ s.position.offset ≤ q.offset) st.observed :=
  Tracks.run run rfl reads (Nat.le_refl _) ⟨rfl, ⟨rfl, rfl⟩, nofun⟩

/-- Failures are at places in the text behind the start. -/
theorem Logged.placed {log : Log} (logged : p.Logged host s log) (reads : s.Over text) :
    ∀ failure ∈ (Trail.ofLog log).failures p.grammar,
      failure.1 = .after text failure.1.offset ∧ s.position.offset ≤ failure.1.offset := by
  obtain ⟨v, st, run, rfl⟩ := logged.run
  exact (tracks_run reads run).placed

/-- What is found at a place ahead is the character of the text there. -/
theorem foundAt_eq {place : Position} (reads : s.Over text) (ahead : s.position.offset ≤ place.offset)
    (within : place.offset ≤ text.length) :
    (foundAt s place).1 = String.ofList (text[place.offset]?.elim [] (Escape.char '`')) := by
  have moved : Stream.Moved text s (s.skip (place.offset - s.position.offset)).2 place.offset := by
    have skipped := @Stream.Over.skip s text reads (place.offset - s.position.offset) (by omega)
    rwa [Nat.add_sub_cancel' ahead] at skipped
  obtain ⟨seen, -⟩ := moved.reads.peek
  rw [moved.offset] at seen
  simp only [foundAt, seen]
  cases text[place.offset]? <;> rfl

theorem marks_foundAt (s : Stream) (place : Position) : (foundAt s place).2.marks = s.marks :=
  (Stream.marks_peek _).trans (Stream.marks_skip ..)

theorem answer_of_mismatch {start : Position} {farthest : Farthest} {v : Verdict} {e : SyntaxError}
    (mismatch : (answer start farthest v s).1 = .error (.mismatch e)) :
    v = .failed ∧ e = ⟨farthest.position.getD start, farthest.expected,
        (foundAt s.takeError.2 (farthest.position.getD start)).1⟩ ∧
      (answer start farthest v s).2 = (foundAt s.takeError.2 (farthest.position.getD start)).2 := by
  unfold answer at mismatch ⊢
  cases failure : s.error with
  | some message =>
    simp only [Stream.takeError, failure] at mismatch
    cases mismatch
  | none =>
    simp only [Stream.takeError, failure] at mismatch ⊢
    cases v with
    | failed =>
      cases mismatch
      exact ⟨rfl, rfl, rfl⟩
    | matched => cases mismatch
    | aborted error => cases mismatch

/-- The error tells the furthest of the failures, and what stands there in the text. -/
theorem Logged.furthest {depth : Nat} {observer : Observer τ} {observed : τ} {done : Recognized H τ} {e : SyntaxError}
    {log : Log} (logged : p.Logged host s log) (reads : s.Over text)
    (ended : p.parseWithin depth host s observer observed = .ok done) (mismatch : done.result = .error (.mismatch e)) :
    e.Furthest s.position text ((Trail.ofLog log).failures p.grammar) := by
  obtain ⟨v, st, run, rfl⟩ := parseWithin_iff_run.mp ⟨depth, ended⟩
  obtain ⟨w, runLogged, same, logged'⟩ := exists_logged run
  have tells : st.observed.1.Tells ((Trail.ofLog log).failures p.grammar) := by
    rw [logged.unique logged', ← same]
    exact (tracks_run reads runLogged).tells
  obtain ⟨rfl, rfl, -⟩ := answer_of_mismatch mismatch
  have back : st.stream.position = s.position := run.restored rfl Verdict.noConfusion
  have read : st.stream.takeError.2.Over text := by
    have reading := run.reads reads
    exact ⟨reading.held, reading.position.grow rfl (Nat.le_refl _), fun q member =>
      (reading.marks q member).grow rfl (Nat.le_refl _)⟩
  obtain ⟨nowhere, somewhere, expected⟩ := tells.place s.position
  generalize st.observed.1.position.getD s.position = place at *
  have placed : place.offset ≤ text.length ∧ s.position.offset ≤ place.offset := by
    by_cases none : (Trail.ofLog log).failures p.grammar = []
    · rw [(nowhere none).1]
      exact ⟨reads.position.offset_le, Nat.le_refl _⟩
    · obtain ⟨t, member⟩ := (somewhere none).1
      obtain ⟨after, ahead⟩ := logged.placed reads _ member
      have offset := congrArg Position.offset after
      rw [Position.offset_after] at offset
      exact ⟨Nat.le_trans (Nat.le_of_eq offset) (Nat.min_le_right ..), ahead⟩
  have found := foundAt_eq read (back ▸ placed.2) placed.1
  refine ⟨nowhere, somewhere, expected, found, ?_⟩
  change (foundAt _ _).1 = "" ↔ _
  rw [found]
  cases there : text[place.offset]? with
  | none =>
    have := List.getElem?_eq_none_iff.mp there
    exact ⟨fun _ => by dsimp only; omega, fun _ => rfl⟩
  | some c =>
    have inside := (List.getElem?_eq_some_iff.mp there).1
    refine ⟨fun empty => absurd ?_ (Escape.char_ne_nil '`' c), fun ended => ?_⟩
    · simpa using congrArg String.toList empty
    · dsimp only at ended
      omega

/-- The error of a recognition that fails is its furthest failure: of all terminals that failed outside of lookaheads
the furthest, and what stands there in the text; and the stream is back at the start. -/
theorem mismatch_furthest {depth : Nat} {observer : Observer τ} {observed : τ} {done : Recognized H τ}
    {e : SyntaxError} (reads : s.Over text) (ended : p.parseWithin depth host s observer observed = .ok done)
    (mismatch : done.result = .error (.mismatch e)) :
    (∃ log, p.Logged host s log ∧ e.Furthest s.position text ((Trail.ofLog log).failures p.grammar)) ∧
      done.stream.position = s.position ∧ done.stream.marks = s.marks := by
  obtain ⟨v, st, run, rfl⟩ := parseWithin_iff_run.mp ⟨depth, ended⟩
  obtain ⟨w, -, -, logged⟩ := exists_logged run
  refine ⟨⟨_, logged, logged.furthest reads ended mismatch⟩, ?_⟩
  obtain ⟨rfl, -, stream⟩ := answer_of_mismatch mismatch
  have back : st.stream.position = s.position := run.restored rfl Verdict.noConfusion
  exact ⟨(congrArg Stream.position stream).trans back,
    (congrArg Stream.marks stream).trans ((marks_foundAt ..).trans run.marks)⟩

end Parser

namespace Sample

/-- `S : &("ab" "q") "ax" / "ab" "y" / "ab" "z" / "ab" "y" ;` -/
def forkSteps : List Builder.Step :=
  let alternative (last : String) : List Builder.Step :=
    [.mark, .terminal (.token "ab" true), .terminal (.token last true), .sequence, .release]
  [.startProduction "S", .mark] ++ alternative "q" ++
    [.lookahead .present, .terminal (.token "ax" true), .sequence, .release] ++
    alternative "y" ++ alternative "z" ++ alternative "y" ++ [.choice, .endProduction]

/-- A parser without actions that remembers nothing. -/
def forkParser : Parser Unit Unit where
  grammar := (Builder.ofSteps forkSteps).build.toOption.getD .empty
  handlers := ⟨#[]⟩
  transaction := .stateless Unit
  memoize := false

def forkStream : Stream := .ofSource ⟨['a', 'b', 'c'], none⟩

/-- What fails in the lookahead is not expected, and what fails twice is expected once. -/
theorem fork_mismatch : ∃ done e, forkStream.Over ['a', 'b', 'c'] ∧
    forkParser.parseWithin 9 () forkStream silent () = .ok done ∧ done.result = .error (.mismatch e) ∧
    e = ⟨⟨2, 1, 3⟩, [.token "y" true, .token "z" true], "c"⟩ ∧
    (∃ log, forkParser.Logged () forkStream log ∧
      e.Furthest forkStream.position ['a', 'b', 'c'] ((Trail.ofLog log).failures forkParser.grammar)) ∧
    done.stream.position = forkStream.position ∧ done.stream.marks = forkStream.marks := by
  have reads : forkStream.Over ['a', 'b', 'c'] := Stream.over_ofSource ⟨['a', 'b', 'c'], none⟩
  have evaluated : (forkParser.parseWithin 9 () forkStream silent ()).toOption.map (·.result) =
      some (.error (.mismatch ⟨⟨2, 1, 3⟩, [.token "y" true, .token "z" true], "c"⟩)) := by decide +kernel
  obtain ⟨done, ended, mismatch⟩ := Option.map_eq_some_iff.mp evaluated
  have ended := eq_ok_of_toOption ended
  exact ⟨done, _, reads, ended, mismatch, rfl, Parser.mismatch_furthest reads ended mismatch⟩

end Sample

end Packrat
