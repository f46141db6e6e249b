import Packrat.Proofs.Recognition.Furthest
import Packrat.Proofs.Recognition.Places

/-! # Failures of the input

Any look at the text can meet what the source fails with. The answer of a recognition asks for it once, and after that
looks at the place of the furthest failure. A terminal that failed at the end of the text has looked behind it before,
so that nothing waits there any more. Only where no terminal failed outside of lookaheads, the look at the start can be
the first one behind the text.
-/

namespace Packrat

namespace Stream

variable {s : Stream} {text : List Char}

theorem Over.takeError (reads : s.Over text) : s.takeError.2.Over text :=
  ⟨reads.held, reads.position.grow rfl (Nat.le_refl _),
    fun place member => (reads.marks place member).grow rfl (Nat.le_refl _)⟩

end Stream

namespace Farthest

variable {f : Farthest} {text : List Char} {least : Nat} {s s' : Stream} {p : Position}

/-- The place that is kept is one of the text from `least` on. If it is the end of the text, nothing waits there. -/
def LookedPast (f : Farthest) (text : List Char) (least : Nat) (s : Stream) : Prop :=
  match f.position with
  | none => f.expected = []
  | some place => least ≤ place.offset ∧ place.offset ≤ text.length ∧ (place.offset = text.length → s.failure = none)

theorem LookedPast.later (looked : f.LookedPast text least s) (kept : s.failure = none → s'.failure = none) :
    f.LookedPast text least s' := by
  unfold LookedPast at looked ⊢
  cases place : f.position with
  | none =>
    rw [place] at looked
    exact looked
  | some furthest =>
    rw [place] at looked
    obtain ⟨ahead, within, ended⟩ := looked
    exact ⟨ahead, within, kept ∘ ended⟩

theorem position_fail (f : Farthest) (p : Position) (t : Terminal) :
    (f.fail p t).position = some p ∨ (f.position.isSome ∧ (f.fail p t).position = f.position) := by
  cases place : f.position with
  | none => simp [Farthest.fail, place]
  | some furthest =>
    by_cases further : furthest.offset < p.offset
    · simp [Farthest.fail, place, further]
    · simp only [Farthest.fail, place, further, ↓reduceIte]
      split <;> simp [place]

theorem LookedPast.fail (looked : f.LookedPast text least s) (t : Terminal) (ahead : least ≤ p.offset)
    (within : p.offset ≤ text.length) (ended : p.offset = text.length → s.failure = none) :
    (f.fail p t).LookedPast text least s := by
  rcases f.position_fail p t with here | ⟨placed, kept⟩
  · rw [LookedPast, here]
    exact ⟨ahead, within, ended⟩
  · obtain ⟨furthest, place⟩ := Option.isSome_iff_exists.mp placed
    rw [LookedPast, place] at looked
    rw [LookedPast, kept, place]
    exact looked

end Farthest

namespace Recognizer

variable {H S τ : Type} {task : Task} {v : Verdict} {text : List Char}

/-- A look at the text is all that a run can do about what waits behind it. -/
theorem Runs.meets {r : Recognizer H S τ} {st st' : State H S τ} (run : r.Runs task st v st')
    (reads : st.stream.Over text) : ∃ past, Stream.Meets past st.stream st'.stream := by
  suffices met : st'.stream.Over text ∧ ∃ past, Stream.Meets past st.stream st'.stream from met.2
  refine run.stream_induction (motive := fun s => s.Over text ∧ ∃ past, Stream.Meets past st.stream s)
    ?_ ?_ ?_ ?_ ⟨reads, false, .refl _⟩
  · rintro s t ⟨reads, past, meets⟩
    obtain ⟨more, looks, -⟩ := reads.meets_recognize t
    exact ⟨(t.recognize_spec reads).2.reads, _, meets.trans looks⟩
  · rintro s count ⟨reads, past, meets⟩
    exact ⟨(reads.take count).reads, _, meets.trans (reads.meets_take count)⟩
  · rintro s ⟨reads, past, meets⟩
    exact ⟨reads.mark, past, meets.failure, meets.error⟩
  · rintro st st' v ⟨reads, past, meets⟩ balanced
    exact ⟨State.over_settled reads balanced, past, meets.failure, meets.error⟩

section

variable {r : Recognizer H S (Farthest × τ)} {st st' : State H S (Farthest × τ)} {observer : Observer τ} {least : Nat}
  {rule : Rule}

/-- A terminal that fails at the end of the text has looked behind it. -/
private theorem looked_left (observes : r.observer = Farthest.observe.both observer)
    (does : r.grammar.body? rule = some task) (run : r.Runs task (r.note (.entered rule) st) v st')
    (reads : st.stream.Over text) (ahead : least ≤ st.stream.position.offset)
    (looked : st'.observed.1.LookedPast text least st'.stream) :
    (r.note (.left rule v.isMatched) st').observed.1.LookedPast text least st'.stream := by
  rw [note, observes]
  change (Farthest.observe r.grammar st'.stream (.left rule v.isMatched) st'.observed.1).LookedPast text least _
  rw [Farthest.observe_left]
  by_cases lookahead : r.grammar.isLookahead rule = true
  · rw [if_pos lookahead]
    exact looked
  · rw [if_neg lookahead]
    cases consists : r.grammar.terminal? rule with
    | none => exact looked
    | some t =>
      rw [Option.elim_some]
      split
      · next fails =>
        have failed : v.isMatched = false := by simpa using (Bool.and_eq_true_iff.mp fails).2
        have back : st'.stream.position = st.stream.position := run.restored_of_body does failed
        refine looked.fail t (back ▸ ahead) (back ▸ reads.position.offset_le) fun ended => ?_
        rw [back] at ended
        obtain ⟨i, rfl⟩ : ∃ i, rule = .expression i := by
          cases rule with
          | production => cases consists
          | expression i => exact ⟨i, rfl⟩
        have leaf : r.grammar.expr? i = some (.terminal t) := by
          rw [Grammar.terminal?] at consists
          split at consists <;> cases consists
          assumption
        obtain rfl : Task.operator i (.terminal t) = task := by simpa [Grammar.body?, leaf] using does
        cases run
        rw [Verdict.isMatched_ofBool] at failed
        obtain ⟨past, meets, looks⟩ := reads.meets_recognize t
        have past := looks failed (List.drop_eq_nil_of_le (Nat.le_of_eq ended.symm))
        simpa [past] using meets.failure
      · exact looked

/-- Where the furthest terminal failed at the end of the text, nothing waits behind it. -/
theorem Runs.lookedPast (run : r.Runs task st v st') (observes : r.observer = Farthest.observe.both observer)
    (reads : st.stream.Over text) (ahead : least ≤ st.stream.position.offset)
    (looked : st.observed.1.LookedPast text least st.stream) : st'.observed.1.LookedPast text least st'.stream := by
  have gone {s s' : Stream} {past : Bool} (meets : Stream.Meets past s s') (nothing : s.failure = none) :
      s'.failure = none := by
    rw [meets.failure, nothing, ite_self]
  have followed := run.seen_induction
    (motive := fun x y => x.2.1.LookedPast text least x.1 → y.2.1.LookedPast text least y.1)
    (fun s => s.Over text ∧ least ≤ s.position.offset) ⟨reads, ahead⟩ ?_ ?_ ?_ ?_ ?_ ?_ ?_ ?_ ?_ ?_
  · exact followed looked
  · exact fun place => ⟨place.1.mark, place.2⟩
  · exact fun run place => ⟨run.reads place.1, Nat.le_trans place.2 run.forward⟩
  · exact fun _ => id
  · exact fun first second => second ∘ first
  · intro s w t place looked
    obtain ⟨past, meets, -⟩ := place.1.meets_recognize t
    exact looked.later (gone meets)
  · exact fun count place looked => looked.later (gone (place.1.meets_take count))
  · intro s w i hit _ looked
    rw [observes]
    exact looked
  · intro s w i _ looked
    rw [observes]
    exact looked
  · exact fun _ inside looked => inside looked
  · intro rule body st st' v does run place inside looked
    refine looked_left observes does run place.1 place.2 (inside ?_)
    rw [note, observes]
    change (Farthest.observe r.grammar st.stream (.entered rule) st.observed.1).LookedPast text least _
    rw [Farthest.observe_entered]
    exact looked

end

end Recognizer

namespace Parser

variable {H S τ : Type} {p : Parser H S} {host : H} {s : Stream} {text : List Char} {place : Position}

/-- Finding out what stands at a place looks behind the text where the text ends there. -/
theorem meets_foundAt (reads : s.Over text) (ahead : s.position.offset ≤ place.offset)
    (within : place.offset ≤ text.length) : Stream.Meets (text.drop place.offset).isEmpty s (foundAt s place).2 := by
  have passed := reads.meets_take (place.offset - s.position.offset)
  have moved := @Stream.Over.skip s text reads (place.offset - s.position.offset) (by omega)
  have still : ¬ (text.drop s.position.offset).length < place.offset - s.position.offset := by
    rw [List.length_drop]
    omega
  rw [Nat.add_sub_cancel' ahead] at moved
  have looked := moved.reads.meets_peekNth 0
  rw [moved.offset] at looked
  rw [decide_eq_false still] at passed
  exact (passed.trans looked).goTo s.position

/-- After the failure of the input was asked for, no look at the text meets it. -/
theorem answer_meets_nothing {start : Position} {farthest : Farthest} {v : Verdict} (reads : s.Over text)
    (looked : farthest.LookedPast text start.offset s) (back : v = .failed → s.position = start)
    (seen : (answer start farthest v s).1 = .error (.mismatch ⟨start, [], ""⟩) → s.failure = none) :
    (answer start farthest v s).2.failure = s.failure ∧ (answer start farthest v s).2.error = none := by
  unfold answer at seen ⊢
  cases met : s.error with
  | some message =>
    simp only [Stream.takeError, met]
    trivial
  | none =>
    simp only [Stream.takeError, met] at seen ⊢
    cases v with
    | matched => exact ⟨rfl, rfl⟩
    | aborted e => exact ⟨rfl, rfl⟩
    | failed =>
      obtain rfl := back rfl
      dsimp only at seen ⊢
      have reads : s.takeError.2.Over text := reads.takeError
      have places : s.position.offset ≤ (farthest.position.getD s.position).offset ∧
          (farthest.position.getD s.position).offset ≤ text.length ∧
          ((farthest.position.getD s.position).offset = text.length → s.failure = none) := by
        unfold Farthest.LookedPast at looked
        cases position : farthest.position with
        | some furthest =>
          rw [position] at looked
          exact looked
        | none =>
          rw [position] at looked seen
          refine ⟨Nat.le_refl _, reads.position.offset_le, fun ended => seen ?_⟩
          have found := foundAt_eq reads (Nat.le_refl s.position.offset) (Nat.le_of_eq ended)
          rw [List.getElem?_eq_none (show text.length ≤ s.position.offset from Nat.le_of_eq ended.symm)] at found
          simp only [Option.getD_none, looked]
          exact congrArg (fun found => Except.error (RecognitionError.mismatch ⟨s.position, [], found⟩)) found
      obtain ⟨ahead, within, ended⟩ := places
      obtain ⟨failure, error⟩ := meets_foundAt reads ahead within
      by_cases last : (farthest.position.getD s.position).offset = text.length
      · have nothing : s.failure = none := ended last
        refine ⟨failure.trans ?_, error.trans ?_⟩ <;> simp [Stream.takeError, nothing]
      · have inside : (text.drop (farthest.position.getD s.position).offset).isEmpty = false := by
          rw [List.isEmpty_eq_false_iff, Ne, List.drop_eq_nil_iff]
          omega
        rw [inside] at failure error
        exact ⟨failure, error⟩

theorem readsFrom_foundAt {source : Source} (reads : s.ReadsFrom source) (place : Position) :
    (foundAt s place).2.ReadsFrom source := by
  obtain ⟨cursor, text, follows⟩ := reads.follows
  have passed := (follows.reads.scan_take (place.offset - s.position.offset)).2
  have looked := passed.trans (passed.offset ▸ (passed.reads.scan_peekNth 0).2)
  have met := (follows.reads.meets_take _).trans (passed.reads.meets_peekNth 0)
  exact reads.meets (met.goTo s.position) ⟨cursor, text, follows.back looked⟩

/-- A recognition leaves the stream over its source. -/
theorem readsFrom_of_ended {depth : Nat} {source : Source} {observer : Observer τ} {observed : τ}
    {done : Recognized H τ} (reads : s.ReadsFrom source)
    (ended : p.parseWithin depth host s observer observed = .ok done) : done.stream.ReadsFrom source := by
  obtain ⟨v, st, run, rfl⟩ := parseWithin_iff_run.mp ⟨depth, ended⟩
  have looked : st.stream.ReadsFrom source := by
    obtain ⟨past, meets⟩ := run.meets reads.over_chars
    obtain ⟨cursor, text, follows⟩ := reads.follows
    obtain ⟨offset, follows', -⟩ := run.follows follows
    exact reads.meets meets ⟨{ cursor with offset }, text, follows'⟩
  change (answer s.position st.observed.1 v st.stream).2.ReadsFrom source
  have taken := looked.takeError
  unfold answer
  cases met : st.stream.error with
  | some message =>
    simp only [Stream.takeError, met] at taken ⊢
    exact taken
  | none =>
    simp only [Stream.takeError, met] at taken ⊢
    cases v with
    | matched => exact taken
    | aborted e => exact taken
    | failed => exact readsFrom_foundAt taken _

/-- What the source fails with is the answer exactly if it has been met when the recognition ends and had not been handed
out when it began, and no answer leaves a failure that has been met. This leaves out a mismatch at the end of the text
with nothing expected, if a failure waited there. -/
theorem input_failure_answered {depth : Nat} {source : Source} {observer : Observer τ} {observed : τ}
    {done : Recognized H τ} (reads : s.ReadsFrom source)
    (ended : p.parseWithin depth host s observer observed = .ok done)
    (looked : done.result = .error (.mismatch ⟨s.position, [], ""⟩) → s.failure = none) :
    (∀ message, done.result = .error (.input message) ↔
      (s.failure = some message ∨ s.error = some message) ∧ done.stream.failure = none) ∧
    done.stream.takeError.1 = none := by
  obtain ⟨v, st, run, rfl⟩ := parseWithin_iff_run.mp ⟨depth, ended⟩
  have start : (p.initial host s observer observed).stream.Over (Newline.normalize source.chars) := reads.over_chars
  obtain ⟨past, failure, error⟩ := run.meets start
  have looks : st.observed.1.LookedPast _ s.position.offset st.stream :=
    run.lookedPast rfl start (Nat.le_refl _) (show Farthest.LookedPast {} _ _ s from rfl)
  have back : v = .failed → st.stream.position = s.position := by
    rintro rfl
    exact run.restored rfl Verdict.noConfusion
  obtain ⟨kept, taken⟩ := answer_meets_nothing (run.reads start) looks back fun mismatch => by
    rw [failure, show (p.initial host s observer observed).stream = s from rfl, looked mismatch, ite_self]
  refine ⟨fun message => ?_, taken⟩
  have answered : (p.recognized s.position observer v st).result = .error (.input message) ↔
      st.stream.error = some message := by
    simp only [recognized, answer, Stream.takeError]
    cases st.stream.error with
    | some met => simp
    | none => cases v <;> simp
  have left : (p.recognized s.position observer v st).stream.failure = st.stream.failure := kept
  rw [answered, left, failure, error, show (p.initial host s observer observed).stream = s from rfl]
  rcases reads.failure with ⟨-, unmet⟩ | ⟨gone, -⟩
  · cases past with
    | true => simp [unmet]
    | false =>
      simp only [Bool.false_eq_true, ↓reduceIte, unmet, reduceCtorEq, or_false, false_iff, not_and]
      intro waits
      simp [waits]
  · simp [gone]

end Parser

namespace Sample

/-- `S : $check() "a" ;` -/
def checkSteps : List Builder.Step :=
  [.startProduction "S", .mark, .terminal .nil, .action "check", .terminal (.token "a" true), .sequence, .release,
    .endProduction]

/-- A parser whose handler answers the same to whatever it is asked. -/
def checkParser (answer : Bool) : Parser Unit Unit where
  grammar := (Builder.ofSteps checkSteps).build.toOption.getD .empty
  handlers := ⟨#[("check", fun _ host => (.ok answer, host))]⟩
  transaction := .stateless Unit
  memoize := false

/-- Nothing but a failure. -/
def brokenStart : Source := ⟨[], some "broken pipe"⟩

/-- The token looks for a character, and the failure is the answer. -/
theorem accepted_check_answers_failure : ∃ done,
    (Stream.ofSource brokenStart).ReadsFrom brokenStart ∧
    (checkParser true).parseWithin 9 () (.ofSource brokenStart) silent () = .ok done ∧
    (done.result = .error (.mismatch ⟨(Stream.ofSource brokenStart).position, [], ""⟩) →
      (Stream.ofSource brokenStart).failure = none) ∧
    (∀ message, done.result = .error (.input message) ↔
      ((Stream.ofSource brokenStart).failure = some message ∨ (Stream.ofSource brokenStart).error = some message) ∧
        done.stream.failure = none) ∧
    done.stream.takeError.1 = none := by
  have reads := Stream.readsFrom_ofSource brokenStart
  have evaluated : ((checkParser true).parseWithin 9 () (.ofSource brokenStart) silent ()).toOption.map (·.result) =
      some (.error (.input "broken pipe")) := by decide +kernel
  obtain ⟨done, ended, result⟩ := Option.map_eq_some_iff.mp evaluated
  have ended := eq_ok_of_toOption ended
  have looked : done.result = .error (.mismatch ⟨(Stream.ofSource brokenStart).position, [], ""⟩) →
      (Stream.ofSource brokenStart).failure = none := by
    intro mismatch
    cases result.symm.trans mismatch
  exact ⟨done, reads, ended, looked, Parser.input_failure_answered reads ended looked⟩

/-- No terminal fails, so the look at the start is the first one, and it comes after the answer asked for the failure. -/
theorem rejected_check_masks_failure : ∃ done,
    (checkParser false).parseWithin 9 () (.ofSource brokenStart) silent () = .ok done ∧
    (Stream.ofSource brokenStart).failure = some "broken pipe" ∧ done.stream.failure = none ∧
    done.result = .error (.mismatch ⟨.origin, [], ""⟩) ∧ done.stream.takeError.1 = some "broken pipe" := by
  have evaluated : ((checkParser false).parseWithin 9 () (.ofSource brokenStart) silent ()).toOption.map
      (fun done => (done.result, done.stream.failure, done.stream.takeError.1)) =
      some (.error (.mismatch ⟨.origin, [], ""⟩), none, some "broken pipe") := by decide +kernel
  obtain ⟨done, ended, found⟩ := Option.map_eq_some_iff.mp evaluated
  simp only [Prod.mk.injEq] at found
  obtain ⟨result, gone, left⟩ := found
  exact ⟨done, eq_ok_of_toOption ended, rfl, gone, result, left⟩

end Sample

end Packrat
