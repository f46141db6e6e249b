import Packrat.Proofs.Recognition.Counting
import Packrat.Proofs.Recognition.Faults
import Packrat.Proofs.Recognition.Refinement

/-! # The recognizer and the meaning of a grammar

When handlers decide on the matched text alone, whatever happens to the host has no say in what is
recognized: the ledger that allows every change is enough. Without memoization the recognizer then
answers exactly what the declared meaning of the grammar says, and it answers at all whenever that
meaning gives the expression an outcome.
-/

namespace Packrat

open Peg (Deed Outcome Setting Parses)

/-- The handlers answer to the matched text alone, and actions without a handler accept it. -/
structure Handlers.Answers {H : Type} (handlers : Handlers H)
    (answer : String → Context → Except String Bool) : Prop where
  handled : ∀ {name handler}, handlers.find? name = some handler →
    ∀ context host, (handler context host).1 = answer name context
  unhandled : ∀ {name}, handlers.find? name = none → ∀ context, answer name context = .ok true

/-- Operators that the task names are where it says. -/
def Task.Present (g : Grammar) : Task → Prop
  | .operator i e => g.expr? i = some e
  | .marked task => task.Present g
  | _ => True

namespace Recognizer

variable {H S τ : Type} {r : Recognizer H S τ}

theorem Enters.present {task task' : Task} {st st' : State H S τ} (enters : r.Enters task st task' st')
    (present : task.Present r.grammar) : task'.Present r.grammar := by
  cases enters with
  | expression here => exact here
  | marked => exact present
  | production | reference | remembered | action | undo | sequence | choice | repetition | lookahead
  | allHead | allTail | firstHead | firstTail | least | more | upToHead | upToTail => exact trivial

end Recognizer

/-- The ledger that allows every change of the host. -/
def Ledger.coarse {H S τ : Type} {r : Recognizer H S τ} (text : List Char)
    {answer : String → Context → Except String Bool} (answered : r.handlers.Answers answer)
    (wellFormed : r.grammar.WellFormed) (keyed : r.Keyed text) :
    Ledger r text (fun name context _ => answer name context) where
  adds := fun _ _ _ => True
  ready := fun task _ => task.Present r.grammar
  enters := Recognizer.Enters.present
  nil := fun _ => trivial
  append := fun _ _ => trivial
  commit := fun _ => trivial
  handled := fun context found _ => ⟨answered.handled found context _, fun _ => trivial⟩
  unhandled := fun context missing _ => ⟨answered.unhandled missing context, trivial⟩
  saved := fun _ => ⟨trivial, fun _ => trivial⟩
  first := fun _ _ => trivial
  last := fun _ _ => trivial
  lookahead := fun _ _ => trivial
  keyed := fun present memoized => by
    obtain ⟨few, short⟩ := keyed (Bool.and_eq_true_iff.mp memoized).2
    exact ⟨Nat.lt_of_lt_of_le (wellFormed.target present) few, short⟩

/-- What a grammar means for a text, when actions accept what `accepts` says. -/
def Peg.meaning (g : Grammar) (text : List Char) (accepts : String → Context → Bool) : Setting :=
  ⟨g, text, fun name context _ => .ok (accepts name context), declared⟩

namespace Recognizer

variable {H S τ : Type} {r : Recognizer H S τ} {text : List Char} {accepts : String → Context → Bool}
  {st : State H S τ} {i : Nat}

/-- Without memoization every state is sound. -/
private theorem sound_of_plain {answer : String → Context → Except String Bool} (plain : r.memoize = false)
    (answered : r.handlers.Answers answer) (wellFormed : r.grammar.WellFormed) (keyed : r.Keyed text) :
    (Ledger.coarse text answered wellFormed keyed).Sound st.memo := by
  intro used
  rw [plain] at used
  cases used

private theorem keyed_of_plain (plain : r.memoize = false) : r.Keyed text := by
  intro used
  rw [plain] at used
  cases used

/-- What is answered has the declared meaning. -/
private theorem parses_of_runs {v : Verdict} {st' : State H S τ} (wellFormed : r.grammar.WellFormed)
    (plain : r.memoize = false) (decided : r.handlers.Answers fun name context => .ok (accepts name context))
    (reads : st.stream.Over text) (short : text.length < unbounded)
    (run : r.Runs (.rule (.expression i)) st v st') :
    ∃ out, Parses (Peg.meaning r.grammar text accepts) (.rule (.expression i)) st.stream.position.offset out ∧
      (Ledger.coarse text decided wellFormed (keyed_of_plain plain)).Explains st v st' out := by
  obtain ⟨⟨out, parse, explained⟩, -⟩ :=
    (Ledger.coarse text decided wellFormed (keyed_of_plain plain)).explains run trivial reads
      (sound_of_plain plain decided wellFormed _)
  refine ⟨out, ?_, explained⟩
  exact (Peg.parses_counted_iff (Peg.meaning r.grammar text accepts) short reads.position.offset_le).mp parse

/-- What has a declared meaning is answered. -/
private theorem halts_of_parses {out : Outcome} (wellFormed : r.grammar.WellFormed) (plain : r.memoize = false)
    (decided : r.handlers.Answers fun name context => .ok (accepts name context))
    (reads : st.stream.Over text) (short : text.length < unbounded)
    (parse : Parses (Peg.meaning r.grammar text accepts) (.rule (.expression i)) st.stream.position.offset out) :
    r.Halts (.rule (.expression i)) st := by
  have counted :=
    (Peg.parses_counted_iff (Peg.meaning r.grammar text accepts) short reads.position.offset_le).mpr parse
  exact (Ledger.coarse text decided wellFormed (keyed_of_plain plain)).halts counted i trivial reads rfl
    (sound_of_plain plain decided wellFormed _)

/-- An expression that does not go too deep matches up to an offset, or fails, exactly if its meaning
says so; and it does not go too deep from some depth on exactly if its meaning gives it an outcome. -/
theorem reduce_iff_parses (wellFormed : r.grammar.WellFormed) (present : i < r.grammar.nodes.size)
    (plain : r.memoize = false)
    (decided : r.handlers.Answers fun name context => .ok (accepts name context))
    (reads : st.stream.Over text) (short : text.length < unbounded) :
    (∀ depth, r.reduce depth (.expression i) st ≠ .error .tooDeep →
      (∀ stop, (∃ st', r.reduce depth (.expression i) st = .ok (.matched, st') ∧
          st'.stream.position.offset = stop) ↔
        ∃ deeds, Parses (Peg.meaning r.grammar text accepts) (.rule (.expression i))
          st.stream.position.offset (.matched stop deeds)) ∧
      ((∃ st', r.reduce depth (.expression i) st = .ok (.failed, st')) ↔
        Parses (Peg.meaning r.grammar text accepts) (.rule (.expression i)) st.stream.position.offset .failed)) ∧
    ((∃ depth, r.reduce depth (.expression i) st ≠ .error .tooDeep) ↔
      ∃ out, Parses (Peg.meaning r.grammar text accepts) (.rule (.expression i)) st.stream.position.offset out) := by
  have known : (Rule.expression i).InRange r.grammar := ⟨_, Grammar.expr?_of_lt present⟩
  have answers {depth : Nat} (finished : r.reduce depth (.expression i) st ≠ .error .tooDeep) :
      ∃ v st' out, r.reduce depth (.expression i) st = .ok (v, st') ∧
        Parses (Peg.meaning r.grammar text accepts) (.rule (.expression i)) st.stream.position.offset out ∧
        (Ledger.coarse text decided wellFormed (keyed_of_plain plain)).Explains st v st' out := by
    cases ended : r.reduce depth (.expression i) st with
    | error fault =>
      obtain rfl := fault_eq_tooDeep wellFormed known ended
      exact absurd ended finished
    | ok answer =>
      have run : r.Runs (.rule (.expression i)) st answer.1 answer.2 := runs_of_perform ended
      obtain ⟨out, parse, explained⟩ := parses_of_runs wellFormed plain decided reads short run
      exact ⟨_, _, out, rfl, parse, explained⟩
  refine ⟨fun depth finished => ?_, ?_⟩
  · obtain ⟨v, st', out, ended, parse, explained⟩ := answers finished
    rw [ended]
    refine ⟨fun stop => ⟨?_, ?_⟩, ?_, ?_⟩
    · rintro ⟨_, same, rfl⟩
      cases same
      cases explained
      exact ⟨_, parse⟩
    · rintro ⟨deeds, parse'⟩
      cases parse.deterministic parse'
      obtain ⟨rfl, stopped, -⟩ := explained.of_matched
      exact ⟨st', rfl, stopped⟩
    · rintro ⟨_, same⟩
      cases same
      cases explained
      exact parse
    · intro parse'
      cases parse.deterministic parse'
      have failed : v = .failed := by cases explained; rfl
      exact ⟨st', by rw [failed]⟩
  · constructor
    · rintro ⟨depth, finished⟩
      obtain ⟨-, -, out, -, parse, -⟩ := answers finished
      exact ⟨out, parse⟩
    · rintro ⟨out, parse⟩
      obtain ⟨v, st', run⟩ := halts_of_parses wellFormed plain decided reads short parse
      obtain ⟨depth, ended⟩ := perform_iff_runs.mpr run
      refine ⟨depth, fun tooDeep => ?_⟩
      cases ended.symm.trans tooDeep

end Recognizer

/-- Where a match ended. -/
def Reduction.stop? {H S τ : Type} : Reduction H S τ → Option Nat
  | .ok (.matched, st) => some st.stream.position.offset
  | _ => none

theorem Reduction.stop?_eq_some {H S τ : Type} {reduction : Reduction H S τ} {stop : Nat} :
    reduction.stop? = some stop ↔ ∃ st, reduction = .ok (.matched, st) ∧ st.stream.position.offset = stop := by
  rcases reduction with fault | ⟨v, st⟩
  · simp [stop?]
  · cases v <;> simp [stop?]

namespace Sample

/-- `letters : $run(['a'-'a']+) !.;` -/
def letters : Grammar where
  productions := #[{ name := "letters", index := 0, root := 5, defined := true }]
  nodes := #[
    { expr := .terminal (.interval ⟨'a', 'a'⟩), owner := 0, parent := some 1 },
    { expr := .repetition 0 1 unbounded, owner := 0, parent := some 2 },
    { expr := .action 1 "run" true, owner := 0, parent := some 5 },
    { expr := .terminal .any, owner := 0, parent := some 4 },
    { expr := .lookahead 3 .absent, owner := 0, parent := some 5 },
    { expr := .sequence [2, 4], owner := 0 }]
  problems := []
  source := none

/-- Runs of at least two letters are accepted. -/
def longRuns (name : String) (context : Context) : Bool := name != "run" || 2 ≤ context.chars.length

/-- Counts the calls of the handler in the host. -/
def lettersRecognizer : Recognizer Nat Unit Unit where
  grammar := letters
  transaction := { start := id, commit := id, rollback := id }
  handlers := ⟨#[("run", fun context calls => (.ok (longRuns "run" context), calls + 1))]⟩
  observer := fun _ _ _ observed => observed
  memoize := false

theorem lettersRecognizer_answers :
    lettersRecognizer.handlers.Answers fun name context => .ok (longRuns name context) where
  handled := by
    intro name handler found context calls
    by_cases same : "run" = name
    · subst same
      cases found
      rfl
    · simp [lettersRecognizer, Handlers.find?, same] at found
  unhandled := by
    intro name missing context
    have other : name ≠ "run" := by
      rintro rfl
      simp [lettersRecognizer, Handlers.find?] at missing
    simp [longRuns, other]

/-- A stream over `aaa`. -/
def lettersState : State Nat Unit Unit := ⟨.ofSource ⟨['a', 'a', 'a'], none⟩, 0, .empty, ()⟩

/-- Three letters are one run, and there is nothing behind them. -/
theorem letters_parses : letters.WellFormed ∧ lettersRecognizer.memoize = false ∧
    lettersState.stream.Over ['a', 'a', 'a'] ∧
    ∃ deeds, Parses (Peg.meaning letters ['a', 'a', 'a'] longRuns) (.rule (.expression 5)) 0
      (.matched 3 deeds) := by
  have wellFormed : letters.WellFormed := Grammar.wellFormed_of_linked (by decide)
  have reads : lettersState.stream.Over ['a', 'a', 'a'] := Stream.over_ofSource ⟨['a', 'a', 'a'], none⟩
  have meaning := Recognizer.reduce_iff_parses (r := lettersRecognizer) (i := 5) wellFormed (by decide) rfl
    lettersRecognizer_answers reads (by decide)
  have evaluated : (lettersRecognizer.reduce 9 (.expression 5) lettersState).stop? = some 3 := by decide +kernel
  have matched := Reduction.stop?_eq_some.mp evaluated
  refine ⟨wellFormed, rfl, reads, ((meaning.1 9 ?_).1 3).mp matched⟩
  obtain ⟨st', ended, -⟩ := matched
  rw [ended]
  exact nofun

end Sample

end Packrat
