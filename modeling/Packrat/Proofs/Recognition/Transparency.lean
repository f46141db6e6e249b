import Packrat.Proofs.Grammar.MemoFlags
import Packrat.Proofs.Recognition.Effects
import Packrat.Proofs.Recognition.Meaning
import Packrat.Recognition.Parser

/-! # What is remembered does not show

Memo flags play no part in the meaning of a grammar. Runs of two grammars that differ in these flags
only, with or without a memo table, therefore have the same outcome; and what a stack in segments holds
at the end is told by the outcome.
-/

namespace Packrat

open Peg (Deed Goal Outcome Setting Parses)

/-- The goal with its memo flag cleared. -/
def Peg.Goal.plain : Goal → Goal
  | .operator e => .operator e.plain
  | goal => goal

/-- The flags have no say in what is parsed. -/
theorem Peg.Parses.plain {σ : Setting} {goal : Goal} {o : Nat} {out : Outcome} (parse : Parses σ goal o out) :
    Parses { σ with grammar := σ.grammar.plain } goal.plain o out := by
  induction parse with
  | production defined _ ih => exact .production defined ih
  | expression present _ ih =>
    refine .expression ?_ ih
    rw [Grammar.expr?_plain, present, Option.map_some]
  | terminal found => exact .terminal found
  | mismatch missing => exact .mismatch missing
  | reference _ ih => exact .reference ih
  | accepted _ answer ih => exact .accepted ih answer
  | rejected _ answer ih => exact .rejected ih answer
  | refused _ answer ih => exact .refused ih answer
  | idle _ unmatched ih => exact .idle ih unmatched
  | undo _ ih => exact .undo ih
  | sequence _ ih => exact .sequence ih
  | choice _ ih => exact .choice ih
  | enough _ _ least more => exact .enough least more
  | tooFew _ unmatched ih => exact .tooFew ih unmatched
  | present _ ih => exact .present ih
  | notPresent _ unmatched ih => exact .notPresent ih unmatched
  | absent _ ih => exact .absent ih
  | notAbsent _ ih => exact .notAbsent ih
  | absentAborted _ ih => exact .absentAborted ih
  | allDone => exact .allDone
  | allNext _ _ head tail => exact .allNext head tail
  | allStop _ unmatched ih => exact .allStop ih unmatched
  | firstNone => exact .firstNone
  | firstNext _ _ head tail => exact .firstNext head tail
  | firstStop _ decided ih => exact .firstStop ih decided
  | greedyFull => exact .greedyFull
  | greedyEmpty room _ ih => exact .greedyEmpty room ih
  | greedyNext room _ advanced _ head tail => exact .greedyNext room head advanced tail
  | greedyEnd room _ ih => exact .greedyEnd room ih
  | greedyAborted room _ ih => exact .greedyAborted room ih

namespace Recognizer

variable {H S τ τ' : Type} {r : Recognizer H S τ} {r' : Recognizer H S τ'} {text : List Char}
  {answer : String → Context → List Deed → Except String Bool} {rule : Rule} {o : Nat} {out out' : Outcome}

theorem outcome_eq (same : r.grammar.SameButMemo r'.grammar) (parse : Parses (r.setting text answer) (.rule rule) o out)
    (parse' : Parses (r'.setting text answer) (.rule rule) o out') : out = out' := by
  have plain := parse.plain
  rw [setting, same] at plain
  exact plain.deterministic parse'.plain

end Recognizer

namespace Parser

variable {H S τ τ' : Type} {p p' : Parser H S} {host : H} {s : Stream} {text : List Char}

/-- Both recognize the same beginning of the text, both find a mismatch, or both end with the same error of an
action. -/
inductive Agrees : Except RecognitionError Recognition → Except RecognitionError Recognition → Prop
  | recognized (recognition : Recognition) : Agrees (.ok recognition) (.ok recognition)
  | mismatch (error error' : SyntaxError) : Agrees (.error (.mismatch error)) (.error (.mismatch error'))
  | aborted (error : ActionError) : Agrees (.error (.action error)) (.error (.action error))

/-- The state a recognition starts with. -/
def initial (p : Parser H S) (host : H) (s : Stream) (observer : Observer τ) (observed : τ) :
    State H S (Farthest × τ) :=
  (p.recognizer host (Farthest.observe.both observer)).note .opened ⟨s, host, .empty, ({}, observed)⟩

/-- What is recognized after a run of the first production. -/
def recognized (p : Parser H S) (start : Position) (observer : Observer τ) (v : Verdict)
    (st : State H S (Farthest × τ)) : Recognized H τ where
  result := (answer start st.observed.1 v st.stream).1
  stream := (answer start st.observed.1 v st.stream).2
  host := st.host
  observed := observer p.grammar st.stream (.closed v.isMatched) st.observed.2

/-- A recognition that comes to an end is a run of the first production. -/
theorem parseWithin_iff_run {observer : Observer τ} {observed : τ} {done : Recognized H τ} :
    (∃ depth, p.parseWithin depth host s observer observed = .ok done) ↔
      ∃ v st', (p.recognizer host (Farthest.observe.both observer)).Runs (.rule (.production 0))
        (p.initial host s observer observed) v st' ∧ done = p.recognized s.position observer v st' := by
  constructor
  · rintro ⟨depth, ended⟩
    simp only [parseWithin, bind, Except.bind] at ended
    split at ended
    · cases ended
    · next reduced =>
      cases ended
      exact ⟨_, _, Recognizer.runs_of_perform reduced, rfl⟩
  · rintro ⟨v, st', run, rfl⟩
    obtain ⟨depth, reduced⟩ := Recognizer.perform_iff_runs.mpr run
    refine ⟨depth, ?_⟩
    simp only [Recognizer.perform, initial] at reduced
    simp only [parseWithin, bind, Except.bind, reduced]
    rfl

/-- A recognition that comes to an end is a run of the first production, whose verdict is answered. -/
theorem run_of_parseWithin {depth : Nat} {observer : Observer τ} {observed : τ} {done : Recognized H τ}
    (ended : p.parseWithin depth host s observer observed = .ok done) :
    ∃ v st' farthest, (p.recognizer host (Farthest.observe.both observer)).Runs (.rule (.production 0))
        (p.initial host s observer observed) v st' ∧
      done.host = st'.host ∧ done.result = (answer s.position farthest v st'.stream).1 := by
  obtain ⟨v, st', run, rfl⟩ := parseWithin_iff_run.mp ⟨depth, ended⟩
  exact ⟨v, st', _, run, rfl, rfl⟩

/-- Unless the input failed, the verdict is the answer. -/
theorem answer_of_ne_input {start : Position} {farthest : Farthest} {v : Verdict}
    (read : ∀ message, (answer start farthest v s).1 ≠ .error (.input message)) :
    (answer start farthest v s).1 =
      match v with
      | .matched => .ok ⟨s.position.offset - start.offset, s.position⟩
      | .aborted e => .error (.action e)
      | .failed => .error (.mismatch ⟨farthest.position.getD start, farthest.expected,
          (foundAt s.takeError.2 (farthest.position.getD start)).1⟩) := by
  unfold answer at read ⊢
  cases failure : s.error with
  | some message =>
    simp only [Stream.takeError, failure] at read
    exact absurd rfl (read message)
  | none =>
    simp only [Stream.takeError, failure]
    cases v <;> rfl

/-- An input that can be read does not fail. -/
theorem ne_input_of_readable {depth : Nat} {observer : Observer τ} {observed : τ} {done : Recognized H τ}
    (readable : s.Readable) (ended : p.parseWithin depth host s observer observed = .ok done) (message : String) :
    done.result ≠ .error (.input message) := by
  obtain ⟨v, st, farthest, run, -, result⟩ := run_of_parseWithin ended
  rw [result, answer]
  simp only [Stream.takeError, (run.readable readable).2]
  cases v <;> nofun

/-- Runs with the same outcome are answered alike. -/
theorem agrees_of_explains {r : Recognizer H S τ} {r' : Recognizer H S τ'}
    {answer : String → Context → List Deed → Except String Bool}
    {ledger : Ledger r text answer} {ledger' : Ledger r' text answer} {out : Outcome} {v v' : Verdict}
    {st₁ st₂ : State H S τ} {st₁' st₂' : State H S τ'} {start : Position} {farthest farthest' : Farthest}
    (explained : ledger.Explains st₁ v st₂ out) (explained' : ledger'.Explains st₁' v' st₂' out)
    (reads : st₂.stream.Over text) (reads' : st₂'.stream.Over text)
    (read : ∀ message, (Parser.answer start farthest v st₂.stream).1 ≠ .error (.input message))
    (read' : ∀ message, (Parser.answer start farthest' v' st₂'.stream).1 ≠ .error (.input message)) :
    Agrees (Parser.answer start farthest v st₂.stream).1 (Parser.answer start farthest' v' st₂'.stream).1 := by
  rw [answer_of_ne_input read, answer_of_ne_input read']
  cases explained with
  | matched added =>
    obtain ⟨rfl, stop, -⟩ := explained'.of_matched
    have place : st₂'.stream.position = st₂.stream.position := by
      rw [reads.position.eq_after, reads'.position.eq_after, stop]
    rw [place]
    exact .recognized _
  | failed =>
    cases explained'
    exact .mismatch _ _
  | aborted =>
    cases explained'
    exact .aborted _

/-- The parsers differ in what they remember only, and both have recognized the same text from the same host, without
a failure of the input. -/
structure Compared (p p' : Parser H S) (host : H) (done : Recognized H τ) (done' : Recognized H τ') : Prop where
  grammar : p.grammar.SameButMemo p'.grammar
  handlers : p'.handlers = p.handlers
  transaction : p'.transaction = p.transaction
  few : p.grammar.productions.size < UInt32.size
  recognized : ∃ (s : Stream) (text : List Char), s.Over text ∧ text.length < UInt32.size ∧
    (∃ depth observer observed, p.parseWithin depth host s observer observed = .ok done) ∧
      ∃ depth observer observed, p'.parseWithin depth host s observer observed = .ok done'
  read : ∀ message, done.result ≠ .error (.input message)
  read' : ∀ message, done'.result ≠ .error (.input message)

/-- Where handlers decide on the matched text alone, any host may be used. -/
private theorem agrees_of_answers {answer : String → Context → Except String Bool} {done : Recognized H τ}
    {done' : Recognized H τ'} (compared : p.Compared p' host done done') (wellFormed : p.grammar.WellFormed)
    (wellFormed' : p'.grammar.WellFormed) (answered : p.handlers.Answers answer) :
    Agrees done.result done'.result := by
  obtain ⟨same, handlers, -, few, ⟨s, text, reads, short, ⟨_, observer, observed, ended⟩,
    _, observer', observed', ended'⟩, read, read'⟩ := compared
  obtain ⟨v, st, farthest, run, -, result⟩ := run_of_parseWithin ended
  obtain ⟨v', st', farthest', run', -, result'⟩ := run_of_parseWithin ended'
  have keyed : (p.recognizer host (Farthest.observe.both observer)).Keyed text :=
    fun _ => ⟨Nat.le_of_lt few, short⟩
  have keyed' : (p'.recognizer host (Farthest.observe.both observer')).Keyed text :=
    fun _ => ⟨by rw [recognizer, same.productions]; exact Nat.le_of_lt few, short⟩
  have answered' : (p'.recognizer host (Farthest.observe.both observer')).handlers.Answers answer := by
    rw [recognizer, handlers]
    exact answered
  obtain ⟨⟨out, parse, explained⟩, -⟩ :=
    (Ledger.coarse text answered wellFormed keyed).explains run trivial reads Ledger.sound_empty
  obtain ⟨⟨out', parse', explained'⟩, -⟩ :=
    (Ledger.coarse text answered' wellFormed' keyed').explains run' trivial reads Ledger.sound_empty
  cases Recognizer.outcome_eq same parse parse'
  rw [result] at read
  rw [result'] at read'
  rw [result, result']
  exact agrees_of_explains explained explained' (run.reads reads) (run'.reads reads) read read'

section

variable {α : Type} {q q' : Parser (Segments α) (List α)} {stack : Segments α} {done : Recognized (Segments α) τ}
  {done' : Recognized (Segments α) τ'} {effect : String → Context → List α → Except String Bool × List α}

/-- A run of the first production from the start of a recognition, on a stack in segments. -/
private theorem explains_first {observer : Observer τ} {observed : τ} {v : Verdict}
    {st : State (Segments α) (List α) (Farthest × τ)} {r : Recognizer (Segments α) (List α) (Farthest × τ)}
    (transactional : r.Transactional effect) (short : text.length < UInt32.size) (reads : s.Over text)
    (run : r.Runs (.rule (.production 0)) (q.initial stack s observer observed) v st) :
    ∃ out, Parses (r.setting text (Deed.answer effect)) (.rule (.production 0)) s.position.offset out ∧
      (transactional.ledger fun _ => short).Explains (q.initial stack s observer observed) v st out ∧
      (v = .failed → st.host = stack) := by
  have known : 0 < r.grammar.productions.size := by
    cases run with
    | production defined =>
      rw [Grammar.root?, Option.map_eq_some_iff] at defined
      obtain ⟨p, found, -⟩ := defined
      exact (Array.getElem?_eq_some_iff.mp found).1
  have standing : r.Standing (.rule (.production 0)) (q.initial stack s observer observed) :=
    ⟨known, Recognizer.mute_empty⟩
  obtain ⟨⟨out, parse, explained⟩, -⟩ :=
    (transactional.ledger fun _ => short).explains run standing reads Ledger.sound_empty
  refine ⟨out, parse, explained, ?_⟩
  rintro rfl
  exact (run.pushes transactional standing).1.restored id

/-- On a stack in segments, the outcome also tells what is on the stack. -/
private theorem agrees_on_stack {b : Builder} {g : Grammar} (compared : q.Compared q' stack done done')
    (wellFormed : g.WellFormed) (built : b.build = .ok g) (flags : g.SameButMemo q.grammar) (quiet : g.Quiet)
    (segments : q.transaction = Segments.transaction) (handlers : q.handlers.Local effect) :
    Agrees done.result done'.result ∧ ((∀ e, done.result ≠ .error (.action e)) → done'.host = done.host) := by
  obtain ⟨same, sameHandlers, sameTransaction, few, ⟨s, text, reads, short, ⟨_, observer, observed, ended⟩,
    _, observer', observed', ended'⟩, read, read'⟩ := compared
  obtain ⟨v, st, farthest, run, host, result⟩ := run_of_parseWithin ended
  obtain ⟨v', st', farthest', run', host', result'⟩ := run_of_parseWithin ended'
  have sheltered : g.Sheltered := Builder.sheltered_of_built built wellFormed
  have flags' : g.SameButMemo q'.grammar := Eq.trans flags same
  have transactional : (q.recognizer stack (Farthest.observe.both observer)).Transactional effect :=
    ⟨flags.wellFormed wellFormed, flags.sheltered sheltered, flags.quiet quiet, segments, handlers,
      fun _ => Nat.le_of_lt few⟩
  have transactional' : (q'.recognizer stack (Farthest.observe.both observer')).Transactional effect :=
    ⟨flags'.wellFormed wellFormed, flags'.sheltered sheltered, flags'.quiet quiet, sameTransaction.trans segments,
      by rw [recognizer, sameHandlers]; exact handlers,
      fun _ => by rw [recognizer, same.productions]; exact Nat.le_of_lt few⟩
  obtain ⟨out, parse, explained, restored⟩ := explains_first transactional short reads run
  obtain ⟨out', parse', explained', restored'⟩ := explains_first transactional' short reads run'
  cases Recognizer.outcome_eq same parse parse'
  rw [result] at read
  rw [result'] at read'
  refine ⟨?_, fun unaborted => ?_⟩
  · rw [result, result']
    exact agrees_of_explains explained explained' (run.reads reads) (run'.reads reads) read read'
  · rw [host, host']
    cases explained with
    | matched added =>
      obtain ⟨-, -, added'⟩ := explained'.of_matched
      exact added'.trans added.symm
    | failed =>
      cases explained'
      rw [restored rfl, restored' rfl]
    | aborted =>
      rw [answer_of_ne_input read] at result
      exact absurd result (unaborted _)

end

/-- Two grammars that differ in memo flags only, with or without a memo table, recognize the same beginnings of
texts; and on a stack in segments they leave the same items behind, unless an action ended the recognition. -/
theorem memoization_transparent :
    (∀ {H S τ τ' : Type} {p p' : Parser H S} {host : H} {done : Recognized H τ} {done' : Recognized H τ'}
      {answer : String → Context → Except String Bool}, p.Compared p' host done done' →
      p.grammar.WellFormed → p'.grammar.WellFormed → p.handlers.Answers answer → Agrees done.result done'.result) ∧
    ∀ {α τ τ' : Type} {q q' : Parser (Segments α) (List α)} {stack : Segments α}
      {done : Recognized (Segments α) τ} {done' : Recognized (Segments α) τ'} {b : Builder} {g : Grammar}
      {effect : String → Context → List α → Except String Bool × List α}, q.Compared q' stack done done' →
      g.WellFormed → b.build = .ok g → g.SameButMemo q.grammar → g.Quiet →
      q.transaction = Segments.transaction → q.handlers.Local effect →
      Agrees done.result done'.result ∧ ((∀ e, done.result ≠ .error (.action e)) → done'.host = done.host) := by
  constructor
  · intro H S τ τ' p p' host done done' answer compared wellFormed wellFormed' answered
    exact agrees_of_answers compared wellFormed wellFormed' answered
  · intro α τ τ' q q' stack done done' b g effect compared wellFormed built flags quiet segments handlers
    exact agrees_on_stack compared wellFormed built flags quiet segments handlers

/-- A memo table keeps no recognition from coming to an end. -/
theorem exists_parseWithin {answer : String → Context → Except String Bool} {depth : Nat} {observer : Observer τ}
    {observed : τ} {done : Recognized H τ} (wellFormed : p.grammar.WellFormed) (answered : p.handlers.Answers answer)
    (few : p.grammar.productions.size < UInt32.size) (reads : s.Over text) (short : text.length < UInt32.size)
    (ended : { p with memoize := false }.parseWithin depth host s observer observed = .ok done) :
    ∃ depth done', p.parseWithin depth host s observer observed = .ok done' := by
  obtain ⟨v, st, -, run, -, -⟩ := run_of_parseWithin ended
  have keyed : (p.recognizer host (Farthest.observe.both observer)).Keyed text := fun _ => ⟨Nat.le_of_lt few, short⟩
  obtain ⟨⟨out, parse, -⟩, -⟩ :=
    (Ledger.coarse text answered wellFormed fun _ => ⟨Nat.le_of_lt few, short⟩).explains run trivial reads
      Ledger.sound_empty
  obtain ⟨v, st, run⟩ : (p.recognizer host (Farthest.observe.both observer)).Halts (.rule (.production 0))
      (p.initial host s observer observed) :=
    (Ledger.coarse text answered wellFormed keyed).halts parse 0 trivial reads rfl Ledger.sound_empty
  obtain ⟨depth, ended⟩ := parseWithin_iff_run.mpr ⟨v, st, run, rfl⟩
  exact ⟨depth, _, ended⟩

end Parser

namespace Sample

/-- `S : A "x" / A "y" ; A : $keep("a") ;` -/
def pairSteps : List Builder.Step :=
  let alternative (last : String) : List Builder.Step :=
    [.mark, .reference "A" false, .terminal (.token last true), .sequence, .release]
  [.startProduction "S"] ++ alternative "x" ++ alternative "y" ++ [.choice, .endProduction] ++
    [.startProduction "A", .terminal (.token "a" true), .action "keep", .endProduction]

def pairBuilder : Builder := .ofSteps pairSteps

def pairGrammar : Grammar := pairBuilder.build.toOption.getD .empty

/-- A parser that remembers nothing. -/
def pairParser : Parser (Segments (List Char)) (List (List Char)) where
  grammar := pairGrammar
  handlers := keeper.handlers
  transaction := Segments.transaction
  memoize := false

/-- The parser that remembers all matches of productions. -/
def pairMemoParser : Parser (Segments (List Char)) (List (List Char)) :=
  { pairParser with grammar := pairGrammar.injectMemo.2, memoize := true }

theorem pairBuilder_build : pairBuilder.build = .ok pairGrammar := eq_ok_getD (by decide +kernel)

/-- The beginning of `ay` is recognized. -/
def pairStream : Stream := .ofSource ⟨['a', 'y'], none⟩

def silent : Observer Unit := fun _ _ _ observed => observed

theorem keeper_answers : keeper.handlers.Answers fun _ _ => .ok true where
  handled := by
    intro name handler found context s
    by_cases same : "keep" = name
    · subst same
      cases found
      rfl
    · simp [keeper, Handlers.find?, same] at found
  unhandled := fun _ _ => rfl

/-- A match is loaded from the table in the second alternative, and it leaves the same item. -/
theorem pair_agrees : ∃ done done' : Recognized (Segments (List Char)) Unit,
    pairParser.Compared pairMemoParser .empty done done' ∧ done.result = .ok ⟨2, ⟨2, 1, 3⟩⟩ ∧
      Parser.Agrees done.result done'.result ∧ done'.host = done.host := by
  have wellFormed := ((Builder.balanced_ofSteps pairSteps).built pairBuilder_build).1
  have quiet : pairGrammar.Quiet := Grammar.quiet_of_hushed wellFormed (by decide +kernel)
  have flags : pairGrammar.SameButMemo pairMemoParser.grammar := Grammar.sameButMemo_injectMemo _
  have few : pairGrammar.productions.size < UInt32.size := by decide +kernel
  have readable : pairStream.Readable := Stream.readable_ofSource rfl
  have reads : pairStream.Over ['a', 'y'] := Stream.over_ofSource ⟨['a', 'y'], none⟩
  have evaluated : (pairParser.parseWithin 9 .empty pairStream silent ()).toOption.map (·.result) =
      some (.ok ⟨2, ⟨2, 1, 3⟩⟩) := by decide +kernel
  obtain ⟨done, ended, result⟩ := Option.map_eq_some_iff.mp evaluated
  have ended := eq_ok_of_toOption ended
  -- The table is a hash map, which the kernel does not evaluate: that its parser ends follows from the one without it.
  have plain : ({ pairMemoParser with memoize := false }.parseWithin 9 .empty pairStream silent ()).toOption.isSome =
      true := by decide +kernel
  obtain ⟨_, plain⟩ := Option.isSome_iff_exists.mp plain
  obtain ⟨_, done', ended'⟩ := Parser.exists_parseWithin (flags.wellFormed wellFormed) keeper_answers
    (by rw [flags.productions]; exact few) reads (by decide) (eq_ok_of_toOption plain)
  have compared : pairParser.Compared pairMemoParser .empty done done' :=
    ⟨flags, rfl, rfl, few, ⟨pairStream, _, reads, by decide, ⟨_, _, _, ended⟩, _, _, _, ended'⟩,
      Parser.ne_input_of_readable readable ended, Parser.ne_input_of_readable readable ended'⟩
  obtain ⟨agrees, host⟩ := Parser.memoization_transparent.2 compared wellFormed pairBuilder_build rfl quiet rfl
    keeper_local
  refine ⟨done, done', compared, result, agrees, host ?_⟩
  rw [result]
  nofun

end Sample

end Packrat
