import Packrat.Proofs.Recognition.Meaning
import Packrat.Proofs.Recognition.Mirror
import Packrat.Proofs.Recognition.Transparency

/-! # Undo scopes do not show

Undo scopes change what is left in the host, and nothing else. With handlers that decide on the matched text alone, a
recognition has the same result with and without them: it ends or does not end, it matches the same text, and it finds
the same error in the same place. On the way it calls the same handlers with the same texts.
-/

namespace Packrat

variable {H S τ τ' : Type}

/-- A call of the handler of an action. -/
structure HandlerCall where
  name : String
  context : Context
deriving DecidableEq, Repr

/-- The same scopes on a host with a list of calls beside it, which no scope touches. -/
def Transaction.withCalls (t : Transaction H S) : Transaction (H × List HandlerCall) S where
  start host := (t.start host.1, host.2)
  commit host := (t.commit host.1, host.2)
  rollback host := (t.rollback host.1, host.2)
  save host := ((t.save host.1).1, (t.save host.1).2, host.2)
  load snapshot host := (t.load snapshot host.1, host.2)
  memoable host := t.memoable host.1

/-- The handler of the action `name`, with its calls put down. -/
def Handler.withCalls (name : String) (handler : Handler H) : Handler (H × List HandlerCall) :=
  fun context host => ((handler context host.1).1, (handler context host.1).2, host.2 ++ [⟨name, context⟩])

def Handlers.withCalls (handlers : Handlers H) : Handlers (H × List HandlerCall) :=
  ⟨handlers.entries.map fun entry => (entry.1, entry.2.withCalls entry.1)⟩

theorem Handlers.find?_withCalls (handlers : Handlers H) (name : String) :
    handlers.withCalls.find? name = (handlers.find? name).map (Handler.withCalls name) := by
  simp only [withCalls, find?, Array.find?_map, Option.map_map, Function.comp_def]
  cases found : handlers.entries.find? fun entry => entry.1 == name with
  | none => rfl
  | some entry =>
    have same : entry.1 = name := by simpa using Array.find?_some found
    rw [Option.map_some, Option.map_some, same]

/-- What handlers that decide on the text do to a list of calls: one that is there puts its calls down. -/
def Handlers.calling (handlers : Handlers H) (answer : String → Context → Except String Bool) (name : String) :
    Handler (List HandlerCall) :=
  fun context calls => (answer name context,
    if (handlers.find? name).isSome then calls ++ [⟨name, context⟩] else calls)

namespace Parser

variable {p : Parser H S} {host : H} {s : Stream} {answer : String → Context → Except String Bool}
  {result : Except RecognitionError Recognition}

/-- The parser with a list of the calls of handlers beside the host. -/
def withCalls (p : Parser H S) : Parser (H × List HandlerCall) S :=
  ⟨p.grammar, p.handlers.withCalls, p.transaction.withCalls, p.memoize⟩

/-- The parser with its grammar rewritten. -/
def rewrite (p : Parser H S) (steps : List Rewriting) : Parser H S := { p with grammar := p.grammar.rewrite steps }

/-- A recognition that may go as deep as it must ends with `result`. -/
def Ends (p : Parser H S) (host : H) (s : Stream) (observer : Observer τ) (observed : τ)
    (result : Except RecognitionError Recognition) : Prop :=
  ∃ depth done, p.parseWithin depth host s observer observed = .ok done ∧ done.result = result

/-- A recognition ends with `result` and has called these handlers, in this order. -/
def Calls (p : Parser H S) (host : H) (s : Stream) (result : Except RecognitionError Recognition)
    (calls : List HandlerCall) : Prop :=
  ∃ depth done, p.withCalls.parseWithin depth (host, []) s .silent () = .ok done ∧ done.result = result ∧
    done.host.2 = calls

/-- What is kept of a host, with the farthest failure beside whatever else was observed. -/
def viewing {α : Type} (keep : H → α) : View H (Farthest × τ) α := ⟨keep, Prod.fst⟩

/-- Handlers that decide on the text do so whatever becomes of the host. -/
theorem seen_blind (answered : p.handlers.Answers answer) (observer : Observer τ) :
    (p.recognizer host (Farthest.observe.both observer)).Seen (viewing fun _ => ())
      fun name context _ => (answer name context, ()) where
  start _ := rfl
  commit _ := rfl
  rollback _ := rfl
  save _ := rfl
  load _ _ := rfl
  handled found context host := ⟨answered.handled found context host, rfl⟩
  unhandled missing context _ := by rw [answered.unhandled missing]
  observed _ _ _ := rfl

theorem seen_withCalls (answered : p.handlers.Answers answer) (observer : Observer τ) :
    (p.withCalls.recognizer (host, []) (Farthest.observe.both observer)).Seen (viewing Prod.snd)
      (p.handlers.calling answer) where
  start _ := rfl
  commit _ := rfl
  rollback _ := rfl
  save _ := rfl
  load _ _ := rfl
  handled {name handler} found context host := by
    have found : p.handlers.withCalls.find? name = some handler := found
    rw [Handlers.find?_withCalls] at found
    obtain ⟨plain, here, rfl⟩ := Option.map_eq_some_iff.mp found
    simp only [Handlers.calling, here, Option.isSome_some, ↓reduceIte]
    exact ⟨answered.handled here context host.1, rfl⟩
  unhandled {name} missing context calls := by
    have missing : p.handlers.withCalls.find? name = none := missing
    rw [Handlers.find?_withCalls, Option.map_eq_none_iff] at missing
    simp only [Handlers.calling, missing, answered.unhandled missing, Option.isSome_none, Bool.false_eq_true,
      ↓reduceIte]
  observed _ _ _ := rfl

theorem answers_withCalls (answered : p.handlers.Answers answer) : p.withCalls.handlers.Answers answer where
  handled {name handler} found context host := by
    have found : p.handlers.withCalls.find? name = some handler := found
    rw [Handlers.find?_withCalls] at found
    obtain ⟨plain, here, rfl⟩ := Option.map_eq_some_iff.mp found
    exact answered.handled here context host.1
  unhandled {name} missing := by
    have missing : p.handlers.withCalls.find? name = none := missing
    rw [Handlers.find?_withCalls, Option.map_eq_none_iff] at missing
    exact answered.unhandled missing

/-- A recognition is mirrored by one with the same result, and with as much of the host as is kept. -/
theorem exists_mirrored {H' S' α : Type} {p' : Parser H' S'} {host' : H'} {observer : Observer τ}
    {observer' : Observer τ'} {observed : τ} {keep : H → α} {keep' : H' → α} {handlers : String → Handler α}
    {depth : Nat} {done : Recognized H τ} (observed' : τ')
    (mirrors : (p.recognizer host (Farthest.observe.both observer)).Mirrors
      (p'.recognizer host' (Farthest.observe.both observer')) (viewing keep) (viewing keep') handlers)
    (same : keep' host' = keep host) (ended : p.parseWithin depth host s observer observed = .ok done) :
    ∃ depth' done', p'.parseWithin depth' host' s observer' observed' = .ok done' ∧ done'.result = done.result ∧
      keep' done'.host = keep done.host := by
  obtain ⟨v, st, run, rfl⟩ := parseWithin_iff_run.mp ⟨depth, ended⟩
  have start : (p'.initial host' s observer' observed').sight (viewing keep') =
      (p.initial host s observer observed).sight (viewing keep) := by
    simp only [State.sight, initial, Recognizer.note, viewing, same, Memo.Table.get?_empty, Option.map_none]
    rfl
  obtain ⟨st', run', shown⟩ := run.mirrored mirrors (.production 0) _ start
  obtain ⟨depth', ended'⟩ := parseWithin_iff_run.mpr ⟨v, st', run', rfl⟩
  refine ⟨depth', _, ended', ?_, congrArg Sight.host shown⟩
  have stream : st'.stream.under [] = st.stream.under [] := congrArg Sight.stream shown
  have farthest : st'.observed.1 = st.observed.1 := congrArg Sight.farthest shown
  change (answer s.position st'.observed.1 v st'.stream).1 = (answer s.position st.observed.1 v st.stream).1
  rw [← answer_under st'.stream [], stream, answer_under, farthest]

/-- With any undo scopes, put in by any steps, a parser recognizes the same: it ends if it did before, with the same
text matched, the same syntax error or the same error of an action, and it has called the same handlers with the same
contexts, in the same order. That calls are put down makes no difference. -/
theorem undo_transparent {steps : List Rewriting} (wellFormed : p.grammar.WellFormed)
    (answered : p.handlers.Answers answer) (undoOnly : ∀ step ∈ steps, step.undoOnly = true) :
    (∀ {τ τ' : Type} (observer : Observer τ) (observed : τ) (observer' : Observer τ') (observed' : τ') host s result,
      p.Ends host s observer observed result ↔
        (p.rewrite steps).Ends host s observer' observed' result) ∧
    (∀ host s result calls, p.Calls host s result calls ↔
      (p.rewrite steps).Calls host s result calls) ∧
    ∀ {τ : Type} (observer : Observer τ) (observed : τ) host s result,
      p.Ends host s observer observed result ↔ ∃ calls, p.Calls host s result calls := by
  have twins := wellFormed.twins_rewrite undoOnly
  have answered' : (p.rewrite steps).handlers.Answers answer := answered
  have itself : p.grammar.Twins p.grammar := (Grammar.Dressed.refl _ _).twins wellFormed
  refine ⟨?_, ?_, ?_⟩
  · intro τ τ' observer observed observer' observed' host s result
    have mirrors : (p.recognizer host (Farthest.observe.both observer)).Mirrors
        ((p.rewrite steps).recognizer host (Farthest.observe.both observer'))
        (viewing fun _ => ()) (viewing fun _ => ()) fun name context _ => (answer name context, ()) :=
      ⟨seen_blind answered observer, seen_blind answered' observer', twins, rfl⟩
    constructor
    · rintro ⟨depth, done, ended, rfl⟩
      obtain ⟨depth', done', ended', same, -⟩ := exists_mirrored observed' mirrors rfl ended
      exact ⟨depth', done', ended', same⟩
    · rintro ⟨depth, done, ended, rfl⟩
      obtain ⟨depth', done', ended', same, -⟩ := exists_mirrored observed mirrors.flip rfl ended
      exact ⟨depth', done', ended', same⟩
  · intro host s result calls
    have mirrors : (p.withCalls.recognizer (host, []) (Farthest.observe.both .silent)).Mirrors
        ((p.rewrite steps).withCalls.recognizer (host, []) (Farthest.observe.both .silent))
        (viewing Prod.snd) (viewing Prod.snd) (p.handlers.calling answer) :=
      ⟨seen_withCalls answered .silent, seen_withCalls answered' .silent, twins, rfl⟩
    constructor
    · rintro ⟨depth, done, ended, rfl, rfl⟩
      exact exists_mirrored () mirrors rfl ended
    · rintro ⟨depth, done, ended, rfl, rfl⟩
      exact exists_mirrored () mirrors.flip rfl ended
  · intro τ observer observed host s result
    have mirrors : (p.recognizer host (Farthest.observe.both observer)).Mirrors
        (p.withCalls.recognizer (host, []) (Farthest.observe.both .silent))
        (viewing fun _ => ()) (viewing fun _ => ()) fun name context _ => (answer name context, ()) :=
      ⟨seen_blind answered observer, seen_blind (answers_withCalls answered) .silent, itself, rfl⟩
    constructor
    · rintro ⟨depth, done, ended, rfl⟩
      obtain ⟨depth', done', ended', same, -⟩ := exists_mirrored () mirrors rfl ended
      exact ⟨_, depth', done', ended', same, rfl⟩
    · rintro ⟨calls, depth, done, ended, rfl, -⟩
      obtain ⟨depth', done', ended', same, -⟩ := exists_mirrored observed mirrors.flip rfl ended
      exact ⟨depth', done', ended', same⟩

end Parser

namespace Sample

/-- Runs of at least two letters, and nothing behind them. -/
def lettersParser : Parser Nat Unit :=
  ⟨letters, lettersRecognizer.handlers, lettersRecognizer.transaction, true⟩

/-- The one run of three letters is handed to its handler, with an undo scope around the whole and one more. -/
theorem letters_undo_transparent : letters.WellFormed ∧ letters.undoSites = [5] ∧
    (lettersParser.rewrite [.injectUndo, .splice 2 .undo]).Calls 0 lettersState.stream (.ok ⟨3, ⟨3, 1, 4⟩⟩)
      [⟨"run", ['a', 'a', 'a'], ⟨⟨0, 1, 1⟩, ⟨3, 1, 4⟩⟩⟩] := by
  have wellFormed : letters.WellFormed := Grammar.wellFormed_of_linked (by decide)
  have undoOnly : ∀ step ∈ [Rewriting.injectUndo, .splice 2 .undo], step.undoOnly = true := by decide
  refine ⟨wellFormed, by decide +kernel, ?_⟩
  have transparent := Parser.undo_transparent (p := lettersParser) wellFormed lettersRecognizer_answers undoOnly
  apply (transparent.2.1 _ _ _ _).mp
  have evaluated : (lettersParser.withCalls.parseWithin 9 (0, []) lettersState.stream .silent ()).toOption.map
      (fun done => (done.result, done.host.2)) =
        some (.ok ⟨3, ⟨3, 1, 4⟩⟩, [⟨"run", ['a', 'a', 'a'], ⟨⟨0, 1, 1⟩, ⟨3, 1, 4⟩⟩⟩]) := by decide +kernel
  obtain ⟨done, ended, same⟩ := Option.map_eq_some_iff.mp evaluated
  obtain ⟨result, calls⟩ := Prod.mk.inj same
  exact ⟨9, done, eq_ok_of_toOption ended, result, calls⟩

end Sample

end Packrat
