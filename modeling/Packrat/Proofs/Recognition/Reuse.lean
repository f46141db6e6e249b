import Packrat.Proofs.Recognition.Crowds
import Packrat.Proofs.Recognition.Furthest
import Packrat.Proofs.Recognition.Recall

/-! # Memoization and the furthest failure

A match that was remembered in a lookahead, where failures do not count, can be recalled outside of lookaheads, and
then what its production missed is never noted. So the error of a recognition may come out less far or expect less
than without memoization. Nothing else makes a difference: where no such match is recalled, the error is the same.
-/

namespace Packrat

open Peg (misses)

theorem Trail.mem_failedAt {g : Grammar} {trail : Trail} {offset : Nat} {t : Terminal} :
    t ∈ failedAt (trail.failures g) offset ↔ (offset, t) ∈ trail.misses g := by
  simp [failedAt, List.mem_eraseDups, misses]

namespace SyntaxError.Furthest

variable {e e' : SyntaxError} {start : Position} {text : List Char} {g g' : Grammar} {trail trail' : Trail}

/-- The place is the start or that of a failure. -/
theorem farthest_eq (furthest : e.Furthest start text (trail.failures g)) (begins : start = .after text start.offset)
    (placed : ∀ failure ∈ trail.failures g,
      failure.1 = .after text failure.1.offset ∧ start.offset ≤ failure.1.offset) :
    e.farthest = .after text e.farthest.offset ∧ start.offset ≤ e.farthest.offset := by
  by_cases none : trail.failures g = []
  · rw [(furthest.none none).1]
    exact ⟨begins, Nat.le_refl _⟩
  · obtain ⟨t, member⟩ := (furthest.place none).1
    exact placed _ member

/-- With fewer misses the error is not further, and at the same place it expects no others. -/
theorem mono (furthest : e.Furthest start text (trail.failures g))
    (furthest' : e'.Furthest start text (trail'.failures g')) (fewer : trail'.misses g' ⊆ trail.misses g)
    (ahead : start.offset ≤ e.farthest.offset) :
    e'.farthest.offset ≤ e.farthest.offset ∧ (e'.farthest = e.farthest → e'.expected ⊆ e.expected) := by
  constructor
  · by_cases none : trail'.failures g' = []
    · rw [(furthest'.none none).1]
      exact ahead
    · obtain ⟨t, member⟩ := (furthest'.place none).1
      have missed : (e'.farthest.offset, t) ∈ trail'.misses g' := ⟨_, member, rfl, rfl⟩
      obtain ⟨failure, member, offset, -⟩ := fewer missed
      exact Nat.le_trans (Nat.le_of_eq offset.symm) ((furthest.place (List.ne_nil_of_mem member)).2 failure member)
  · intro same t member
    rw [furthest'.expected, same, Trail.mem_failedAt] at member
    rw [furthest.expected, Trail.mem_failedAt]
    exact fewer member

end SyntaxError.Furthest

namespace Parser

variable {H H' S S' τ τ' : Type} {p : Parser H S} {p' : Parser H' S'} {host : H} {host' : H'} {s : Stream}
  {text : List Char} {answer : String → Context → Except String Bool} {log log' : Log}

/-- A recognition notes what the first production misses. -/
theorem Logged.accounts (logged : p.Logged host s log) (answered : p.handlers.Answers answer)
    (wellFormed : p.grammar.WellFormed) (few : p.grammar.productions.size < UInt32.size) (reads : s.Over text)
    (short : text.length < UInt32.size) :
    (Trail.ofLog log).misses p.grammar ⊆
        misses (p.grammar.plainSetting text answer) (.rule (.production 0)) s.position.offset ∧
      ((Trail.ofLog log).Faithful p.grammar →
        misses (p.grammar.plainSetting text answer) (.rule (.production 0)) s.position.offset ⊆
          (Trail.ofLog log).misses p.grammar) := by
  obtain ⟨v, st, run, rfl⟩ := logged.run
  have keyed : (p.recognizer host Tracks.observer).Keyed text := fun _ => ⟨Nat.le_of_lt few, short⟩
  obtain ⟨only, all⟩ :=
    @Recognizer.Runs.accounts _ _ _ _ Prod.snd _ _ _ _ _ _ run (fun _ _ _ => rfl) answered wellFormed keyed trivial
      trivial reads Ledger.sound_empty
  constructor
  · intro miss member
    rcases only miss member with ⟨failure, member, -⟩ | ⟨-, missed⟩
    · cases member
    · exact missed
  · intro faithful
    refine (all faithful ⟨fun _ _ found => ?_, nofun⟩).2 rfl
    simp [initial, Recognizer.note] at found

/-- Without memoization nothing is recalled. -/
theorem Logged.faithful_of_plain (logged : p.Logged host s log) (plain : p.memoize = false) :
    (Trail.ofLog log).Faithful p.grammar := by
  obtain ⟨v, st, run, rfl⟩ := logged.run
  have forgetful : (p.recognizer host Tracks.observer).memoize = false := by simp [recognizer, plain]
  have hits := @Recognizer.Runs.hits_of_plain _ _ _ _ _ _ _ _ Prod.snd run (fun _ _ _ => rfl) forgetful
  intro hit recalled
  have none : hit ∈ ((p.initial host s .recording []).trail Prod.snd).hits := hits ▸ recalled
  cases none

/-- The recognition ends with the error, whoever observes it, and its events are those of the log. -/
structure Rejects (p : Parser H S) (host : H) (s : Stream) (e : SyntaxError) (log : Log) : Prop where
  ended : ∃ (τ : Type) (observer : Observer τ) (observed : τ) (depth : Nat) (done : Recognized H τ),
    p.parseWithin depth host s observer observed = .ok done ∧ done.result = .error (.mismatch e)
  logged : p.Logged host s log

variable {e e' : SyntaxError}

/-- A recognition that is recorded tells both. -/
theorem rejects_of_run {v : Verdict} {st : State H S (Farthest × Log)}
    (run : (p.recognizer host Tracks.observer).Runs (.rule (.production 0)) (p.initial host s .recording []) v st)
    (mismatch : (p.recognized s.position .recording v st).result = .error (.mismatch e)) :
    p.Rejects host s e (p.recognized s.position .recording v st).observed := by
  obtain ⟨depth, ended⟩ := parseWithin_iff_run.mpr ⟨v, st, run, rfl⟩
  exact ⟨⟨_, _, _, depth, _, ended, mismatch⟩, depth, _, ended, rfl⟩

theorem exists_rejects {depth : Nat}
    (evaluated : (p.parseWithin depth host s .recording []).toOption.map (·.result) = some (.error (.mismatch e))) :
    ∃ log, p.Rejects host s e log := by
  obtain ⟨done, ended, mismatch⟩ := Option.map_eq_some_iff.mp evaluated
  have ended := eq_ok_of_toOption ended
  exact ⟨_, ⟨_, _, _, depth, done, ended, mismatch⟩, depth, done, ended, rfl⟩

theorem Rejects.furthest (rejects : p.Rejects host s e log) (reads : s.Over text) :
    e.Furthest s.position text ((Trail.ofLog log).failures p.grammar) := by
  obtain ⟨_, observer, observed, depth, done, ended, mismatch⟩ := rejects.ended
  exact rejects.logged.furthest reads ended mismatch

theorem Rejects.farthest_eq (rejects : p.Rejects host s e log) (reads : s.Over text) :
    e.farthest = .after text e.farthest.offset ∧ s.position.offset ≤ e.farthest.offset :=
  (rejects.furthest reads).farthest_eq reads.position.eq_after (rejects.logged.placed reads)

/-- What is not noted for a match that was recalled does not make an error go further. -/
theorem Rejects.mono (rejects : p.Rejects host s e log) (rejects' : p'.Rejects host' s e' log')
    (same : p.grammar.SameButMemo p'.grammar) (wellFormed : p.grammar.WellFormed)
    (few : p.grammar.productions.size < UInt32.size) (answered : p.handlers.Answers answer)
    (answered' : p'.handlers.Answers answer) (reads : s.Over text) (short : text.length < UInt32.size)
    (faithful : (Trail.ofLog log).Faithful p.grammar) :
    e'.farthest.offset ≤ e.farthest.offset ∧ (e'.farthest = e.farthest → e'.expected ⊆ e.expected) := by
  have few' : p'.grammar.productions.size < UInt32.size := same.productions ▸ few
  have noted := (rejects.logged.accounts answered wellFormed few reads short).2 faithful
  have noted' := (rejects'.logged.accounts answered' (same.wellFormed wellFormed) few' reads short).1
  have alike : p'.grammar.plainSetting text answer = p.grammar.plainSetting text answer := by
    rw [Grammar.plainSetting, ← same, Grammar.plainSetting]
  rw [alike] at noted'
  exact (rejects.furthest reads).mono (rejects'.furthest reads) (noted'.trans noted) (rejects.farthest_eq reads).2

/-- Of two recognitions that differ in what they remember, one that recalls outside of lookaheads just what it
remembered there has the furthest error, and expects all that the other one expects there. So two such recognitions
have the same error. -/
theorem errors_agree (rejects : p.Rejects host s e log) (rejects' : p'.Rejects host' s e' log')
    (same : p.grammar.SameButMemo p'.grammar) (wellFormed : p.grammar.WellFormed)
    (few : p.grammar.productions.size < UInt32.size) (answered : p.handlers.Answers answer)
    (answered' : p'.handlers.Answers answer) (reads : s.Over text) (short : text.length < UInt32.size)
    (faithful : (Trail.ofLog log).Faithful p.grammar) :
    (e'.farthest.offset ≤ e.farthest.offset ∧ (e'.farthest = e.farthest → e'.expected ⊆ e.expected)) ∧
      ((Trail.ofLog log').Faithful p'.grammar →
        e'.farthest = e.farthest ∧ ∀ t, t ∈ e'.expected ↔ t ∈ e.expected) := by
  have fewer := rejects.mono rejects' same wellFormed few answered answered' reads short faithful
  refine ⟨fewer, fun faithful' => ?_⟩
  have few' : p'.grammar.productions.size < UInt32.size := same.productions ▸ few
  have more :=
    rejects'.mono rejects same.symm (same.wellFormed wellFormed) few' answered' answered reads short faithful'
  have place : e'.farthest = e.farthest := by
    rw [(rejects.farthest_eq reads).1, (rejects'.farthest_eq reads).1, Nat.le_antisymm fewer.1 more.1]
  exact ⟨place, fun t => ⟨fun member => fewer.2 place member, fun member => more.2 place.symm member⟩⟩

end Parser

namespace Sample

/-- A parser without actions on a host without state. -/
def bareParser (grammar : Grammar) (memoize : Bool) : Parser Unit Unit where
  grammar := grammar
  handlers := ⟨#[]⟩
  transaction := .stateless Unit
  memoize := memoize

theorem bareParser_answers (g : Grammar) (memoize : Bool) :
    (bareParser g memoize).handlers.Answers fun _ _ => .ok true where
  handled := nofun
  unhandled := fun _ _ => rfl

def letterStream : Stream := .ofSource ⟨['b'], none⟩

/-- A terminal that does not match. -/
theorem runs_mismatch {H S τ : Type} {r : Recognizer H S τ} {i : Nat} {t : Terminal} {st : State H S τ}
    (fails : (t.recognize st.stream).1 = false) :
    r.Runs (.operator i (.terminal t)) st .failed { st with stream := (t.recognize st.stream).2 } := by
  have run : r.Runs (.operator i (.terminal t)) st _ _ := .terminal
  rwa [fails] at run

/-- `S : @P 'x' / &@P @P 'c' ; P : 'a'? ;` -/
def retrySteps : List Builder.Step :=
  [.startProduction "S", .mark, .reference "P" true, .terminal (.token "x" true), .sequence, .release,
    .mark, .reference "P" true, .lookahead .present, .reference "P" true, .terminal (.token "c" true), .sequence,
    .release, .choice, .endProduction,
    .startProduction "P", .terminal (.token "a" true), .repetition 0 1, .endProduction]

def retry : Grammar := (Builder.ofSteps retrySteps).build.toOption.getD .empty

def retryExprs : List Expr :=
  [.reference 1 true, .terminal (.token "x" true), .sequence [0, 1], .reference 1 true, .lookahead 3 .present,
    .reference 1 true, .terminal (.token "c" true), .sequence [4, 5, 6], .choice [2, 7], .terminal (.token "a" true),
    .repetition 9 0 1]

theorem retry_expr? (i : Nat) : retry.expr? i = retryExprs[i]? := Grammar.expr?_of_nodes (by decide +kernel) i

/-- The match of `P` is remembered in the first alternative and recalled twice in the second one. -/
theorem retry_recalled :
    ∃ log, (bareParser retry true).Rejects () letterStream
        ⟨⟨0, 1, 1⟩, [.token "a" true, .token "x" true, .token "c" true], "b"⟩ log ∧
      (Trail.ofLog log).Faithful retry ∧ (Trail.ofLog log).hits.length = 2 := by
  let p := bareParser retry true
  let r := p.recognizer () Tracks.observer
  have start : r.grammar.root? 0 = some 8 := by decide +kernel
  have body : r.grammar.root? 1 = some 10 := by decide +kernel
  have choice : r.grammar.expr? 8 = some (.choice [2, 7]) := retry_expr? 8
  have once : r.grammar.expr? 2 = some (.sequence [0, 1]) := retry_expr? 2
  have again : r.grammar.expr? 7 = some (.sequence [4, 5, 6]) := retry_expr? 7
  have lookahead : r.grammar.expr? 4 = some (.lookahead 3 .present) := retry_expr? 4
  have first : r.grammar.expr? 0 = some (.reference 1 true) := retry_expr? 0
  have second : r.grammar.expr? 3 = some (.reference 1 true) := retry_expr? 3
  have third : r.grammar.expr? 5 = some (.reference 1 true) := retry_expr? 5
  have optional : r.grammar.expr? 10 = some (.repetition 9 0 1) := retry_expr? 10
  have letter : r.grammar.expr? 9 = some (.terminal (.token "a" true)) := retry_expr? 9
  have behind : r.grammar.expr? 1 = some (.terminal (.token "x" true)) := retry_expr? 1
  have last : r.grammar.expr? 6 = some (.terminal (.token "c" true)) := retry_expr? 6
  have run : ∃ st, r.Runs (.rule (.production 0)) (p.initial () letterStream .recording []) .failed st ∧
      (p.recognized letterStream.position .recording .failed st).result = .error (.mismatch
        ⟨⟨0, 1, 1⟩, [.token "a" true, .token "x" true, .token "c" true], "b"⟩) ∧
      (Trail.ofLog (p.recognized letterStream.position .recording .failed st).observed).Faithful retry ∧
      (Trail.ofLog (p.recognized letterStream.position .recording .failed st).observed).hits.length = 2 := by
    refine ⟨_, .production start (.marked (.expression choice (.choice (.firstNext
      (.marked (.expression once (.sequence (.marked (.allNext
        (.expression first (.store rfl (Memo.Table.get?_empty ..) (.production body (.marked
          (.expression optional (.repetition (.marked (.repeatedEnough .allDone (.upToEnd
            (.expression letter (runs_mismatch (by decide +kernel))))))))))))
        (.allStop (.expression behind (runs_mismatch (by decide +kernel))) nofun))))))
      (.firstNext (.marked (.expression again (.sequence (.marked (.allNext
        (.expression lookahead (.present (.expression second (.hit rfl (Memo.Table.get?_insert_self ..)))))
        (.allNext (.expression third (.hit rfl (Memo.Table.get?_insert_self ..)))
          (.allStop (.expression last (runs_mismatch (by decide +kernel))) nofun)))))))
        .firstNone))))), ?_, ?_, ?_⟩
    · decide +kernel
    · decide +kernel
    · decide +kernel
  obtain ⟨st, run, mismatch, faithful, hits⟩ := run
  exact ⟨_, Parser.rejects_of_run run mismatch, faithful, hits⟩

theorem retry_parsed :
    ∃ log, (bareParser retry.plain false).Rejects () letterStream
      ⟨⟨0, 1, 1⟩, [.token "a" true, .token "x" true, .token "c" true], "b"⟩ log :=
  @Parser.exists_rejects _ _ _ _ _ _ 12 (by decide +kernel)

/-- A parser that remembers and recalls has the error of one that does not. -/
theorem retry_agrees : ∃ e e' log log', (bareParser retry.plain false).Rejects () letterStream e log ∧
    (bareParser retry true).Rejects () letterStream e' log' ∧ retry.plain.SameButMemo retry ∧ retry.plain.WellFormed ∧
    retry.plain.productions.size < UInt32.size ∧ letterStream.Over ['b'] ∧ (Trail.ofLog log).Faithful retry.plain ∧
    (Trail.ofLog log').Faithful retry ∧ (Trail.ofLog log').hits.length = 2 ∧
    (e'.farthest.offset ≤ e.farthest.offset ∧ (e'.farthest = e.farthest → e'.expected ⊆ e.expected)) ∧
    e'.farthest = e.farthest ∧ ∀ t, t ∈ e'.expected ↔ t ∈ e.expected := by
  obtain ⟨log, rejects⟩ := retry_parsed
  obtain ⟨log', rejects', faithful', hits⟩ := retry_recalled
  have same : retry.plain.SameButMemo retry := by
    have twice : retry.plain.plain = retry.plain := by decide +kernel
    exact twice
  have wellFormed : retry.plain.WellFormed := Grammar.wellFormed_of_linked (by decide +kernel)
  have few : retry.plain.productions.size < UInt32.size := by decide +kernel
  have reads : letterStream.Over ['b'] := Stream.over_ofSource ⟨['b'], none⟩
  have faithful : (Trail.ofLog log).Faithful retry.plain := rejects.logged.faithful_of_plain rfl
  obtain ⟨fewer, agrees⟩ := Parser.errors_agree rejects rejects' same wellFormed few (bareParser_answers _ _)
    (bareParser_answers _ _) reads (by decide) faithful
  exact ⟨_, _, log, log', rejects, rejects', same, wellFormed, few, reads, faithful, faithful', hits, fewer,
    agrees faithful'⟩

/-- `S : &@P @P 'c' ; P : 'a'? ;` -/
def glimpseSteps : List Builder.Step :=
  [.startProduction "S", .mark, .reference "P" true, .lookahead .present, .reference "P" true,
    .terminal (.token "c" true), .sequence, .release, .endProduction,
    .startProduction "P", .terminal (.token "a" true), .repetition 0 1, .endProduction]

def glimpse : Grammar := (Builder.ofSteps glimpseSteps).build.toOption.getD .empty

def glimpseExprs : List Expr :=
  [.reference 1 true, .lookahead 0 .present, .reference 1 true, .terminal (.token "c" true), .sequence [1, 2, 3],
    .terminal (.token "a" true), .repetition 5 0 1]

theorem glimpse_expr? (i : Nat) : glimpse.expr? i = glimpseExprs[i]? := Grammar.expr?_of_nodes (by decide +kernel) i

/-- What `P` missed in the lookahead is not expected where its match is recalled. -/
theorem glimpse_recalled :
    ∃ log, (bareParser glimpse true).Rejects () letterStream ⟨⟨0, 1, 1⟩, [.token "c" true], "b"⟩ log := by
  let p := bareParser glimpse true
  let r := p.recognizer () Tracks.observer
  have start : r.grammar.root? 0 = some 4 := by decide +kernel
  have body : r.grammar.root? 1 = some 6 := by decide +kernel
  have sequence : r.grammar.expr? 4 = some (.sequence [1, 2, 3]) := glimpse_expr? 4
  have lookahead : r.grammar.expr? 1 = some (.lookahead 0 .present) := glimpse_expr? 1
  have first : r.grammar.expr? 0 = some (.reference 1 true) := glimpse_expr? 0
  have second : r.grammar.expr? 2 = some (.reference 1 true) := glimpse_expr? 2
  have last : r.grammar.expr? 3 = some (.terminal (.token "c" true)) := glimpse_expr? 3
  have optional : r.grammar.expr? 6 = some (.repetition 5 0 1) := glimpse_expr? 6
  have letter : r.grammar.expr? 5 = some (.terminal (.token "a" true)) := glimpse_expr? 5
  have run : ∃ st, r.Runs (.rule (.production 0)) (p.initial () letterStream .recording []) .failed st ∧
      (p.recognized letterStream.position .recording .failed st).result =
        .error (.mismatch ⟨⟨0, 1, 1⟩, [.token "c" true], "b"⟩) := by
    refine ⟨_, .production start (.marked (.expression sequence (.sequence (.marked (.allNext
      (.expression lookahead (.present (.expression first (.store rfl (Memo.Table.get?_empty ..)
        (.production body (.marked (.expression optional (.repetition (.marked (.repeatedEnough .allDone (.upToEnd
          (.expression letter (runs_mismatch (by decide +kernel))))))))))))))
      (.allNext (.expression second (.hit rfl (Memo.Table.get?_insert_self ..)))
        (.allStop (.expression last (runs_mismatch (by decide +kernel))) nofun))))))), ?_⟩
    decide +kernel
  obtain ⟨st, run, mismatch⟩ := run
  exact ⟨_, Parser.rejects_of_run run mismatch⟩

theorem glimpse_parsed :
    ∃ log, (bareParser glimpse false).Rejects () letterStream
      ⟨⟨0, 1, 1⟩, [.token "a" true, .token "c" true], "b"⟩ log :=
  @Parser.exists_rejects _ _ _ _ _ _ 12 (by decide +kernel)

/-- `S : @P1 @Pn 'c' ; P1 : '' ; P2 : 'b' ; … Pn : 'b' ;` -/
def crowd (n : Nat) : Grammar := crowdBefore (.terminal (.token "c" true)) n

def emptyStream : Stream := .ofSource ⟨[], none⟩

/-- With a table, the match of `P1` is taken for one of `Pn`, if the keys are the same. -/
theorem crowd_rejects (m : Nat) (memoize : Bool) (congruent : (m + 2) % UInt32.size = 1) :
    ∃ e log, (bareParser (crowd (m + 2)) memoize).Rejects () emptyStream e log ∧
      e.expected = [.token (if memoize then "c" else "b") true] := by
  let p := bareParser (crowd (m + 2)) memoize
  let r := p.recognizer () Tracks.observer
  have start : r.grammar.root? 0 = some 0 := crowd_root (by omega)
  have near : r.grammar.root? 1 = some 4 := crowd_root (by omega)
  have far : r.grammar.root? (m + 2) = some (m + 5) := crowd_root (by omega)
  have sequence : r.grammar.expr? 0 = some (.sequence [1, 2, 3]) := crowd_expr (by omega)
  have first : r.grammar.expr? 1 = some (.reference 1 true) := crowd_expr (by omega)
  have second : r.grammar.expr? 2 = some (.reference (m + 2) true) := crowd_expr (by omega)
  have last : r.grammar.expr? 3 = some (.terminal (.token "c" true)) := crowd_expr (by omega)
  have nothing : r.grammar.expr? 4 = some (.terminal .nil) := crowd_expr (by omega)
  have letter : r.grammar.expr? (m + 5) = some (.terminal (.token "b" true)) := crowd_expr (by omega)
  have noted (event : Event) (st : State Unit Unit (Farthest × Log)) :
    (r.note event st).observed.1 = Farthest.observe r.grammar st.stream event st.observed.1 := rfl
  have settled (st st' : State Unit Unit (Farthest × Log)) (v : Verdict) :
    (st.settled v st').observed = st'.observed := rfl
  have marked (st : State Unit Unit (Farthest × Log)) : st.mark.observed = st.observed := rfl
  have opened (st : State Unit Unit (Farthest × Log)) : (r.openScope st).observed = st.observed := rfl
  have stored (i target : Nat) (st st' : State Unit Unit (Farthest × Log)) :
    (r.stored i target st st').observed.1 = st'.observed.1 := rfl
  have recalled (i : Nat) (entry : Memo.Entry Unit) (st : State Unit Unit (Farthest × Log)) :
    (r.replay i entry st).observed.1 = st.observed.1 := rfl
  have initial : (p.initial () emptyStream .recording []).observed.1 = {} := rfl
  have run : ∃ st, r.Runs (.rule (.production 0)) (p.initial () emptyStream .recording []) .failed st ∧
      ∃ e, (p.recognized emptyStream.position .recording .failed st).result = .error (.mismatch e) ∧
        e.expected = [.token (if memoize then "c" else "b") true] := by
    cases memoize with
    | false =>
      refine ⟨_, .production start (.marked (.expression sequence (.sequence (.marked (.allNext
        (.expression first (.reference rfl (.marked (.production near (.marked (.expression nothing .terminal))))))
        (.allStop (.expression second (.reference rfl (.marked (.production far
          (.marked (.expression letter (runs_mismatch rfl))))))) nofun)))))), _, rfl, ?_⟩
      simp [noted, settled, marked, initial, Farthest.observe, sequence, first, second, nothing, letter,
        Verdict.isMatched, Farthest.fail]
    | true =>
      refine ⟨_, .production start (.marked (.expression sequence (.sequence (.marked (.allNext
        (.expression first (.store rfl (Memo.Table.get?_empty ..) (.production near (.marked
          (.expression nothing .terminal)))))
        (.allNext (.expression second (.hit rfl ((Memo.Table.get?_insert ..).trans (if_pos ?key))))
          (.allStop (.expression last (runs_mismatch rfl)) nofun))))))), _, rfl, ?_⟩
      · exact Memo.key_eq_iff.mpr ⟨congruent.symm, rfl⟩
      · simp [noted, settled, marked, opened, stored, recalled, initial, Farthest.observe, sequence, first, second,
          last, nothing, Verdict.isMatched, Farthest.fail]
  obtain ⟨st, run, e, mismatch, expected⟩ := run
  exact ⟨e, _, Parser.rejects_of_run run mismatch, expected⟩

/-- What is recalled can make a difference to the error: a match that was remembered in a lookahead, or, with 2^32
productions and more, one of another production. -/
theorem recalled_errors_differ :
    (glimpse.WellFormed ∧ letterStream.Over ['b'] ∧ ∃ e e' log log',
      (bareParser glimpse false).Rejects () letterStream e log ∧
      (bareParser glimpse true).Rejects () letterStream e' log' ∧ e'.farthest = e.farthest ∧
      e.expected = [.token "a" true, .token "c" true] ∧ e'.expected = [.token "c" true]) ∧
    (crowd (UInt32.size + 1)).WellFormed ∧ emptyStream.Over [] ∧ ∃ e e' log log',
      (bareParser (crowd (UInt32.size + 1)) false).Rejects () emptyStream e log ∧
      (bareParser (crowd (UInt32.size + 1)) true).Rejects () emptyStream e' log' ∧
      e.expected = [.token "b" true] ∧ e'.expected = [.token "c" true] := by
  constructor
  · obtain ⟨log, rejects⟩ := glimpse_parsed
    obtain ⟨log', rejects'⟩ := glimpse_recalled
    refine ⟨Grammar.wellFormed_of_linked (by decide +kernel), Stream.over_ofSource ⟨['b'], none⟩, ?_⟩
    exact ⟨_, _, log, log', rejects, rejects', rfl, rfl, rfl⟩
  · obtain ⟨e, log, rejects, expected⟩ := crowd_rejects (UInt32.size - 1) false rfl
    obtain ⟨e', log', rejects', expected'⟩ := crowd_rejects (UInt32.size - 1) true rfl
    refine ⟨crowd_wellFormed (by decide) rfl nofun, Stream.over_ofSource ⟨[], none⟩, ?_⟩
    exact ⟨e, e', log, log', rejects, rejects', expected, expected'⟩

end Sample

end Packrat
