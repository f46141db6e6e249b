import Packrat.Proofs.Memo
import Packrat.Proofs.Recognition.Judgement
import Packrat.Proofs.Recognition.Progress

/-! # Runs follow the meaning of parsing expressions

A finished run has the outcome that `Peg.Parses` gives to its rule at its offset. What the host goes
through on the way is left open by a `Ledger`, which says when the changes from one host to another
are those of a list of deeds. A ledger can be as coarse as one that allows every change; then only
verdicts and offsets are compared.

Remembered matches are part of the invariant: every entry of the memo table is a match of its
production at its offset, whose saved changes are those of its deeds (`Ledger.Sound`).
-/

namespace Packrat

open Peg (Deed Outcome Goal Setting Parses)

/-- What a piece of work is about. -/
def Task.goal : Task → Goal
  | .rule which => .rule which
  | .operator _ e => .operator e
  | .marked task => task.goal
  | .all children => .all children
  | .first children => .first children
  | .repeated child min max => .operator (.repetition child min max)
  | .upTo child stopOnEmpty count => .greedy child stopOnEmpty (some count)

/-- The changes of a remembered match made again. -/
def Transaction.restore {H S : Type} (transaction : Transaction H S) (entry : Memo.Entry S) (host : H) : H :=
  match entry.snapshot with
  | some snapshot => transaction.load snapshot host
  | none => host

/-- What the answer of a handler means for an action at `context`. -/
def Verdict.ofAnswer (name : String) (context : Context) : Except String Bool → Verdict
  | .ok accepted => .ofBool accepted
  | .error message => .aborted ⟨name, context.span.start, message⟩

namespace Recognizer

variable {H S τ : Type}

/-- The meaning of the grammar of a recognizer, with repetitions as it counts them. -/
def setting (r : Recognizer H S τ) (text : List Char)
    (answer : String → Context → List Deed → Except String Bool) : Setting :=
  ⟨r.grammar, text, answer, Peg.counted⟩

end Recognizer

/-- Which changes of the host belong to which deeds, for runs of `r` over `text` from states that are
ready for their task. -/
structure Ledger {H S τ : Type} (r : Recognizer H S τ) (text : List Char)
    (answer : String → Context → List Deed → Except String Bool) where
  /-- The second host is the first one after the deeds. -/
  adds : H → List Deed → H → Prop
  ready : Task → State H S τ → Prop
  enters : ∀ {task st task' st'}, r.Enters task st task' st' → ready task st → ready task' st'
  nil : ∀ host, adds host [] host
  append : ∀ {host host' host'' deeds more}, adds host deeds host' → adds host' more host'' →
    adds host (deeds ++ more) host''
  commit : ∀ {host host' deeds}, adds (r.transaction.start host) deeds host' →
    adds host deeds (r.transaction.commit host')
  handled : ∀ {name handler host host' deeds} (context : Context), r.handlers.find? name = some handler →
    adds (r.transaction.start host) deeds host' →
    (handler context host').1 = answer name context deeds ∧
      (answer name context deeds = .ok true →
        adds host [.act name context deeds] (r.transaction.commit (handler context host').2))
  unhandled : ∀ {name host host' deeds} (context : Context), r.handlers.find? name = none →
    adds (r.transaction.start host) deeds host' →
    answer name context deeds = .ok true ∧ adds host [.act name context deeds] (r.transaction.commit host')
  saved : ∀ {host host' deeds length}, adds (r.transaction.start host) deeds host' →
    adds host deeds (r.transaction.commit (r.transaction.save host').2) ∧
      ∀ other, adds other deeds (r.transaction.restore ⟨length, (r.transaction.save host').1⟩ other)
  /-- Alternatives that fail add nothing. -/
  first : ∀ {child rest st st'}, ready (.first (child :: rest)) st →
    r.Runs (.marked (.rule (.expression child))) st .failed st' → adds st.host [] st'.host
  /-- The failure that ends a repetition adds nothing. -/
  last : ∀ {child stopOnEmpty count st st'}, ready (.upTo child stopOnEmpty (count + 1)) st →
    r.Runs (.rule (.expression child)) st .failed st' → adds st.host [] st'.host
  /-- What a lookahead does is undone. -/
  lookahead : ∀ {i child sign st st'}, ready (.operator i (.lookahead child sign)) st →
    r.Runs (.operator i (.lookahead child sign)) st .matched st' → adds st.host [] st'.host
  /-- Keys of the memo table do not collide. -/
  keyed : ∀ {i target memo st}, ready (.operator i (.reference target memo)) st →
    (memo && r.memoize) = true → target < UInt32.size ∧ text.length < UInt32.size

namespace Ledger

variable {H S τ : Type} {r : Recognizer H S τ} {text : List Char}
  {answer : String → Context → List Deed → Except String Bool} (ledger : Ledger r text answer)

/-- The verdict and the state behind a run from `st` are those of an outcome. -/
inductive Explains (st : State H S τ) : Verdict → State H S τ → Outcome → Prop
  | matched {st' : State H S τ} {deeds : List Deed} (added : ledger.adds st.host deeds st'.host) :
      Explains st .matched st' (.matched st'.stream.position.offset deeds)
  | failed {st' : State H S τ} : Explains st .failed st' .failed
  | aborted {st' : State H S τ} {error : ActionError} : Explains st (.aborted error) st' (.aborted error)

/-- Every entry of the memo table, if it is in use, is a match. -/
def Sound (memo : Memo.Table S) : Prop :=
  r.memoize = true → ∀ target o entry, target < UInt32.size → o < UInt32.size → memo.get? target o = some entry →
    ∃ deeds, Parses (r.setting text answer) (.rule (.production target)) o (.matched (o + entry.length) deeds) ∧
      ∀ host, ledger.adds host deeds (r.transaction.restore entry host)

variable {ledger} {st middle st' : State H S τ} {v : Verdict} {out : Outcome}

theorem sound_empty : ledger.Sound .empty := by
  intro _ target o entry _ _ found
  rw [Memo.Table.get?_empty] at found
  cases found

theorem Explains.at_stop {stop : Nat} {deeds : List Deed} (here : st'.stream.position.offset = stop)
    (added : ledger.adds st.host deeds st'.host) : ledger.Explains st .matched st' (.matched stop deeds) :=
  here ▸ .matched added

theorem Explains.of_matched {stop : Nat} {deeds : List Deed}
    (explains : ledger.Explains st v st' (.matched stop deeds)) :
    v = .matched ∧ st'.stream.position.offset = stop ∧ ledger.adds st.host deeds st'.host := by
  cases explains with
  | matched added => exact ⟨rfl, rfl, added⟩

/-- The same outcome between other states, if a match ends at the same offset. -/
theorem Explains.transfer {start other : State H S τ} (explains : ledger.Explains st v st' out)
    (here : v = .matched → other.stream.position.offset = st'.stream.position.offset)
    (added : ∀ deeds, v = .matched → ledger.adds st.host deeds st'.host →
      ledger.adds start.host deeds other.host) : ledger.Explains start v other out := by
  cases explains with
  | matched more => exact .at_stop (here rfl) (added _ rfl more)
  | failed => exact .failed
  | aborted => exact .aborted

theorem Explains.unmatched (explains : ledger.Explains st v st' out) (unmatched : v ≠ .matched) :
    out.isMatched = false := by
  cases explains with
  | matched => exact absurd rfl unmatched
  | failed => rfl
  | aborted => rfl

/-- Only the host tells where a match began. -/
theorem Explains.of_unmatched {other : State H S τ} (explains : ledger.Explains st v st' out)
    (unmatched : v ≠ .matched) : ledger.Explains middle v other out := by
  cases explains with
  | matched => exact absurd rfl unmatched
  | failed => exact .failed
  | aborted => exact .aborted

theorem Explains.behind {deeds : List Deed} (added : ledger.adds st.host deeds middle.host)
    (explains : ledger.Explains middle v st' out) : ledger.Explains st v st' (out.behind deeds) := by
  cases explains with
  | matched more => exact .matched (ledger.append added more)
  | failed => exact .failed
  | aborted => exact .aborted

theorem Explains.after_nothing (added : ledger.adds st.host [] middle.host)
    (explains : ledger.Explains middle v st' out) : ledger.Explains st v st' out := by
  have same : out.behind [] = out := by cases out <;> rfl
  exact same ▸ explains.behind added

/-- A handler answers as the deeds in the body say. -/
theorem answers {name : String} {context : Context} {deeds : List Deed} {host : H}
    (told : middle.stream.context = context) (added : ledger.adds (r.transaction.start host) deeds middle.host)
    (answered : r.handle name middle = .ok (v, st')) :
    v = .ofAnswer name context (answer name context deeds) ∧
      (answer name context deeds = .ok true →
        ledger.adds host [.act name context deeds] (r.transaction.commit st'.host)) := by
  unfold Recognizer.handle at answered
  split at answered
  · next missing =>
    cases answered
    obtain ⟨accepted, acted⟩ := ledger.unhandled context missing added
    rw [accepted]
    exact ⟨rfl, fun _ => acted⟩
  · next handler found =>
    obtain ⟨said, acted⟩ := ledger.handled context found added
    rw [← said] at acted ⊢
    dsimp only at answered
    rw [told] at answered
    split at answered
    · next accepted host' same =>
      cases answered
      rw [same] at acted ⊢
      exact ⟨rfl, acted⟩
    · next message host' same =>
      cases answered
      rw [same] at acted ⊢
      exact ⟨rfl, acted⟩

private theorem Sound.insert {target o : Nat} {entry : Memo.Entry S} {memo : Memo.Table S} {deeds : List Deed}
    (sound : ledger.Sound memo) (small : target < UInt32.size ∧ o < UInt32.size)
    (parse : Parses (r.setting text answer) (.rule (.production target)) o (.matched (o + entry.length) deeds))
    (restored : ∀ host, ledger.adds host deeds (r.transaction.restore entry host)) :
    ledger.Sound (memo.insert target o entry) := by
  intro used target' o' found small' small'' here
  rcases Memo.Table.get?_insert_cases small ⟨small', small''⟩ here with ⟨rfl, rfl, rfl⟩ | earlier
  · exact ⟨deeds, parse, restored⟩
  · exact sound used target' o' found small' small'' earlier

private theorem explains_terminal (t : Terminal) (reads : st.stream.Over text) :
    ∃ out, Parses (r.setting text answer) (.operator (.terminal t)) st.stream.position.offset out ∧
      ledger.Explains st (.ofBool (t.recognize st.stream).1)
        { st with stream := (t.recognize st.stream).2 } out := by
  obtain ⟨verdict, moved⟩ := t.recognize_spec reads
  have stop := moved.offset
  cases found : t.matchLength? (text.drop st.stream.position.offset) with
  | some n =>
    rw [Terminal.stopAfter, found] at stop
    rw [verdict, found]
    refine ⟨_, .terminal found, ?_⟩
    exact .at_stop stop (ledger.nil _)
  | none =>
    rw [verdict, found]
    exact ⟨_, .mismatch found, .failed⟩

/-- An action whose body matched, told the text from `o` to where the stream is. -/
private theorem explains_action {child o : Nat} {name : String} {bound : Bool} {deeds : List Deed}
    {last : State H S τ} (told : middle.stream.context = .between text o middle.stream.position.offset)
    (body : Parses (r.setting text answer) (.rule (.expression child)) o
      (.matched middle.stream.position.offset deeds))
    (added : ledger.adds (r.transaction.start st.host) deeds middle.host)
    (answered : r.handle name middle = .ok (v, last)) :
    ∃ out, Parses (r.setting text answer) (.operator (.action child name bound)) o out ∧
      ledger.Explains st v (r.closed st v last) out := by
  obtain ⟨verdict, acted⟩ := answers told added answered
  have stop : last.stream.position.offset = middle.stream.position.offset := by
    rw [Recognizer.handle_stream answered]
  cases said : answer name (.between text o middle.stream.position.offset) deeds with
  | error message =>
    rw [said] at verdict
    subst verdict
    exact ⟨_, .refused body said, .aborted⟩
  | ok accepted =>
    rw [said] at verdict
    subst verdict
    cases accepted with
    | false => exact ⟨_, .rejected body said, .failed⟩
    | true =>
      exact ⟨_, .accepted body said, .at_stop stop (acted said)⟩

/-- A finished run has the outcome of its goal, and keeps the memo table sound. -/
theorem explains {task : Task} (ledger : Ledger r text answer) (run : r.Runs task st v st')
    (ready : ledger.ready task st) (reads : st.stream.Over text) (sound : ledger.Sound st.memo) :
    (∃ out, Parses (r.setting text answer) task.goal st.stream.position.offset out ∧
      ledger.Explains st v st' out) ∧ ledger.Sound st'.memo := by
  induction run with
  | production defined _ ih =>
    obtain ⟨⟨out, parse, explained⟩, sound⟩ := ih (ledger.enters (.production defined) ready) reads sound
    exact ⟨⟨out, .production defined parse, explained.transfer (fun _ => rfl) fun _ _ => id⟩, sound⟩
  | expression present _ ih =>
    obtain ⟨⟨out, parse, explained⟩, sound⟩ := ih (ledger.enters (.expression present) ready) reads sound
    exact ⟨⟨out, .expression present parse, explained.transfer (fun _ => rfl) fun _ _ => id⟩, sound⟩
  | marked _ ih =>
    obtain ⟨⟨out, parse, explained⟩, sound⟩ := ih (ledger.enters .marked ready) reads.mark sound
    refine ⟨⟨out, parse, explained.transfer ?_ fun _ _ => id⟩, sound⟩
    rintro rfl
    rfl
  | terminal => exact ⟨explains_terminal _ reads, sound⟩
  | reference plain _ ih =>
    obtain ⟨⟨out, parse, explained⟩, sound⟩ := ih (ledger.enters (.reference plain) ready) reads sound
    exact ⟨⟨out, .reference parse, explained⟩, sound⟩
  | @hit i target memo st entry memoized found =>
    obtain ⟨small, short⟩ := ledger.keyed ready memoized
    have within := reads.position.offset_le
    have used : r.memoize = true := (Bool.and_eq_true_iff.mp memoized).2
    obtain ⟨deeds, parse, restored⟩ := sound used target _ entry small (by omega) found
    have stop := (reads.skip ((parse.forward rfl).2 within)).offset
    exact ⟨⟨_, .reference parse, .at_stop stop (restored st.host)⟩, sound⟩
  | @store i target memo st st' memoized missing run ih =>
    obtain ⟨small, short⟩ := ledger.keyed ready memoized
    have within := reads.position.offset_le
    have forward := run.forward
    obtain ⟨⟨out, parse, explained⟩, sound⟩ :=
      ih (ledger.enters (.remembered memoized missing) ready) reads.mark sound
    cases explained with
    | matched added =>
      obtain ⟨committed, restored⟩ := ledger.saved added
      refine ⟨⟨_, .reference parse, .at_stop rfl committed⟩, ?_⟩
      refine sound.insert ⟨small, by omega⟩ ?_ restored
      rw [show st.stream.position.offset + (st'.stream.position.offset - st.stream.position.offset) =
        st'.stream.position.offset from Nat.add_sub_cancel' forward]
      exact parse
  | miss memoized missing _ unmatched ih =>
    obtain ⟨⟨out, parse, explained⟩, sound⟩ :=
      ih (ledger.enters (.remembered memoized missing) ready) reads.mark sound
    exact ⟨⟨out, .reference parse, explained.of_unmatched unmatched⟩, sound⟩
  | @act i child name bound st st' st'' v run answered ih =>
    obtain ⟨⟨out, parse, explained⟩, sound⟩ := ih (ledger.enters .action ready) reads.mark sound
    have told : st'.stream.context = .between text st.stream.position.offset st'.stream.position.offset := by
      have outstanding : st'.stream.marks = .after text st.stream.position.offset :: st.stream.marks := by
        rw [run.marks, ← reads.position.eq_after]
        rfl
      exact (run.reads reads.mark).context outstanding reads.position.offset_le
    have kept : st''.memo = st'.memo := Recognizer.handle_memo answered
    cases explained with
    | matched added => exact ⟨explains_action told parse added answered, kept ▸ sound⟩
  | idle _ unmatched ih =>
    obtain ⟨⟨out, parse, explained⟩, sound⟩ := ih (ledger.enters .action ready) reads.mark sound
    exact ⟨⟨out, .idle parse (explained.unmatched unmatched), explained.of_unmatched unmatched⟩, sound⟩
  | undo _ ih =>
    obtain ⟨⟨out, parse, explained⟩, sound⟩ := ih (ledger.enters .undo ready) reads.mark sound
    refine ⟨⟨out, .undo parse, explained.transfer ?_ ?_⟩, sound⟩
    · rintro rfl
      rfl
    · rintro deeds rfl added
      exact ledger.commit added
  | sequence _ ih =>
    obtain ⟨⟨out, parse, explained⟩, sound⟩ := ih (ledger.enters .sequence ready) reads sound
    exact ⟨⟨out, .sequence parse, explained⟩, sound⟩
  | choice _ ih =>
    obtain ⟨⟨out, parse, explained⟩, sound⟩ := ih (ledger.enters .choice ready) reads sound
    exact ⟨⟨out, .choice parse, explained⟩, sound⟩
  | repetition _ ih => exact ih (ledger.enters .repetition ready) reads sound
  | @present i child st st' v run ih =>
    obtain ⟨⟨out, parse, explained⟩, sound⟩ := ih (ledger.enters .lookahead ready) reads.mark sound
    cases explained with
    | matched =>
      have nothing := ledger.lookahead ready (.present run)
      exact ⟨⟨_, .present parse, .at_stop rfl nothing⟩, sound⟩
    | failed => exact ⟨⟨_, .notPresent parse rfl, .failed⟩, sound⟩
    | aborted => exact ⟨⟨_, .notPresent parse rfl, .aborted⟩, sound⟩
  | @absent i child st st' v run ih =>
    obtain ⟨⟨out, parse, explained⟩, sound⟩ := ih (ledger.enters .lookahead ready) reads.mark sound
    cases explained with
    | matched => exact ⟨⟨_, .notAbsent parse, .failed⟩, sound⟩
    | failed =>
      have nothing := ledger.lookahead ready (.absent run)
      exact ⟨⟨_, .absent parse, .at_stop rfl nothing⟩, sound⟩
    | aborted => exact ⟨⟨_, .absentAborted parse, .aborted⟩, sound⟩
  | allDone => exact ⟨⟨_, .allDone, .matched (ledger.nil _)⟩, sound⟩
  | allNext run _ head tail =>
    obtain ⟨⟨out, parse, explained⟩, sound⟩ := head (ledger.enters .allHead ready) reads sound
    cases explained with
    | matched added =>
      obtain ⟨⟨out, rest, explained⟩, sound⟩ := tail (ledger.enters (.allTail run) ready) (run.reads reads) sound
      exact ⟨⟨_, .allNext parse rest, explained.behind added⟩, sound⟩
  | allStop _ unmatched ih =>
    obtain ⟨⟨out, parse, explained⟩, sound⟩ := ih (ledger.enters .allHead ready) reads sound
    exact ⟨⟨out, .allStop parse (explained.unmatched unmatched), explained⟩, sound⟩
  | firstNone => exact ⟨⟨_, .firstNone, .failed⟩, sound⟩
  | firstNext run _ head tail =>
    obtain ⟨⟨out, parse, explained⟩, sound⟩ := head (ledger.enters .firstHead ready) reads sound
    have back := run.restored rfl Verdict.noConfusion
    have nothing := ledger.first ready run
    cases explained with
    | failed =>
      obtain ⟨⟨out, rest, explained⟩, sound⟩ :=
        tail (ledger.enters (.firstTail run) ready) (run.reads reads) sound
      exact ⟨⟨out, .firstNext parse (back ▸ rest), explained.after_nothing nothing⟩, sound⟩
  | firstStop _ decided ih =>
    obtain ⟨⟨out, parse, explained⟩, sound⟩ := ih (ledger.enters .firstHead ready) reads sound
    refine ⟨⟨out, .firstStop parse ?_, explained⟩, sound⟩
    cases explained with
    | matched => exact Outcome.noConfusion
    | failed => exact absurd rfl decided
    | aborted => exact Outcome.noConfusion
  | repeatedEnough run _ least more =>
    obtain ⟨⟨out, parse, explained⟩, sound⟩ := least (ledger.enters .least ready) reads sound
    cases explained with
    | matched added =>
      obtain ⟨⟨out, rest, explained⟩, sound⟩ := more (ledger.enters (.more run) ready) (run.reads reads) sound
      exact ⟨⟨_, .enough parse rest, explained.behind added⟩, sound⟩
  | repeatedShort _ unmatched ih =>
    obtain ⟨⟨out, parse, explained⟩, sound⟩ := ih (ledger.enters .least ready) reads sound
    exact ⟨⟨out, .tooFew parse (explained.unmatched unmatched), explained⟩, sound⟩
  | upToZero => exact ⟨⟨_, .greedyFull, .matched (ledger.nil _)⟩, sound⟩
  | upToEmpty _ empty ih =>
    obtain ⟨⟨out, parse, explained⟩, sound⟩ := ih (ledger.enters .upToHead ready) reads sound
    cases explained with
    | matched added =>
      exact ⟨⟨_, .greedyEmpty nofun (empty ▸ parse), .at_stop empty added⟩, sound⟩
  | upToNext run advanced _ body more =>
    obtain ⟨⟨out, parse, explained⟩, sound⟩ := body (ledger.enters .upToHead ready) reads sound
    cases explained with
    | matched added =>
      obtain ⟨⟨out, rest, explained⟩, sound⟩ :=
        more (ledger.enters (.upToTail run advanced) ready) (run.reads reads) sound
      exact ⟨⟨_, .greedyNext nofun parse advanced rest, explained.behind added⟩, sound⟩
  | upToEnd run ih =>
    obtain ⟨⟨out, parse, explained⟩, sound⟩ := ih (ledger.enters .upToHead ready) reads sound
    have back := run.restored rfl Verdict.noConfusion
    have nothing := ledger.last ready run
    cases explained with
    | failed =>
      exact ⟨⟨_, .greedyEnd nofun parse, .at_stop (congrArg Position.offset back) nothing⟩, sound⟩
  | upToAbort _ ih =>
    obtain ⟨⟨out, parse, explained⟩, sound⟩ := ih (ledger.enters .upToHead ready) reads sound
    cases explained with
    | aborted => exact ⟨⟨_, .greedyAborted nofun parse, .aborted⟩, sound⟩

/-- A finished run has the outcome that its goal is known to have. -/
theorem follows {task : Task} (ledger : Ledger r text answer) (run : r.Runs task st v st')
    (ready : ledger.ready task st) (reads : st.stream.Over text) (sound : ledger.Sound st.memo)
    (parse : Parses (r.setting text answer) task.goal st.stream.position.offset out) :
    ledger.Explains st v st' out ∧ ledger.Sound st'.memo := by
  obtain ⟨⟨out', parse', explained⟩, sound⟩ := ledger.explains run ready reads sound
  rw [parse.deterministic parse']
  exact ⟨explained, sound⟩

end Ledger

/-- The piece of work for a goal. -/
def Peg.Goal.task (i : Nat) : Goal → Task
  | .rule which => .rule which
  | .operator e => .operator i e
  | .all children => .all children
  | .first children => .first children
  | .greedy child stopOnEmpty limit => .upTo child stopOnEmpty (limit.getD 0)

namespace Ledger

variable {H S τ : Type} {r : Recognizer H S τ} {text : List Char}
  {answer : String → Context → List Deed → Except String Bool} {st : State H S τ} {out : Outcome} {goal : Goal}
  {o : Nat}

private theorem halts_upTo {ledger : Ledger r text answer} {child : Nat} {stopOnEmpty : Bool} {limit : Option Nat}
    (ready : ledger.ready (.upTo child stopOnEmpty (limit.getD 0)) st)
    (body : ledger.ready (.rule (.expression child)) st → r.Halts (.rule (.expression child)) st)
    (more : ∀ {count st'}, limit = some (count + 1) → ledger.ready (.rule (.expression child)) st →
      r.Runs (.rule (.expression child)) st .matched st' → ledger.ready (.upTo child stopOnEmpty count) st' →
      (stopOnEmpty = true → st'.stream.position.offset ≠ st.stream.position.offset) →
      r.Halts (.upTo child stopOnEmpty count) st') :
    r.Halts (.upTo child stopOnEmpty (limit.getD 0)) st := by
  rcases limit with _ | _ | count
  · exact ⟨_, _, .upToZero⟩
  · exact ⟨_, _, .upToZero⟩
  · have entered := ledger.enters .upToHead ready
    refine Recognizer.halts_upTo_succ (body entered) fun st' run advanced => ?_
    exact more rfl entered run (ledger.enters (.upToTail run advanced) ready) advanced

/-- A goal that has an outcome comes to an end. -/
theorem halts (ledger : Ledger r text answer) (parse : Parses (r.setting text answer) goal o out) (i : Nat)
    (ready : ledger.ready (goal.task i) st) (reads : st.stream.Over text) (here : st.stream.position.offset = o)
    (sound : ledger.Sound st.memo) : r.Halts (goal.task i) st := by
  induction parse generalizing i st with
  | production defined _ ih =>
    have marked := ledger.enters (.production defined) ready
    exact Recognizer.halts_production defined (ih i (ledger.enters .marked marked) reads.mark here sound)
  | @expression j o e out present _ ih =>
    exact Recognizer.halts_expression present (ih j (ledger.enters (.expression present) ready) reads here sound)
  | terminal => exact Recognizer.halts_terminal i _
  | mismatch => exact Recognizer.halts_terminal i _
  | @reference target o memo out _ ih =>
    cases memoized : memo && r.memoize with
    | false =>
      have marked := ledger.enters (.reference memoized) ready
      exact Recognizer.halts_reference i memoized (ih i (ledger.enters .marked marked) reads.mark here sound)
    | true =>
      refine Recognizer.halts_remembered i memoized fun missing => ?_
      exact ih i (ledger.enters (.remembered memoized missing) ready) reads.mark here sound
  | accepted _ _ ih => exact Recognizer.halts_action i (ih i (ledger.enters .action ready) reads.mark here sound)
  | rejected _ _ ih => exact Recognizer.halts_action i (ih i (ledger.enters .action ready) reads.mark here sound)
  | refused _ _ ih => exact Recognizer.halts_action i (ih i (ledger.enters .action ready) reads.mark here sound)
  | idle _ _ ih => exact Recognizer.halts_action i (ih i (ledger.enters .action ready) reads.mark here sound)
  | undo _ ih => exact Recognizer.halts_undo i (ih i (ledger.enters .undo ready) reads.mark here sound)
  | sequence _ ih =>
    have marked := ledger.enters .sequence ready
    exact Recognizer.halts_sequence i (ih i (ledger.enters .marked marked) reads.mark here sound)
  | choice _ ih => exact Recognizer.halts_choice i (ih i (ledger.enters .choice ready) reads here sound)
  | @enough child min max o middle deeds out first _ least more =>
    have inside := ledger.enters .marked (ledger.enters .repetition ready)
    refine Recognizer.halts_repetition i (least i (ledger.enters .least inside) reads.mark here sound) ?_
    intro st' run
    obtain ⟨explained, sound⟩ := ledger.follows run (ledger.enters .least inside) reads.mark sound (here ▸ first)
    cases explained with
    | matched => exact more i (ledger.enters (.more run) inside) (run.reads reads.mark) rfl sound
  | tooFew first unmatched ih =>
    have inside := ledger.enters .marked (ledger.enters .repetition ready)
    refine Recognizer.halts_repetition i (ih i (ledger.enters .least inside) reads.mark here sound) ?_
    intro st' run
    obtain ⟨explained, -⟩ := ledger.follows run (ledger.enters .least inside) reads.mark sound (here ▸ first)
    cases explained with
    | matched => cases unmatched
  | present _ ih => exact Recognizer.halts_lookahead i (ih i (ledger.enters .lookahead ready) reads.mark here sound)
  | notPresent _ _ ih =>
    exact Recognizer.halts_lookahead i (ih i (ledger.enters .lookahead ready) reads.mark here sound)
  | absent _ ih => exact Recognizer.halts_lookahead i (ih i (ledger.enters .lookahead ready) reads.mark here sound)
  | notAbsent _ ih => exact Recognizer.halts_lookahead i (ih i (ledger.enters .lookahead ready) reads.mark here sound)
  | absentAborted _ ih =>
    exact Recognizer.halts_lookahead i (ih i (ledger.enters .lookahead ready) reads.mark here sound)
  | allDone => exact ⟨_, _, .allDone⟩
  | allNext first _ head tail =>
    refine Recognizer.halts_all_cons (head i (ledger.enters .allHead ready) reads here sound) ?_
    intro st' run
    obtain ⟨explained, sound⟩ := ledger.follows run (ledger.enters .allHead ready) reads sound (here ▸ first)
    cases explained with
    | matched => exact tail i (ledger.enters (.allTail run) ready) (run.reads reads) rfl sound
  | allStop first unmatched ih =>
    refine Recognizer.halts_all_cons (ih i (ledger.enters .allHead ready) reads here sound) ?_
    intro st' run
    obtain ⟨explained, -⟩ := ledger.follows run (ledger.enters .allHead ready) reads sound (here ▸ first)
    cases explained with
    | matched => cases unmatched
  | firstNone => exact ⟨_, _, .firstNone⟩
  | firstNext first _ head tail =>
    have entered := ledger.enters .firstHead ready
    refine Recognizer.halts_first_cons (head i (ledger.enters .marked entered) reads.mark here sound) ?_
    intro st' run
    have back := congrArg Position.offset (run.restored rfl Verdict.noConfusion)
    have kept := (ledger.explains run entered reads sound).2
    exact tail i (ledger.enters (.firstTail run) ready) (run.reads reads) (back.trans here) kept
  | firstStop first decided ih =>
    have entered := ledger.enters .firstHead ready
    refine Recognizer.halts_first_cons (ih i (ledger.enters .marked entered) reads.mark here sound) ?_
    intro st' run
    obtain ⟨explained, -⟩ := ledger.follows run entered reads sound (here ▸ first)
    cases explained with
    | failed => exact absurd rfl decided
  | greedyFull => exact ⟨_, _, .upToZero⟩
  | greedyEmpty _ first ih =>
    refine halts_upTo ready (fun entered => ih i entered reads here sound) ?_
    intro count st' _ entered run _ advanced
    obtain ⟨explained, -⟩ := ledger.follows run entered reads sound (here ▸ first)
    exact absurd explained.of_matched.2.1 (advanced rfl)
  | greedyNext _ first _ _ head tail =>
    refine halts_upTo ready (fun entered => head i entered reads here sound) ?_
    rintro count st' rfl entered run ready advanced
    obtain ⟨explained, sound⟩ := ledger.follows run entered reads sound (here ▸ first)
    cases explained with
    | matched => exact tail i ready (run.reads reads) rfl sound
  | greedyEnd _ first ih =>
    refine halts_upTo ready (fun entered => ih i entered reads here sound) ?_
    intro count st' _ entered run _ _
    obtain ⟨explained, -⟩ := ledger.follows run entered reads sound (here ▸ first)
    cases explained
  | greedyAborted _ first ih =>
    refine halts_upTo ready (fun entered => ih i entered reads here sound) ?_
    intro count st' _ entered run _ _
    obtain ⟨explained, -⟩ := ledger.follows run entered reads sound (here ▸ first)
    cases explained

end Ledger

end Packrat
