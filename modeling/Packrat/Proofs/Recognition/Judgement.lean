import Packrat.Recognition.Reduce
import Packrat.Proofs.Text.Reading

/-! # The meaning of parsing expressions

`Peg.Parses` says what a rule of a grammar makes of a text at an offset, without streams, marks,
scopes or tables: it matches up to an offset, it fails, or an action aborts. A match also tells
which actions it took, each with the actions taken in its body; what was tried in vain or looked at
ahead leaves no trace.

A repetition goes on behind its least number of matches up to a limit. The meaning of an expression
has no limit where the upper bound is missing (`declared`), a recognizer counts in a machine word
(`counted`). On texts that are shorter than the greatest count the two say the same.
-/

namespace Packrat.Peg

/-- An action taken by a match, with the actions taken in its body. -/
inductive Deed where
  | act (name : String) (context : Context) (inner : List Deed)

inductive Outcome where
  | matched (stop : Nat) (deeds : List Deed)
  | failed
  | aborted (error : ActionError)

namespace Outcome

def isMatched : Outcome → Bool
  | matched .. => true
  | _ => false

/-- The outcome of what follows a match that took `deeds`. -/
def behind (deeds : List Deed) : Outcome → Outcome
  | matched stop more => matched stop (deeds ++ more)
  | failed => failed
  | aborted error => aborted error

theorem behind_eq_matched {out : Outcome} {deeds all : List Deed} {stop : Nat}
    (matched : out.behind deeds = .matched stop all) :
    ∃ more, out = .matched stop more ∧ all = deeds ++ more := by
  cases out with
  | matched stop' more => cases matched; exact ⟨more, rfl, rfl⟩
  | failed => cases matched
  | aborted error => cases matched

end Outcome

/-- All that a parse depends on. -/
structure Setting where
  grammar : Grammar
  text : List Char
  /-- What the handler of an action says to the matched text and to the actions taken in it. -/
  answer : String → Context → List Deed → Except String Bool
  /-- How many matches may follow the least number of a repetition. -/
  limit : (min max : Nat) → Option Nat

/-- There is no limit without an upper bound. -/
def declared (min max : Nat) : Option Nat :=
  if max = unbounded ∧ min < max then none else some (max - min)

/-- A missing upper bound counts as the greatest number. -/
def counted (min max : Nat) : Option Nat := some (max - min)

inductive Goal where
  | rule (rule : Rule)
  | operator (e : Expr)
  | all (children : List Nat)
  | first (children : List Nat)
  /-- As often as possible up to a limit. With `stopOnEmpty`, a match without text is the last. -/
  | greedy (child : Nat) (stopOnEmpty : Bool) (limit : Option Nat)

/-- The goal has the outcome at the offset. -/
inductive Parses (σ : Setting) : Goal → Nat → Outcome → Prop
  | production {index root o : Nat} {out : Outcome} (defined : σ.grammar.root? index = some root)
      (body : Parses σ (.rule (.expression root)) o out) : Parses σ (.rule (.production index)) o out
  | expression {i o : Nat} {e : Expr} {out : Outcome} (present : σ.grammar.expr? i = some e)
      (body : Parses σ (.operator e) o out) : Parses σ (.rule (.expression i)) o out
  | terminal {t : Terminal} {o n : Nat} (found : t.matchLength? (σ.text.drop o) = some n) :
      Parses σ (.operator (.terminal t)) o (.matched (o + n) [])
  | mismatch {t : Terminal} {o : Nat} (missing : t.matchLength? (σ.text.drop o) = none) :
      Parses σ (.operator (.terminal t)) o .failed
  | reference {target o : Nat} {memo : Bool} {out : Outcome}
      (body : Parses σ (.rule (.production target)) o out) :
      Parses σ (.operator (.reference target memo)) o out
  | accepted {child o stop : Nat} {name : String} {bound : Bool} {deeds : List Deed}
      (body : Parses σ (.rule (.expression child)) o (.matched stop deeds))
      (answer : σ.answer name (.between σ.text o stop) deeds = .ok true) :
      Parses σ (.operator (.action child name bound)) o
        (.matched stop [.act name (.between σ.text o stop) deeds])
  | rejected {child o stop : Nat} {name : String} {bound : Bool} {deeds : List Deed}
      (body : Parses σ (.rule (.expression child)) o (.matched stop deeds))
      (answer : σ.answer name (.between σ.text o stop) deeds = .ok false) :
      Parses σ (.operator (.action child name bound)) o .failed
  | refused {child o stop : Nat} {name message : String} {bound : Bool} {deeds : List Deed}
      (body : Parses σ (.rule (.expression child)) o (.matched stop deeds))
      (answer : σ.answer name (.between σ.text o stop) deeds = .error message) :
      Parses σ (.operator (.action child name bound)) o (.aborted ⟨name, .after σ.text o, message⟩)
  | idle {child o : Nat} {name : String} {bound : Bool} {out : Outcome}
      (body : Parses σ (.rule (.expression child)) o out) (unmatched : out.isMatched = false) :
      Parses σ (.operator (.action child name bound)) o out
  | undo {child o : Nat} {out : Outcome} (body : Parses σ (.rule (.expression child)) o out) :
      Parses σ (.operator (.undo child)) o out
  | sequence {children : List Nat} {o : Nat} {out : Outcome} (body : Parses σ (.all children) o out) :
      Parses σ (.operator (.sequence children)) o out
  | choice {children : List Nat} {o : Nat} {out : Outcome} (body : Parses σ (.first children) o out) :
      Parses σ (.operator (.choice children)) o out
  | enough {child min max o middle : Nat} {deeds : List Deed} {out : Outcome}
      (least : Parses σ (.all (List.replicate min child)) o (.matched middle deeds))
      (more : Parses σ (.greedy child (max == unbounded) (σ.limit min max)) middle out) :
      Parses σ (.operator (.repetition child min max)) o (out.behind deeds)
  | tooFew {child min max o : Nat} {out : Outcome}
      (least : Parses σ (.all (List.replicate min child)) o out) (unmatched : out.isMatched = false) :
      Parses σ (.operator (.repetition child min max)) o out
  | present {child o stop : Nat} {deeds : List Deed}
      (body : Parses σ (.rule (.expression child)) o (.matched stop deeds)) :
      Parses σ (.operator (.lookahead child .present)) o (.matched o [])
  | notPresent {child o : Nat} {out : Outcome} (body : Parses σ (.rule (.expression child)) o out)
      (unmatched : out.isMatched = false) : Parses σ (.operator (.lookahead child .present)) o out
  | absent {child o : Nat} (body : Parses σ (.rule (.expression child)) o .failed) :
      Parses σ (.operator (.lookahead child .absent)) o (.matched o [])
  | notAbsent {child o stop : Nat} {deeds : List Deed}
      (body : Parses σ (.rule (.expression child)) o (.matched stop deeds)) :
      Parses σ (.operator (.lookahead child .absent)) o .failed
  | absentAborted {child o : Nat} {error : ActionError}
      (body : Parses σ (.rule (.expression child)) o (.aborted error)) :
      Parses σ (.operator (.lookahead child .absent)) o (.aborted error)
  | allDone {o : Nat} : Parses σ (.all []) o (.matched o [])
  | allNext {child o middle : Nat} {rest : List Nat} {deeds : List Deed} {out : Outcome}
      (head : Parses σ (.rule (.expression child)) o (.matched middle deeds))
      (tail : Parses σ (.all rest) middle out) : Parses σ (.all (child :: rest)) o (out.behind deeds)
  | allStop {child o : Nat} {rest : List Nat} {out : Outcome}
      (head : Parses σ (.rule (.expression child)) o out) (unmatched : out.isMatched = false) :
      Parses σ (.all (child :: rest)) o out
  | firstNone {o : Nat} : Parses σ (.first []) o .failed
  | firstNext {child o : Nat} {rest : List Nat} {out : Outcome}
      (head : Parses σ (.rule (.expression child)) o .failed) (tail : Parses σ (.first rest) o out) :
      Parses σ (.first (child :: rest)) o out
  | firstStop {child o : Nat} {rest : List Nat} {out : Outcome}
      (head : Parses σ (.rule (.expression child)) o out) (decided : out ≠ .failed) :
      Parses σ (.first (child :: rest)) o out
  | greedyFull {child o : Nat} {stopOnEmpty : Bool} :
      Parses σ (.greedy child stopOnEmpty (some 0)) o (.matched o [])
  | greedyEmpty {child o : Nat} {limit : Option Nat} {deeds : List Deed} (room : limit ≠ some 0)
      (body : Parses σ (.rule (.expression child)) o (.matched o deeds)) :
      Parses σ (.greedy child true limit) o (.matched o deeds)
  | greedyNext {child o middle : Nat} {stopOnEmpty : Bool} {limit : Option Nat} {deeds : List Deed}
      {out : Outcome} (room : limit ≠ some 0)
      (body : Parses σ (.rule (.expression child)) o (.matched middle deeds))
      (advanced : stopOnEmpty = true → middle ≠ o)
      (more : Parses σ (.greedy child stopOnEmpty (limit.map (· - 1))) middle out) :
      Parses σ (.greedy child stopOnEmpty limit) o (out.behind deeds)
  | greedyEnd {child o : Nat} {stopOnEmpty : Bool} {limit : Option Nat} (room : limit ≠ some 0)
      (body : Parses σ (.rule (.expression child)) o .failed) :
      Parses σ (.greedy child stopOnEmpty limit) o (.matched o [])
  | greedyAborted {child o : Nat} {stopOnEmpty : Bool} {limit : Option Nat} {error : ActionError}
      (room : limit ≠ some 0) (body : Parses σ (.rule (.expression child)) o (.aborted error)) :
      Parses σ (.greedy child stopOnEmpty limit) o (.aborted error)

variable {σ : Setting} {goal : Goal} {o : Nat} {out : Outcome}

/-- A goal has one outcome at an offset. -/
theorem Parses.deterministic {out' : Outcome} (one : Parses σ goal o out) (other : Parses σ goal o out') :
    out = out' := by
  induction one generalizing out' with
  | production defined _ ih =>
    cases other with
    | production defined' body =>
      cases defined.symm.trans defined'
      exact ih body
  | expression present _ ih =>
    cases other with
    | expression present' body =>
      cases present.symm.trans present'
      exact ih body
  | terminal found =>
    cases other with
    | terminal found' => cases found.symm.trans found'; rfl
    | mismatch missing => cases found.symm.trans missing
  | mismatch missing =>
    cases other with
    | terminal found => cases missing.symm.trans found
    | mismatch => rfl
  | reference _ ih =>
    cases other with
    | reference body => exact ih body
  | accepted _ answer ih =>
    cases other with
    | accepted body answer' => cases ih body; rfl
    | rejected body answer' => cases ih body; cases answer.symm.trans answer'
    | refused body answer' => cases ih body; cases answer.symm.trans answer'
    | idle body unmatched => cases ih body; cases unmatched
  | rejected _ answer ih =>
    cases other with
    | accepted body answer' => cases ih body; cases answer.symm.trans answer'
    | rejected => rfl
    | refused body answer' => cases ih body; cases answer.symm.trans answer'
    | idle body unmatched => cases ih body; cases unmatched
  | refused _ answer ih =>
    cases other with
    | accepted body answer' => cases ih body; cases answer.symm.trans answer'
    | rejected body answer' => cases ih body; cases answer.symm.trans answer'
    | refused body answer' => cases ih body; cases answer.symm.trans answer'; rfl
    | idle body unmatched => cases ih body; cases unmatched
  | idle _ unmatched ih =>
    cases other with
    | accepted body => cases ih body; cases unmatched
    | rejected body => cases ih body; cases unmatched
    | refused body => cases ih body; cases unmatched
    | idle body => exact ih body
  | undo _ ih =>
    cases other with
    | undo body => exact ih body
  | sequence _ ih =>
    cases other with
    | sequence body => exact ih body
  | choice _ ih =>
    cases other with
    | choice body => exact ih body
  | enough _ _ least more =>
    cases other with
    | enough least' more' => cases least least'; cases more more'; rfl
    | tooFew least' unmatched => cases least least'; cases unmatched
  | tooFew _ unmatched ih =>
    cases other with
    | enough least => cases ih least; cases unmatched
    | tooFew least => exact ih least
  | present _ ih =>
    cases other with
    | present => rfl
    | notPresent body unmatched => cases ih body; cases unmatched
  | notPresent _ unmatched ih =>
    cases other with
    | present body => cases ih body; cases unmatched
    | notPresent body => exact ih body
  | absent _ ih =>
    cases other with
    | absent => rfl
    | notAbsent body => cases ih body
    | absentAborted body => cases ih body
  | notAbsent _ ih =>
    cases other with
    | absent body => cases ih body
    | notAbsent => rfl
    | absentAborted body => cases ih body
  | absentAborted _ ih =>
    cases other with
    | absent body => cases ih body
    | notAbsent body => cases ih body
    | absentAborted body => exact ih body
  | allDone => cases other; rfl
  | allNext _ _ head tail =>
    cases other with
    | allNext head' tail' => cases head head'; cases tail tail'; rfl
    | allStop head' unmatched => cases head head'; cases unmatched
  | allStop _ unmatched ih =>
    cases other with
    | allNext head => cases ih head; cases unmatched
    | allStop head => exact ih head
  | firstNone => cases other; rfl
  | firstNext _ _ head tail =>
    cases other with
    | firstNext _ tail' => exact tail tail'
    | firstStop head' decided => exact absurd (head head').symm decided
  | firstStop _ decided ih =>
    cases other with
    | firstNext head => exact absurd (ih head) decided
    | firstStop head => exact ih head
  | greedyFull =>
    cases other with
    | greedyFull => rfl
    | greedyEmpty room => exact absurd rfl room
    | greedyNext room => exact absurd rfl room
    | greedyEnd room => exact absurd rfl room
    | greedyAborted room => exact absurd rfl room
  | greedyEmpty room _ ih =>
    cases other with
    | greedyFull => exact absurd rfl room
    | greedyEmpty _ body => exact ih body
    | greedyNext _ body advanced => cases ih body; exact absurd rfl (advanced rfl)
    | greedyEnd _ body => cases ih body
    | greedyAborted _ body => cases ih body
  | greedyNext room _ advanced _ head tail =>
    cases other with
    | greedyFull => exact absurd rfl room
    | greedyEmpty _ body => cases head body; exact absurd rfl (advanced rfl)
    | greedyNext _ body _ more => cases head body; cases tail more; rfl
    | greedyEnd _ body => cases head body
    | greedyAborted _ body => cases head body
  | greedyEnd room _ ih =>
    cases other with
    | greedyFull => rfl
    | greedyEmpty _ body => cases ih body
    | greedyNext _ body => cases ih body
    | greedyEnd => rfl
    | greedyAborted _ body => cases ih body
  | greedyAborted room _ ih =>
    cases other with
    | greedyFull => exact absurd rfl room
    | greedyEmpty _ body => cases ih body
    | greedyNext _ body => cases ih body
    | greedyEnd _ body => cases ih body
    | greedyAborted _ body => exact ih body

/-- A match never goes back, and stays within the text. -/
theorem Parses.forward (parse : Parses σ goal o out) {stop : Nat} {deeds : List Deed}
    (matched : out = .matched stop deeds) : o ≤ stop ∧ (o ≤ σ.text.length → stop ≤ σ.text.length) := by
  induction parse generalizing stop deeds with
  | production _ _ ih => exact ih matched
  | expression _ _ ih => exact ih matched
  | @terminal t o n found =>
    cases matched
    have := Terminal.matchLength?_le found
    rw [List.length_drop] at this
    omega
  | reference _ ih => exact ih matched
  | accepted _ _ ih => cases matched; exact ih rfl
  | idle _ _ ih => exact ih matched
  | undo _ ih => exact ih matched
  | sequence _ ih => exact ih matched
  | choice _ ih => exact ih matched
  | enough _ _ least rest =>
    obtain ⟨more, rfl, -⟩ := Outcome.behind_eq_matched matched
    have := least rfl
    have := rest rfl
    omega
  | tooFew _ _ ih => exact ih matched
  | present | absent => cases matched; omega
  | notPresent _ _ ih => exact ih matched
  | allDone => cases matched; omega
  | allNext _ _ head tail =>
    obtain ⟨more, rfl, -⟩ := Outcome.behind_eq_matched matched
    have := head rfl
    have := tail rfl
    omega
  | allStop _ _ ih => exact ih matched
  | firstNext _ _ _ ih => exact ih matched
  | firstStop _ _ ih => exact ih matched
  | greedyFull | greedyEmpty | greedyEnd => cases matched; omega
  | greedyNext _ _ _ _ head tail =>
    obtain ⟨more, rfl, -⟩ := Outcome.behind_eq_matched matched
    have := head rfl
    have := tail rfl
    omega
  | mismatch | rejected | refused | notAbsent | absentAborted | firstNone | greedyAborted => cases matched

theorem Parses.of_production {index root : Nat} (defined : σ.grammar.root? index = some root)
    (parse : Parses σ (.rule (.production index)) o out) : Parses σ (.rule (.expression root)) o out := by
  cases parse with
  | production defined' body =>
    cases defined.symm.trans defined'
    exact body

theorem Parses.of_expression {i : Nat} {e : Expr} (present : σ.grammar.expr? i = some e)
    (parse : Parses σ (.rule (.expression i)) o out) : Parses σ (.operator e) o out := by
  cases parse with
  | expression present' body =>
    cases present.symm.trans present'
    exact body

/-- An action that matches is taken. -/
theorem Parses.of_action {child stop : Nat} {name : String} {bound : Bool} {deeds : List Deed}
    (parse : Parses σ (.operator (.action child name bound)) o (.matched stop deeds)) :
    ∃ inner, Parses σ (.rule (.expression child)) o (.matched stop inner) ∧
      deeds = [.act name (.between σ.text o stop) inner] := by
  cases parse with
  | accepted body => exact ⟨_, body, rfl⟩
  | idle _ unmatched => cases unmatched

/-- A match of expressions is a match of the first one and, behind it, of the others. -/
theorem Parses.all_cons {child stop : Nat} {rest : List Nat} {deeds : List Deed}
    (parse : Parses σ (.all (child :: rest)) o (.matched stop deeds)) :
    ∃ middle first more, Parses σ (.rule (.expression child)) o (.matched middle first) ∧
      Parses σ (.all rest) middle (.matched stop more) ∧ deeds = first ++ more := by
  generalize reached : Outcome.matched stop deeds = out at parse
  cases parse with
  | allNext head tail =>
    obtain ⟨more, rfl, rfl⟩ := Outcome.behind_eq_matched reached.symm
    exact ⟨_, _, more, head, tail, rfl⟩
  | allStop head unmatched =>
    subst reached
    cases unmatched

end Packrat.Peg
