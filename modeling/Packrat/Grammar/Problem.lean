import Packrat.Grammar.Expr

/-! # Problems of a grammar

What is wrong or odd with a grammar, found while it was read or analysed. A problem may be bound to
a rule of the grammar, and may have a place in the text the grammar was read from.
-/

namespace Packrat

inductive Severity where
  | fatal
  | error
  | warning
  | hint
deriving DecidableEq, Repr

namespace Severity

def all : List Severity := [fatal, error, warning, hint]

def name : Severity → String
  | fatal => "fatal"
  | error => "error"
  | warning => "warning"
  | hint => "hint"

def ofName? (name : String) : Option Severity := all.find? (·.name == name)

theorem ofName?_name (severity : Severity) : ofName? severity.name = some severity := by
  cases severity <;> rfl

/-- A grammar with a problem of this severity cannot be used. -/
def isBlocking : Severity → Bool
  | fatal | error => true
  | warning | hint => false

end Severity

inductive ProblemKind where
  | emptyGrammar
  | syntaxError
  | invalidExpression
  | missingSemicolon
  | missingParenthesis
  | unterminatedString
  | invalidEscape
  | invalidCodePoint
  | unterminatedComment
  | leftRecursion
  | emptyTerminal
  | unsupportedClass
  | duplicateProduction
  | undefinedProduction
  | unusedProduction
  | undefinedAction
  | inefficientTerminal
  | inefficientSequence
  | inefficientChoice
deriving DecidableEq, Repr

namespace ProblemKind

/-- All kinds, in the order problems at the same place are listed. -/
def all : List ProblemKind :=
  [emptyGrammar, syntaxError, invalidExpression, missingSemicolon, missingParenthesis,
    unterminatedString, invalidEscape, invalidCodePoint, unterminatedComment, leftRecursion,
    emptyTerminal, unsupportedClass, duplicateProduction, undefinedProduction, unusedProduction,
    undefinedAction, inefficientTerminal, inefficientSequence, inefficientChoice]

theorem mem_all (kind : ProblemKind) : kind ∈ all := by
  cases kind <;> decide

def rank (kind : ProblemKind) : Nat := all.idxOf kind

def severity : ProblemKind → Severity
  | emptyGrammar => .fatal
  | unusedProduction | undefinedAction => .warning
  | inefficientTerminal | inefficientSequence | inefficientChoice => .hint
  | _ => .error

def code : ProblemKind → String
  | emptyGrammar => "EMPTY_GRAMMAR"
  | syntaxError => "SYNTAX_ERROR"
  | invalidExpression => "INVALID_EXPRESSION"
  | missingSemicolon => "MISSING_SEMI"
  | missingParenthesis => "MISSING_CLOSING_PARENTHESIZE"
  | unterminatedString => "UNTERMINATED_STRING"
  | invalidEscape => "INVALID_ESCAPE_SEQUENCE"
  | invalidCodePoint => "INVALID_UNICODE_CHARACTER"
  | unterminatedComment => "UNTERMINATED_BLOCK_COMMENT"
  | leftRecursion => "LEFT_RECURSION"
  | emptyTerminal => "EMPTY_TERMINAL"
  | unsupportedClass => "UNSUPPORTED_CLASS"
  | duplicateProduction => "DUPLICATE_PRODUCTION"
  | undefinedProduction => "UNDEFINED_PRODUCTION"
  | unusedProduction => "UNUSED_PRODUCTION"
  | undefinedAction => "UNDEFINED_ACTION"
  | inefficientTerminal => "INEFFICIENT_TERMINAL"
  | inefficientSequence => "INEFFICIENT_CONCATENATION"
  | inefficientChoice => "INEFFICIENT_ALTERNATION"

def ofCode? (code : String) : Option ProblemKind := all.find? (·.code == code)

theorem ofCode?_code (kind : ProblemKind) : ofCode? kind.code = some kind := by
  cases kind <;> rfl

/-- The usual way out of a problem. -/
def suggestion? : ProblemKind → Option String
  | leftRecursion => some <| "rewrite the rule cycle so that one of its rules consumes input " ++
      "before the next one is called, usually with a repetition (`e*` or `e+`)"
  | missingSemicolon => some "terminate the production with `;`"
  | missingParenthesis => some "close the group with `)`"
  | duplicateProduction => some "rename or remove one of the productions"
  | undefinedProduction => some "define the production or fix the reference name"
  | unusedProduction => some "remove the production or reference it"
  | undefinedAction => some "register a handler under this name"
  | unsupportedClass => some <|
      "use one of <Lower>, <Upper>, <Title>, <Alpha>, <Digit>, <Alnum>, <Space>"
  | inefficientTerminal => some "use the simpler terminal"
  | inefficientSequence => some "merge the adjacent tokens into one token"
  | inefficientChoice => some "merge the alternatives into one character set"
  | _ => none

end ProblemKind

structure Problem where
  kind : ProblemKind
  rule : Option Rule
  span : Option Span
  message : String
deriving DecidableEq, Repr

namespace Problem

def severity (p : Problem) : Severity := p.kind.severity

/-- `place: severity [CODE]: message` -/
def text (p : Problem) : String :=
  (match p.span with
    | some span => span.start.text ++ ": "
    | none => "") ++
  p.severity.name ++ " [" ++ p.kind.code ++ "]: " ++ p.message

/-- Problems are listed by place, those without a place first, and by kind at the same place. -/
def listedBefore (p q : Problem) : Bool :=
  match p.span, q.span with
  | none, none => p.kind.rank ≤ q.kind.rank
  | none, some _ => true
  | some _, none => false
  | some s, some t =>
    if s.start = t.start then p.kind.rank ≤ q.kind.rank else decide (s.start ≤ t.start)

end Problem

/-- Problems in the order they are listed. -/
abbrev Problems := List Problem

namespace Problems

/-- Problems at the same place and of the same kind keep their order. -/
def sort (problems : Problems) : Problems := problems.mergeSort Problem.listedBefore

/-- The problems that are not bound to a rule. -/
def unbound (problems : Problems) : Problems := problems.filter (·.rule.isNone)

def count (problems : Problems) (severity : Severity) : Nat :=
  problems.countP (·.severity == severity)

def hasKind (problems : Problems) (kind : ProblemKind) : Bool := problems.any (·.kind == kind)

def hasErrors (problems : Problems) : Bool := problems.any (·.severity.isBlocking)

/-- `1 error, 2 warnings`, or `no problems`. -/
def summary (problems : Problems) : String :=
  let parts := Severity.all.filterMap fun severity =>
    match problems.count severity with
    | 0 => none
    | 1 => some ("1 " ++ severity.name)
    | n => some (toString n ++ " " ++ severity.name ++ "s")
  if parts.isEmpty then "no problems" else ", ".intercalate parts

/-- A line for each problem, and the summary. -/
def text (problems : Problems) : String :=
  String.join (problems.map fun p => p.text ++ "\n") ++ problems.summary

end Problems

end Packrat
