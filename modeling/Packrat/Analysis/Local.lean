import Packrat.Analysis.Options
import Packrat.Grammar.Tree

/-! # Problems of single rules

Productions that are duplicated, unused or not defined, actions without a handler, terminals that
cannot match, and shapes that a simpler expression would have. A hint about neighbours in a sequence
or a choice is given once, however many pairs of neighbours there are.
-/

namespace Packrat

/-- What an analysis finds, before the options have their say. -/
structure Finding where
  kind : ProblemKind
  rule : Rule
  message : String
deriving DecidableEq, Repr

namespace Finding

/-- The reported problems of a list of findings. -/
def problems (o : Options) (g : Grammar) (findings : List Finding) : Problems :=
  findings.filterMap fun f => o.problem? g f.kind f.rule f.message

end Finding

namespace Tree

/-- Two neighbours are terminals related by `related`. -/
def hasNeighbours (related : Terminal → Terminal → Bool) : List Tree → Bool
  | t :: u :: rest =>
    (match t.terminal?, u.terminal? with
      | some a, some b => related a b
      | _, _ => false) || hasNeighbours related (u :: rest)
  | _ => false

/-- Two tokens that one token could stand for. -/
def sameCaseTokens : Terminal → Terminal → Bool
  | .token _ cs, .token _ cs' => cs == cs'
  | _, _ => false

/-- Two terminals that one set could stand for. -/
def bothDetermined (a b : Terminal) : Bool := a.isDetermined && b.isDetermined

/-- What is odd about a terminal: the empty text is not, it stands for an empty right-hand side. -/
def terminalFindings (id : Nat) (t : Terminal) : List Finding :=
  match t with
  | .nil => []
  | .charClass k =>
    if k.isUndefined then
      [⟨.unsupportedClass, .expression id, "character class `<" ++ k.name ++ ">` is not supported"⟩]
    else []
  | t =>
    if t.isEmpty then
      [⟨.emptyTerminal, .expression id, "terminal " ++ t.text ++ " cannot match anything"⟩]
    else if t.isInefficient then
      [⟨.inefficientTerminal, .expression id, "terminal " ++ t.text ++ " can be simplified"⟩]
    else []

mutual

/-- The findings in an expression, the parts of a sequence or choice before the whole. -/
def findings (g : Grammar) : Tree → List Finding
  | terminal id t => terminalFindings id t
  | reference id target _ =>
    match g.productions[target]? with
    | some p =>
      if p.defined then []
      else [⟨.undefinedProduction, .expression id, "production `" ++ p.name ++ "` is not defined"⟩]
    | none => []
  | action id name bound body =>
    (if bound then []
      else [⟨.undefinedAction, .expression id,
        "no handler is registered for action `" ++ name ++ "`"⟩]) ++ body.findings g
  | undo _ body | repetition _ _ _ body | lookahead _ _ body => body.findings g
  | sequence id items =>
    allFindings g items ++
      if hasNeighbours sameCaseTokens items then
        [⟨.inefficientSequence, .expression id,
          "adjacent tokens with the same case sensitivity form a single token"⟩]
      else []
  | choice id items =>
    allFindings g items ++
      if hasNeighbours bothDetermined items then
        [⟨.inefficientChoice, .expression id,
          "a choice between single characters is a character set"⟩]
      else []

def allFindings (g : Grammar) : List Tree → List Finding
  | [] => []
  | t :: rest => t.findings g ++ allFindings g rest

end

end Tree

namespace Grammar

/-- The findings in a production and its right-hand side. -/
def productionFindings (g : Grammar) (p : Production) : List Finding :=
  (if p.duplicated then
    [⟨.duplicateProduction, .production p.index,
      "production `" ++ p.name ++ "` is defined more than once"⟩]
    else []) ++
  (if p.defined && p.isStandalone && p.index != 0 then
    [⟨.unusedProduction, .production p.index, "production `" ++ p.name ++ "` is never used"⟩]
    else []) ++
  ((g.tree? p.root).map (Tree.findings g)).getD []

def localFindings (g : Grammar) : List Finding :=
  g.productions.toList.flatMap g.productionFindings

/-- The reported problems of single rules. -/
def localProblems (g : Grammar) (o : Options) : Problems := Finding.problems o g g.localFindings

end Grammar

end Packrat
