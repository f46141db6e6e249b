import Packrat.Analysis.LeftRecursion

/-! # Compiling a grammar

Runs the analyses over a grammar. Problems bound to a rule are found anew each time, the others are
kept. A grammar with an error cannot be used for recognition. Compiling is a row of passes, each of
which says whether the grammar is usable with the problems found so far.
-/

namespace Packrat

/-- A grammar after its analysis. -/
inductive Compiled where
  | usable (grammar : Grammar)
  | faulty (grammar : Grammar)
deriving DecidableEq, Repr

namespace Compiled

def grammar : Compiled → Grammar
  | usable g | faulty g => g

def isUsable : Compiled → Bool
  | usable _ => true
  | faulty _ => false

/-- Goes on with the next pass. What is faulty stays so, whatever the pass says.

The combinator this stands for belongs to an outside library, `partial`, whose code is not at hand. That it runs the
next pass on a faulty grammar too, and that the answer is then faulty, is assumed of it. -/
def andThen (c : Compiled) (pass : Grammar → Compiled) : Compiled :=
  match c with
  | usable g => pass g
  | faulty g => faulty (pass g).grammar

end Compiled

namespace Grammar

def noProductions : String := "at least one production must be declared"

/-- The problem of a grammar without productions, unless it is known already. -/
def emptyProblems (g : Grammar) : Problems :=
  if g.isEmpty && !g.problems.hasKind .emptyGrammar then
    [⟨.emptyGrammar, none, none, noProductions⟩]
  else []

/-- A grammar with an error is faulty. -/
def outcome (g : Grammar) : Compiled :=
  if g.hasErrors then .faulty g else .usable g

/-- Drops the problems that are bound to a rule. -/
def clearRuleProblems (g : Grammar) : Grammar := { g with problems := g.problems.unbound }

def addProblems (g : Grammar) (found : Problems) : Grammar :=
  { g with problems := g.problems ++ found }

def requireProduction (g : Grammar) : Grammar := g.addProblems g.emptyProblems

def analyseRules (o : Options) (g : Grammar) : Grammar :=
  g.addProblems (if o.localAnalysis then g.localProblems o else [])

def analyseLeftRecursion (o : Options) (g : Grammar) : Grammar :=
  g.addProblems (if o.leftRecursion then g.leftRecursionProblems o else [])

def sortProblems (g : Grammar) : Grammar := { g with problems := g.problems.sort }

def compile (g : Grammar) (o : Options) : Compiled :=
  Compiled.usable g
    |>.andThen (fun g => g.clearRuleProblems.outcome)
    |>.andThen (fun g => g.requireProduction.outcome)
    |>.andThen (fun g => (g.analyseRules o).outcome)
    |>.andThen (fun g => (g.analyseLeftRecursion o).outcome)
    |>.andThen (fun g => g.sortProblems.outcome)

end Grammar

end Packrat
