import Packrat.Grammar.Basic

/-! # Options of the analyses

Which analyses run, which severities they report, and whether messages say the usual way out.
-/

namespace Packrat

structure Options where
  suppressWarnings : Bool := false
  suppressHints : Bool := false
  /-- Adds the usual way out to every message. -/
  makeSuggestions : Bool := false
  localAnalysis : Bool := true
  leftRecursion : Bool := true
deriving DecidableEq, Repr

namespace Options

/-- Bit 0 suppresses warnings, bit 1 suppresses hints, bit 2 makes suggestions. All analyses
run. -/
def ofBits (bits : Nat) : Options where
  suppressWarnings := bits.testBit 0
  suppressHints := bits.testBit 1
  makeSuggestions := bits.testBit 2

def bits (o : Options) : Nat :=
  o.suppressWarnings.toNat + 2 * o.suppressHints.toNat + 4 * o.makeSuggestions.toNat

/-- The bits keep what is reported, and not which analyses run. -/
theorem ofBits_bits (o : Options) :
    ofBits o.bits = { o with localAnalysis := true, leftRecursion := true } := by
  obtain ⟨warnings, hints, suggestions, analysis, recursion⟩ := o
  cases warnings <;> cases hints <;> cases suggestions <;> cases analysis <;> cases recursion <;>
    decide

/-- Problems of this severity are reported. -/
def reports (o : Options) : Severity → Bool
  | .warning => !o.suppressWarnings
  | .hint => !o.suppressHints
  | .fatal | .error => true

/-- The message with the usual way out, if that is asked for. -/
def messageFor (o : Options) (kind : ProblemKind) (message : String) : String :=
  match kind.suggestion? with
  | some suggestion => if o.makeSuggestions then message ++ "; " ++ suggestion else message
  | none => message

/-- A problem bound to `rule`, unless its severity is not reported. -/
def problem? (o : Options) (g : Grammar) (kind : ProblemKind) (rule : Rule) (message : String) :
    Option Problem :=
  if o.reports kind.severity then
    some ⟨kind, some rule, g.ruleSpan rule, o.messageFor kind message⟩
  else none

end Options

end Packrat
