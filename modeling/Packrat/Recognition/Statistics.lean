import Packrat.Recognition.Event

/-! # Statistics of a recognition

An observer that counts the rules a recognition enters, by kind, and the uses of the memo table.
-/

namespace Packrat

structure Statistics where
  /-- How many rules of each kind were entered. -/
  invocations : List (String × Nat) := []
  successes : Nat := 0
  failures : Nat := 0
  hits : Nat := 0
  misses : Nat := 0
  stores : Nat := 0
  maxDepth : Nat := 0
  /-- Number of rules that are open. -/
  depth : Nat := 0
deriving DecidableEq, Repr

namespace Statistics

/-- The name a rule is counted under. -/
def kindOf (g : Grammar) : Rule → String
  | .production _ => "production"
  | .expression i => ((g.expr? i).map Expr.kind).getD ""

/-- Counts one more of a kind. -/
def bump (kind : String) : List (String × Nat) → List (String × Nat)
  | [] => [(kind, 1)]
  | (k, n) :: rest => if k = kind then (k, n + 1) :: rest else (k, n) :: bump kind rest

def invocationsOf (stats : Statistics) (kind : String) : Nat :=
  (stats.invocations.lookup kind).getD 0

/-- Number of rules entered. -/
def total (stats : Statistics) : Nat :=
  stats.invocations.foldr (fun entry total => entry.2 + total) 0

def observe : Observer Statistics := fun g _ event stats =>
  match event with
  | .opened => {}
  | .entered rule =>
    { stats with
      invocations := bump (kindOf g rule) stats.invocations
      depth := stats.depth + 1
      maxDepth := max stats.maxDepth (stats.depth + 1) }
  | .left _ success =>
    let stats := { stats with depth := stats.depth - 1 }
    if success then { stats with successes := stats.successes + 1 }
    else { stats with failures := stats.failures + 1 }
  | .lookedUp _ hit =>
    if hit then { stats with hits := stats.hits + 1 }
    else { stats with misses := stats.misses + 1 }
  | .stored _ => { stats with stores := stats.stores + 1 }
  | .closed _ => stats

def summary (stats : Statistics) : String :=
  "\n".intercalate [
    "Rule invocations: " ++ toString stats.total,
    "Terminal invocations: " ++ toString (stats.invocationsOf "terminal"),
    "Production invocations: " ++ toString (stats.invocationsOf "production"),
    "Action invocations: " ++ toString (stats.invocationsOf "action"),
    "Memo cache size: " ++ toString stats.stores,
    "Memo cache hits: " ++ toString stats.hits,
    "Memo cache misses: " ++ toString stats.misses,
    "Max depth: " ++ toString stats.maxDepth]

end Statistics

end Packrat
