import Packrat.Analysis.Local

/-! # Left recursion

A production that can call itself at the place where it started would never end. First it is found
out which productions are sure to consume a character when they match. The left calls of a
production are then the references that can be reached in it before anything is consumed, and a
left recursion is a cycle of left calls.
-/

namespace Packrat

namespace Tree

mutual

/-- A match is sure to consume a character, given which productions are. -/
def consumes (consuming : Nat → Bool) : Tree → Bool
  | terminal _ .nil => false
  | terminal _ (.token image _) => !image.isEmpty
  | terminal .. => true
  | reference _ target _ => consuming target
  | action _ _ _ body | undo _ body => body.consumes consuming
  | sequence _ items => anyConsumes consuming items
  | choice _ items => allConsume consuming items
  | repetition _ min _ body => min > 0 && body.consumes consuming
  | lookahead .. => false

def anyConsumes (consuming : Nat → Bool) : List Tree → Bool
  | [] => false
  | t :: rest => t.consumes consuming || anyConsumes consuming rest

def allConsume (consuming : Nat → Bool) : List Tree → Bool
  | [] => true
  | t :: rest => t.consumes consuming && allConsume consuming rest

end

mutual

/-- The references that can be reached before anything is consumed, with their targets. -/
def leftCalls (consuming : Nat → Bool) : Tree → List (Nat × Nat)
  | terminal .. => []
  | reference id target _ => [(id, target)]
  | action _ _ _ body | undo _ body | repetition _ _ _ body | lookahead _ _ body =>
    body.leftCalls consuming
  | sequence _ items => sequenceLeftCalls consuming items
  | choice _ items => choiceLeftCalls consuming items

/-- Elements behind one that consumes are out of reach. -/
def sequenceLeftCalls (consuming : Nat → Bool) : List Tree → List (Nat × Nat)
  | [] => []
  | t :: rest =>
    t.leftCalls consuming ++
      if t.consumes consuming then [] else sequenceLeftCalls consuming rest

def choiceLeftCalls (consuming : Nat → Bool) : List Tree → List (Nat × Nat)
  | [] => []
  | t :: rest => t.leftCalls consuming ++ choiceLeftCalls consuming rest

end

end Tree

namespace Grammar

/-- Which productions consume, given that those of `consuming` do. -/
def consumingStep (trees : List (Option Tree)) (consuming : List Bool) : List Bool :=
  trees.map fun tree => tree.any (Tree.consumes fun i => consuming.getD i false)

/-- The productions that are sure to consume: from all, drop those that are not through the ones
left. One round for each production is enough. -/
def consumingProductions (g : Grammar) : List Bool :=
  (List.range g.productions.size).foldl (fun consuming _ => consumingStep g.rootTrees consuming)
    (g.productions.toList.map fun _ => true)

/-- The left calls of every production. -/
def leftCallTable (g : Grammar) : Array (List (Nat × Nat)) :=
  let consuming := g.consumingProductions
  (g.rootTrees.map fun tree =>
    (tree.map (Tree.leftCalls fun i => consuming.getD i false)).getD []).toArray

end Grammar

/-- A cycle of left calls: the productions on it, and the reference that closes it. -/
structure LeftCycle where
  path : List Nat
  reference : Nat
deriving DecidableEq, Repr

namespace LeftCycle

/-- Follows left calls from `calls` on in the order they are met, and into each production once,
until one leads back to `source`. `path` holds the productions that lead here. Answers the cycle, if
there is one, and the productions entered. -/
def search (table : Array (List (Nat × Nat))) (source : Nat) :
    (depth : Nat) → (path : List Nat) → (calls : List (Nat × Nat)) → (visited : List Nat) →
    Option LeftCycle × List Nat
  | 0, _, _, visited => (none, visited)
  | depth + 1, path, calls, visited =>
    follow (fun target => search table source depth (path ++ [target]) (table.getD target []))
      path calls visited
where
  follow (enter : Nat → List Nat → Option LeftCycle × List Nat) (path : List Nat) :
      List (Nat × Nat) → List Nat → Option LeftCycle × List Nat
    | [], visited => (none, visited)
    | (reference, target) :: rest, visited =>
      if target = source then (some ⟨path, reference⟩, visited)
      else if visited.contains target then follow enter path rest visited
      else
        match enter target (target :: visited) with
        | (some cycle, visited) => (some cycle, visited)
        | (none, visited) => follow enter path rest visited

/-- The first cycle of left calls through `source`. -/
def from? (table : Array (List (Nat × Nat))) (source : Nat) : Option LeftCycle :=
  (search table source (table.size + 1) [source] (table.getD source []) [source]).1

/-- One cycle for each production that starts one and lies on none found before. -/
def findAll (table : Array (List (Nat × Nat))) : (sources found : List Nat) → List LeftCycle
  | [], _ => []
  | source :: rest, found =>
    if found.contains source then findAll table rest found
    else match from? table source with
      | some cycle => cycle :: findAll table rest (cycle.path ++ found)
      | none => findAll table rest found

def finding (g : Grammar) (cycle : LeftCycle) : Finding where
  kind := .leftRecursion
  rule := .expression cycle.reference
  message := "production `" ++ g.name (cycle.path.headD 0) ++
    "` is left recursive, the rule cycle " ++ cycleText (cycle.path.map g.name) ++
    " does not consume any input"

end LeftCycle

namespace Grammar

def leftCycles (g : Grammar) : List LeftCycle :=
  LeftCycle.findAll g.leftCallTable (List.range g.productions.size) []

/-- The reported left recursions. -/
def leftRecursionProblems (g : Grammar) (o : Options) : Problems :=
  Finding.problems o g (g.leftCycles.map (LeftCycle.finding g))

end Grammar

end Packrat
