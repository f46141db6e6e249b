import Packrat.Grammar.Tree

/-! # Undo scopes

An action commits its changes to the host into the scope around it. When the expression it stands
in fails later on, nothing takes these changes back unless a scope encloses that expression. An
undo scope is put around every sequence that can act before its last element, and around every
lookahead whose body can act, unless an action is right around it already.

Which productions act is found in rounds. A round walks every production that has no mark yet, once,
and what it finds on a production whose walk is still under way is that nothing is known of it. When
a round gives no production its mark, the productions that are left lead to each other only, and do
not act.
-/

namespace Packrat

/-- Whether something acts, `none` as long as that is not known. -/
abbrev Mark := Option Bool

/-- A part that acts decides, and otherwise a part that is not known leaves it open. -/
def Mark.merge : Mark → Mark → Mark
  | some true, _ | _, some true => some true
  | none, _ | _, none => none
  | some false, some false => some false

/-- What is known of the productions. -/
structure Marking where
  marks : List Mark
  /-- The productions that this round has not walked yet. -/
  untested : List Bool
deriving DecidableEq, Repr

namespace Marking

def mark (m : Marking) (index : Nat) : Mark := m.marks.getD index none

def isUntested (m : Marking) (index : Nat) : Bool := m.untested.getD index false

/-- The walk of a production begins. -/
def enter (m : Marking) (index : Nat) : Marking := { m with untested := m.untested.set index false }

def settle (m : Marking) (index : Nat) (mark : Mark) : Marking :=
  { m with marks := m.marks.set index mark }

/-- A new round begins. -/
def refresh (m : Marking) : Marking := { m with untested := m.marks.map fun _ => true }

end Marking

namespace Tree

mutual

/-- Walks an expression for its mark, with `visit` for the productions it refers to. All parts are
walked, also those that do not count. -/
def mark (visit : Nat → Marking → Mark × Marking) : Tree → Marking → Mark × Marking
  | terminal .., m => (some false, m)
  | reference _ target _, m => visit target m
  | action _ _ _ body, m | undo _ body, m => (some true, (body.mark visit m).2)
  | sequence _ items, m | choice _ items, m => markAll visit (some false) items m
  | repetition _ _ _ body, m => body.mark visit m
  | lookahead _ _ body, m => (some false, (body.mark visit m).2)

/-- The mark of expressions together, where `found` is what those before them came to. -/
def markAll (visit : Nat → Marking → Mark × Marking) (found : Mark) :
    List Tree → Marking → Mark × Marking
  | [], m => (found, m)
  | t :: rest, m =>
    let (mark, m) := t.mark visit m
    markAll visit (found.merge mark) rest m

end

mutual

/-- The expression can act, given which productions can. What a lookahead does is undone. -/
def acts (acting : Nat → Bool) : Tree → Bool
  | terminal .. => false
  | reference _ target _ => acting target
  | action .. | undo .. => true
  | sequence _ items | choice _ items => anyActs acting items
  | repetition _ _ _ body => body.acts acting
  | lookahead .. => false

def anyActs (acting : Nat → Bool) : List Tree → Bool
  | [] => false
  | t :: rest => t.acts acting || anyActs acting rest

end

mutual

/-- The sequences and lookaheads in need of an undo scope, in the order they are met. -/
def undoSites (acting : Nat → Bool) : Tree → List Nat
  | terminal .. | reference .. => []
  | action _ _ _ body | undo _ body | repetition _ _ _ body => body.undoSites acting
  | sequence id items => sequenceSites acting id false items
  | choice _ items => choiceSites acting items
  | lookahead id _ body =>
    body.undoSites acting ++ if body.acts acting then [id] else []

/-- The sites in the elements of the sequence `id`. The sequence itself is met before its last
element, and is a site if an element before that one acts. -/
def sequenceSites (acting : Nat → Bool) (id : Nat) (acted : Bool) : List Tree → List Nat
  | [] => []
  | [last] => (if acted then [id] else []) ++ last.undoSites acting
  | t :: rest => t.undoSites acting ++ sequenceSites acting id (acted || t.acts acting) rest

def choiceSites (acting : Nat → Bool) : List Tree → List Nat
  | [] => []
  | t :: rest => t.undoSites acting ++ choiceSites acting rest

end

end Tree

namespace Grammar

/-- Walks a production for its mark, if it has none and this round has not walked it. The walks of
at most `depth` productions are under way at a time. -/
def visit (trees : List (Option Tree)) : (depth index : Nat) → Marking → Mark × Marking
  | 0, index, m => (m.mark index, m)
  | depth + 1, index, m =>
    if (m.mark index).isNone && m.isUntested index then
      match trees[index]? with
      | some (some t) =>
        let (mark, m) := t.mark (visit trees depth) (m.enter index)
        let m := m.settle index mark
        (m.mark index, m)
      | _ => (none, m.enter index)
    else (m.mark index, m)

/-- Visits productions one after the other, and answers those that stay without a mark. -/
def sweep (trees : List (Option Tree)) : List Nat → Marking → List Nat × Marking
  | [], m => ([], m)
  | index :: rest, m =>
    let m := (visit trees trees.length index m).2
    let (left, last) := sweep trees rest m
    (if (m.mark index).isNone then index :: left else left, last)

/-- Sweeps over the productions without a mark, for at most `rounds` rounds. -/
def resolve (trees : List (Option Tree)) : (rounds : Nat) → List Nat → Marking → Marking
  | 0, _, m => m
  | rounds + 1, unresolved, m =>
    if unresolved.isEmpty then m
    else
      let (left, m) := sweep trees unresolved m.refresh
      if left.length = unresolved.length then
        left.foldl (fun m index => m.settle index (some false)) m
      else resolve trees rounds left m

/-- The marks of all productions. Every round but the last resolves a production. -/
def marks (g : Grammar) : List Mark :=
  let trees := g.rootTrees
  let start : Marking := ⟨trees.map fun _ => none, trees.map fun _ => true⟩
  (resolve trees (trees.length + 1) (List.range trees.length) start).marks

/-- The productions that can reach an action. -/
def actingProductions (g : Grammar) : List Bool := g.marks.map (· == some true)

/-- The expression is right inside an action. -/
def underAction (g : Grammar) (i : Nat) : Bool :=
  match g.nodes[i]? >>= Node.parent >>= g.expr? with
  | some parent => parent.isAction
  | none => false

/-- The expressions to put an undo scope around. -/
def undoSites (g : Grammar) : List Nat :=
  let acting := g.actingProductions
  let sites := g.rootTrees.flatMap fun tree =>
    (tree.map (Tree.undoSites fun i => acting.getD i false)).getD []
  (sites.filter fun i => !g.underAction i).eraseDups

/-- Puts the undo scopes in and counts them. -/
def injectUndo (g : Grammar) : Nat × Grammar :=
  let sites := g.undoSites
  (sites.length, sites.foldl (fun g i => (g.splice i .undo).2) g)

end Grammar

end Packrat
