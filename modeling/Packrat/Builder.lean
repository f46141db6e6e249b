import Packrat.Grammar.Undo
import Packrat.Segments

/-! # Assembling a grammar

A stack machine that assembles the productions of a grammar. Leaves are pushed on a stack, and the
operators replace what is on top of it by a new node. A mark opens a segment of the stack: sequences
and choices take the whole segment, `release` merges it into the one below, and `reset` discards it
with every expression made since the mark.

Every operation either succeeds or says why it is refused, and a refused operation leaves the
machine as it was.
-/

namespace Packrat

inductive BuildError where
  | noProduction
  | unfinishedProduction (name : String)
  | emptyStack (operation : String)
  | unbalancedMark (operation : String)
  | invalidRepetition (min max : Nat)
  /-- The right-hand side of a production was discarded after the production was finished. -/
  | danglingRoot (name : String)
deriving DecidableEq, Repr

def BuildError.message : BuildError → String
  | noProduction => "no production is under construction"
  | unfinishedProduction name => "production `" ++ name ++ "` is still under construction"
  | emptyStack operation => "`" ++ operation ++ "` needs an expression on the stack"
  | unbalancedMark operation => "`" ++ operation ++ "` called without a matching mark"
  | invalidRepetition min max =>
    "invalid repetition bounds \x7b" ++ toString min ++ "," ++ toString max ++ "\x7d"
  | danglingRoot name => "the expression of production `" ++ name ++ "` has been discarded"

structure Builder where
  /-- Productions in the order they were first named; `index` is that order until `build`. -/
  productions : Array Production := #[]
  /-- The productions in the order they were defined. -/
  definitions : Array Nat := #[]
  nodes : Array Node := #[]
  stack : Segments Nat := .empty
  /-- Size of the arena at every mark of the stack, the innermost first. -/
  arenaMarks : List Nat := []
  /-- The production under construction. -/
  current : Option Nat := none
  /-- Names of the actions with a handler. -/
  knownActions : List String := []
  source : Option String := none
deriving DecidableEq, Repr

namespace Builder

def empty : Builder := {}

instance : Inhabited Builder := ⟨empty⟩

def withActions (b : Builder) (names : List String) : Builder :=
  { b with knownActions := b.knownActions ++ names }

def setSource (b : Builder) (text : String) : Builder := { b with source := some text }

/-- Forgets everything but the names of the actions. -/
def clear (b : Builder) : Builder := { knownActions := b.knownActions }

/-- Number of expressions in the current segment. -/
def stackSize (b : Builder) : Nat := b.stack.size

def create (b : Builder) (p : Production) : Nat × Builder :=
  let id := b.productions.size
  (id, { b with productions := b.productions.push { p with index := id } })

/-- The first production of a name, made as a placeholder if the name is new. -/
def lookup (b : Builder) (name : String) : Nat × Builder :=
  match b.productions.findIdx? (·.name == name) with
  | some id => (id, b)
  | none => b.create { name, index := 0 }

def isDefined (b : Builder) (id : Nat) : Bool :=
  (b.productions[id]?.map Production.defined).getD false

/-- The production that a definition of `name` fills in. A second definition of a name gets a
production of its own, and both are flagged. -/
def define (b : Builder) (name : String) : Nat × Builder :=
  let (id, b) := b.lookup name
  if b.isDefined id then
    let b := { b with productions := b.productions.modify id ({ · with duplicated := true }) }
    let (id, b) := b.create { name, index := 0, defined := true, duplicated := true }
    (id, { b with definitions := b.definitions.push id })
  else
    (id, { b with
      productions := b.productions.modify id ({ · with defined := true })
      definitions := b.definitions.push id })

def nameOf (b : Builder) (id : Nat) : String :=
  (b.productions[id]?.map Production.name).getD ""

/-- The production under construction. -/
def owner (b : Builder) : Except BuildError Nat :=
  match b.current with
  | some id => .ok id
  | none => .error .noProduction

def mark (b : Builder) : Builder :=
  { b with stack := b.stack.mark, arenaMarks := b.nodes.size :: b.arenaMarks }

/-- The marks `release` and `reset` must leave alone: one for a production under construction. -/
def reservedMarks (b : Builder) : Nat := if b.current.isSome then 1 else 0

def release (b : Builder) : Except BuildError Builder :=
  if b.arenaMarks.length ≤ b.reservedMarks then .error (.unbalancedMark "release")
  else match b.stack.release? with
    | none => .error (.unbalancedMark "release")
    | some stack => .ok { b with stack, arenaMarks := b.arenaMarks.tail }

def reset (b : Builder) : Except BuildError Builder :=
  if b.arenaMarks.length ≤ b.reservedMarks then .error (.unbalancedMark "reset")
  else match b.stack.reset? with
    | none => .error (.unbalancedMark "reset")
    | some stack => .ok { b with
        stack
        nodes := b.nodes.extract 0 (b.arenaMarks.headD b.nodes.size)
        arenaMarks := b.arenaMarks.tail }

/-- Adds a node of the production `owner` to the arena. -/
def alloc (b : Builder) (owner : Nat) (expr : Expr) : Nat × Builder :=
  (b.nodes.size, { b with nodes := b.nodes.push { expr, owner } })

/-- From the start of the first to the end of the last child, if both have a place. -/
def coveringSpan (b : Builder) (children : List Nat) : Option Span := do
  let first ← children.head?
  let last ← children.getLast?
  let firstSpan ← b.nodes[first]? >>= Node.span
  let lastSpan ← b.nodes[last]? >>= Node.span
  return ⟨firstSpan.start, lastSpan.stop⟩

/-- Adds a node over its children, which become its parts. -/
def allocParent (b : Builder) (owner : Nat) (expr : Expr) : Nat × Builder :=
  let span := b.coveringSpan expr.children
  let (id, b) := b.alloc owner expr
  let adopt (nodes : Array Node) (child : Nat) : Array Node :=
    nodes.modify child fun node => { node with parent := some id }
  let nodes := expr.children.foldl adopt b.nodes
  (id, { b with nodes := nodes.modify id fun node => { node with span } })

def pushId (b : Builder) (id : Nat) : Builder := { b with stack := b.stack.push id }

def pushExpr (b : Builder) (expr : Expr) : Except BuildError Builder := do
  let owner ← b.owner
  let (id, b) := b.alloc owner expr
  return b.pushId id

def pushTerminal (b : Builder) (t : Terminal) : Except BuildError Builder :=
  b.pushExpr (.terminal t)

/-- A token for each image. -/
def pushTokens (b : Builder) (images : List String) (caseSensitive : Bool) :
    Except BuildError Builder :=
  images.foldlM (fun b image => b.pushTerminal (.token image caseSensitive)) b

/-- A reference to the production `name`, which may be defined later. -/
def pushReference (b : Builder) (name : String) (memo : Bool) : Except BuildError Builder := do
  let _ ← b.owner
  let (target, b) := b.lookup name
  b.pushExpr (.reference target memo)

/-- Replaces the current segment by one node, if there is more than one expression in it. -/
def combine (b : Builder) (make : List Nat → Expr) : Except BuildError Builder := do
  let owner ← b.owner
  if b.stack.size ≤ 1 then return b
  let (items, stack) := b.stack.popAll
  let (id, b) := { b with stack }.allocParent owner (make items)
  return b.pushId id

def sequence (b : Builder) : Except BuildError Builder := b.combine .sequence

def choice (b : Builder) : Except BuildError Builder := b.combine .choice

/-- Replaces the top expression by a node over it. -/
def wrapTop (b : Builder) (operation : String) (make : Nat → Expr) :
    Except BuildError Builder := do
  let owner ← b.owner
  match b.stack.pop? with
  | none => .error (.emptyStack operation)
  | some (child, stack) =>
    let (id, b) := { b with stack }.allocParent owner (make child)
    return b.pushId id

def repeatTop (b : Builder) (min max : Nat) : Except BuildError Builder :=
  if max < min ∨ max = 0 then .error (.invalidRepetition min max)
  else b.wrapTop "repeat" (.repetition · min max)

def lookahead (b : Builder) (sign : Lookahead) : Except BuildError Builder :=
  b.wrapTop "except" (.lookahead · sign)

/-- Hands the top expression, or the empty text in an empty segment, to the action `name`. -/
def action (b : Builder) (name : String) : Except BuildError Builder := do
  let owner ← b.owner
  let (child, b) :=
    match b.stack.pop? with
    | some (child, stack) => (child, { b with stack })
    | none => b.alloc owner (.terminal .nil)
  let (id, b) := b.allocParent owner (.action child name (b.knownActions.contains name))
  return b.pushId id

/-- Changes the span of the top expression, or that of the production in an empty segment. -/
def modifySpan (b : Builder) (f : Option Span → Span) : Except BuildError Builder := do
  let owner ← b.owner
  match b.stack.peek? with
  | some top =>
    return { b with
      nodes := b.nodes.modify top fun node => { node with span := some (f node.span) } }
  | none =>
    return { b with
      productions := b.productions.modify owner fun p => { p with span := some (f p.span) } }

def setStart (b : Builder) (start : Position) : Except BuildError Builder :=
  b.modifySpan fun span => ⟨start, (span.map Span.stop).getD start⟩

def setStop (b : Builder) (stop : Position) : Except BuildError Builder :=
  b.modifySpan fun span => ⟨(span.map Span.start).getD stop, stop⟩

def setProductionSpan (b : Builder) (span : Span) : Except BuildError Builder := do
  let owner ← b.owner
  return { b with
    productions := b.productions.modify owner fun p => { p with span := some span } }

def startProduction (b : Builder) (name : String) : Except BuildError Builder :=
  match b.current with
  | some id => .error (.unfinishedProduction (b.nameOf id))
  | none =>
    let (id, b) := b.define name
    .ok { b with current := some id }.mark

/-- A right-hand side is the sequence of the expressions left on the stack, or the empty text. -/
def rightHandSide (b : Builder) (owner : Nat) : List Nat → Nat × Builder
  | [] => b.alloc owner (.terminal .nil)
  | [item] => (item, b)
  | items => b.allocParent owner (.sequence items)

def endProduction (b : Builder) : Except BuildError Builder := do
  let owner ← b.owner
  let (items, stack) := b.stack.popAll
  let (root, b) := { b with stack }.rightHandSide owner items
  return { b with
    productions := b.productions.modify owner fun p => { p with root }
    stack := b.stack.release?.getD b.stack
    arenaMarks := b.arenaMarks.tail
    current := none }

/-- The productions in their final order: as they were defined, then those never defined. -/
def finalOrder (b : Builder) : List Nat :=
  b.definitions.toList ++ (List.range b.productions.size).filter fun id => !b.isDefined id

/-- Gives every production without a definition an empty right-hand side. -/
def fillUndefined (b : Builder) : Builder :=
  (List.range b.productions.size).foldl
    (fun b id =>
      if b.isDefined id then b
      else
        let (root, b) := b.alloc id (.terminal .nil)
        { b with productions := b.productions.modify id fun p => { p with root } })
    b

/-- Numbers the productions of a node anew. -/
def renumber (index : Nat → Nat) (node : Node) : Node :=
  { node with
    owner := index node.owner
    expr :=
      match node.expr with
      | .reference target memo => .reference (index target) memo
      | expr => expr }

/-- The finished grammar with its undo scopes. -/
def build (b : Builder) : Except BuildError Grammar :=
  match b.current with
  | some id => .error (.unfinishedProduction (b.nameOf id))
  | none =>
    let order := b.finalOrder
    let b := b.fillUndefined
    let nodes := b.nodes.map (renumber order.idxOf)
    let productions := (order.filterMap fun id => b.productions[id]?).toArray.mapIdx
      fun index p => { p with index }
    match productions.find? fun p => nodes.size ≤ p.root with
    | some p => .error (.danglingRoot p.name)
    | none => .ok (Grammar.assemble productions nodes b.source).injectUndo.2

/-- The operations of the machine as data. -/
inductive Step where
  | startProduction (name : String)
  | endProduction
  | terminal (terminal : Terminal)
  | tokens (images : List String) (caseSensitive : Bool)
  | reference (name : String) (memo : Bool)
  | sequence
  | choice
  | repetition (min max : Nat)
  | lookahead (sign : Lookahead)
  | action (name : String)
  | mark
  | release
  | reset
  | setStart (start : Position)
  | setStop (stop : Position)
  | setProductionSpan (span : Span)
  | setSource (text : String)
  | clear
deriving DecidableEq, Repr

def apply (b : Builder) : Step → Except BuildError Builder
  | .startProduction name => b.startProduction name
  | .endProduction => b.endProduction
  | .terminal t => b.pushTerminal t
  | .tokens images caseSensitive => b.pushTokens images caseSensitive
  | .reference name memo => b.pushReference name memo
  | .sequence => b.sequence
  | .choice => b.choice
  | .repetition min max => b.repeatTop min max
  | .lookahead sign => b.lookahead sign
  | .action name => b.action name
  | .mark => .ok b.mark
  | .release => b.release
  | .reset => b.reset
  | .setStart start => b.setStart start
  | .setStop stop => b.setStop stop
  | .setProductionSpan span => b.setProductionSpan span
  | .setSource text => .ok (b.setSource text)
  | .clear => .ok b.clear

/-- Runs steps to the first refused one. -/
def applyAll (b : Builder) (steps : List Step) : Except BuildError Builder :=
  steps.foldlM apply b

end Builder

end Packrat
