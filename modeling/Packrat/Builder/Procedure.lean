import Packrat.Builder

/-! # Operations that change a builder in place

`Builder.apply` hands over the builder that an accepted operation leaves, and no builder when it refuses. A procedure
works on the builder itself, one statement after the other: if it stops at a refusal, what it changed before stays
changed. Each procedure tests and changes in the order in which the operation is documented to.
-/

namespace Packrat

namespace Builder

/-- Statements on a builder, up to the first refusal. -/
abbrev Procedure := ExceptT BuildError (StateM Builder)

namespace Procedure

variable {α : Type}

/-- The result or the refusal, and the builder behind it. -/
def on (b : Builder) (procedure : Procedure α) : Except BuildError α × Builder := procedure.run.run b

def owner : Procedure Nat := do
  match (← get).current with
  | some id => return id
  | none => throw .noProduction

def alloc (expr : Expr) : Procedure Nat := do
  let owner ← owner
  modifyGet fun b => b.alloc owner expr

def allocParent (expr : Expr) : Procedure Nat := do
  let owner ← owner
  modifyGet fun b => b.allocParent owner expr

def pushId (id : Nat) : Procedure Unit := modify fun b => b.pushId id

def popAll : Procedure (List Nat) :=
  modifyGet fun b => (b.stack.popAll.1, { b with stack := b.stack.popAll.2 })

/-- Takes the last item off the stack, if there is one in the top segment. -/
def pop? : Procedure (Option Nat) :=
  modifyGet fun b =>
    match b.stack.pop? with
    | none => (none, b)
    | some (item, stack) => (some item, { b with stack })

def startProduction (name : String) : Procedure Unit := do
  let b ← get
  match b.current with
  | some id => throw (.unfinishedProduction (b.nameOf id))
  | none =>
    let id ← modifyGet fun b => b.define name
    modify fun b => { b with current := some id }
    modify Builder.mark

def endProduction : Procedure Unit := do
  let owner ← owner
  let items ← popAll
  let root ←
    match items with
    | [] => alloc (.terminal .nil)
    | [item] => pure item
    | items => allocParent (.sequence items)
  modify fun b => { b with productions := b.productions.modify owner fun p => { p with root } }
  modify fun b => { b with stack := b.stack.release?.getD b.stack }
  modify fun b => { b with arenaMarks := b.arenaMarks.tail }
  modify fun b => { b with current := none }

def setProductionSpan (span : Span) : Procedure Unit := do
  let owner ← owner
  modify fun b => { b with productions := b.productions.modify owner fun p => { p with span := some span } }

def pushExpr (expr : Expr) : Procedure Unit := do
  let id ← alloc expr
  pushId id

/-- One token after the other: the refusal of one would come behind the tokens before it. -/
def pushTokens (images : List String) (caseSensitive : Bool) : Procedure Unit :=
  forM images fun image => pushExpr (.terminal (.token image caseSensitive))

/-- The name is looked up, and may be made known, before the expression is pushed. -/
def pushReference (name : String) (memo : Bool) : Procedure Unit := do
  let _ ← owner
  let target ← modifyGet fun b => b.lookup name
  pushExpr (.reference target memo)

def combine (make : List Nat → Expr) : Procedure Unit := do
  let _ ← owner
  if 1 < (← get).stack.size then
    let items ← popAll
    let id ← allocParent (make items)
    pushId id

def wrapTop (operation : String) (make : Nat → Expr) : Procedure Unit := do
  let _ ← owner
  match ← pop? with
  | none => throw (.emptyStack operation)
  | some child =>
    let id ← allocParent (make child)
    pushId id

def repeatTop (min max : Nat) : Procedure Unit := do
  if max < min ∨ max = 0 then throw (.invalidRepetition min max)
  wrapTop "repeat" (.repetition · min max)

def action (name : String) : Procedure Unit := do
  let _ ← owner
  let child ←
    match ← pop? with
    | some child => pure child
    | none => alloc (.terminal .nil)
  let id ← allocParent (.action child name ((← get).knownActions.contains name))
  pushId id

def modifySpan (f : Option Span → Span) : Procedure Unit := do
  let owner ← owner
  match (← get).stack.peek? with
  | some top => modify fun b => { b with nodes := b.nodes.modify top fun node => { node with span := some (f node.span) } }
  | none => modify fun b => { b with productions := b.productions.modify owner fun p => { p with span := some (f p.span) } }

/-- Closes the innermost mark of the stack, as `close?` does, if there is a mark to spare. -/
def closeMark (operation : String) (close? : Segments Nat → Option (Segments Nat)) : Procedure Unit := do
  let b ← get
  if b.arenaMarks.length ≤ b.reservedMarks then throw (.unbalancedMark operation)
  match close? b.stack with
  | none => throw (.unbalancedMark operation)
  | some stack => set { b with stack }

def release : Procedure Unit := do
  closeMark "release" Segments.release?
  modify fun b => { b with arenaMarks := b.arenaMarks.tail }

def reset : Procedure Unit := do
  closeMark "reset" Segments.reset?
  modify fun b => { b with
    nodes := b.nodes.extract 0 (b.arenaMarks.headD b.nodes.size)
    arenaMarks := b.arenaMarks.tail }

/-- The builder is emptied once no production is open, and the grammar assembled from what was in it. -/
def build : Procedure Grammar := do
  let b ← get
  match b.current with
  | some id => throw (.unfinishedProduction (b.nameOf id))
  | none =>
    set Builder.empty
    match b.build with
    | .ok g => return g
    | .error failure => throw failure

def ofStep : Step → Procedure Unit
  | .startProduction name => startProduction name
  | .endProduction => endProduction
  | .terminal t => pushExpr (.terminal t)
  | .tokens images caseSensitive => pushTokens images caseSensitive
  | .reference name memo => pushReference name memo
  | .sequence => combine .sequence
  | .choice => combine .choice
  | .repetition min max => repeatTop min max
  | .lookahead sign => wrapTop "except" (.lookahead · sign)
  | .action name => action name
  | .mark => modify Builder.mark
  | .release => release
  | .reset => reset
  | .setStart start => modifySpan fun span => ⟨start, (span.map Span.stop).getD start⟩
  | .setStop stop => modifySpan fun span => ⟨(span.map Span.start).getD stop, stop⟩
  | .setProductionSpan span => setProductionSpan span
  | .setSource text => modify fun b => b.setSource text
  | .clear => modify Builder.clear

/-- Everything that can be asked of a builder. -/
inductive Call where
  | step (step : Step)
  | withActions (names : List String)
  | build
deriving DecidableEq, Repr

/-- Does what is asked; the grammar that is built goes elsewhere. -/
def perform : Call → Procedure Unit
  | .step step => ofStep step
  | .withActions names => modify fun b => b.withActions names
  | .build => do let _ ← build

end Procedure

end Builder

end Packrat
