import Packrat.Grammar.Problem

/-! # Grammars

A grammar is a list of productions and an arena of expressions. Every expression knows the
production that owns it and the expression it is a part of. The first production is where
recognition starts.
-/

namespace Packrat

/-- An expression in its place. -/
structure Node where
  expr : Expr
  /-- The production the expression belongs to. -/
  owner : Nat
  /-- The expression it is a part of, `none` at the root of a production. -/
  parent : Option Nat := none
  span : Option Span := none
deriving DecidableEq, Repr

structure Production where
  name : String
  index : Nat
  /-- The expression on the right-hand side. A production that is not defined has an empty
  terminal here. -/
  root : Nat := 0
  defined : Bool := false
  /-- There is another production of this name. -/
  duplicated : Bool := false
  span : Option Span := none
  /-- The references to this production. -/
  references : List Nat := []
  /-- The productions with a reference to this one, in ascending order. -/
  referencedBy : List Nat := []
deriving DecidableEq, Repr

/-- No other production refers to this one. -/
def Production.isStandalone (p : Production) : Bool := p.referencedBy.all (· == p.index)

structure Grammar where
  productions : Array Production
  nodes : Array Node
  problems : Problems
  /-- The text the grammar was read from. -/
  source : Option String
deriving DecidableEq, Repr

namespace Grammar

def empty : Grammar := ⟨#[], #[], [], none⟩

instance : Inhabited Grammar := ⟨empty⟩

/-- The references to the production `index` with their owners, in arena order. -/
def referencesTo (nodes : Array Node) (index : Nat) : List (Nat × Nat) :=
  nodes.toList.zipIdx.filterMap fun (node, i) =>
    match node.expr with
    | .reference target _ => if target = index then some (i, node.owner) else none
    | _ => none

/-- Sets the back-links of a production from the references in the arena. -/
def link (nodes : Array Node) (p : Production) (index : Nat) : Production :=
  let found := referencesTo nodes index
  { p with
    references := found.map Prod.fst
    referencedBy := (found.map Prod.snd).eraseDups.mergeSort }

/-- A grammar without problems over linked productions. -/
def assemble (productions : Array Production) (nodes : Array Node) (source : Option String) :
    Grammar where
  productions := productions.mapIdx fun i p => link nodes p i
  nodes := nodes
  problems := []
  source := source

def isEmpty (g : Grammar) : Bool := g.productions.isEmpty

/-- The production recognition starts with. -/
def start? (g : Grammar) : Option Production := g.productions[0]?

/-- The production of a name, one without a duplicate if there is one. -/
def find? (g : Grammar) (name : String) : Option Production :=
  (g.productions.find? fun p => p.name == name && !p.duplicated) <|>
    g.productions.find? (·.name == name)

def expr? (g : Grammar) (i : Nat) : Option Expr := g.nodes[i]?.map Node.expr

def root? (g : Grammar) (index : Nat) : Option Nat := g.productions[index]?.map Production.root

/-- The name of a production, empty if there is no production `index`. -/
def name (g : Grammar) (index : Nat) : String :=
  (g.productions[index]?.map Production.name).getD ""

/-- The name of the production that owns an expression. -/
def ownerName (g : Grammar) (i : Nat) : String :=
  (g.nodes[i]?.map fun node => g.name node.owner).getD ""

def ruleSpan (g : Grammar) : Rule → Option Span
  | .production index => g.productions[index]? >>= Production.span
  | .expression i => g.nodes[i]? >>= Node.span

def problemsOf (g : Grammar) (rule : Rule) : Problems := g.problems.filter (·.rule == some rule)

def hasErrors (g : Grammar) : Bool := g.problems.hasErrors

/-- Adds a problem bound to `rule`, at the place of the rule. -/
def report (g : Grammar) (kind : ProblemKind) (rule : Rule) (message : String) : Grammar :=
  { g with problems := g.problems ++ [⟨kind, some rule, g.ruleSpan rule, message⟩] }

def modifyNode (g : Grammar) (i : Nat) (f : Node → Node) : Grammar :=
  { g with nodes := g.nodes.modify i f }

def setSpan (g : Grammar) (i : Nat) (span : Option Span) : Grammar :=
  g.modifyNode i fun node => { node with span }

/-- Makes a reference remember its matches, or not. Other expressions are unchanged. -/
def setMemo (g : Grammar) (i : Nat) (memo : Bool) : Grammar :=
  g.modifyNode i fun node =>
    match node.expr with
    | .reference target _ => { node with expr := .reference target memo }
    | _ => node

/-- Puts a new node around the expression `i`, which takes its place in its parent or as the root
of its production. Answers the index of the new node. -/
def splice (g : Grammar) (i : Nat) (wrap : Nat → Expr) : Nat × Grammar :=
  match g.nodes[i]? with
  | none => (g.nodes.size, g)
  | some node =>
    let wrapper := g.nodes.size
    let nodes := g.nodes.push { node with expr := wrap i }
    let replace (child : Nat) : Nat := if child = i then wrapper else child
    let (productions, nodes) :=
      match node.parent with
      | some parent =>
        (g.productions,
          nodes.modify parent fun p => { p with expr := p.expr.mapChildren replace })
      | none =>
        (g.productions.modify node.owner fun p => { p with root := replace p.root }, nodes)
    let nodes := nodes.modify i fun n => { n with parent := some wrapper }
    (wrapper, { g with productions, nodes })

/-- Makes every plain reference remember its matches, and counts them. -/
def injectMemo (g : Grammar) : Nat × Grammar :=
  let isPlain (node : Node) : Bool :=
    match node.expr with
    | .reference _ memo => !memo
    | _ => false
  let memoize (node : Node) : Node :=
    match node.expr with
    | .reference target _ => { node with expr := .reference target true }
    | _ => node
  (g.nodes.countP isPlain, { g with nodes := g.nodes.map memoize })

end Grammar

/-- `A -> B -> A` for the cycle through `A` and `B`. -/
def cycleText (path : List String) : String :=
  String.join (path.map (· ++ " -> ")) ++ path.headD ""

end Packrat
