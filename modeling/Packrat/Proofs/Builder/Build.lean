import Packrat.Proofs.Builder.Balanced
import Packrat.Proofs.Grammar.Unspliced

/-! # Built grammars

Productions without a definition get an empty right-hand side, and then all productions are numbered in
their final order, which lists each of them once. So the links of an intact builder become those of a
well-formed grammar, and the undo scopes put in at the end shelter it.
-/

namespace Packrat

namespace Builder

variable {b : Builder} {id : Nat}

/-- The productions on the list may still lack a right-hand side if they have no definition. -/
structure Filled (b : Builder) (pending : List Nat) : Prop where
  linked : Linked b.productions.size b.nodes
  root : ∀ {id p}, b.productions[id]? = some p → p.defined = true ∨ id ∉ pending → Free b.nodes id p.root

theorem Intact.filled (intact : b.Intact) (idle : b.current = none) : b.Filled (List.range b.productions.size) where
  linked := intact.linked
  root := by
    rintro id p found (defined | outside)
    · exact intact.finished ⟨by rw [idle]; nofun, p, found, defined, rfl⟩
    · have inside := (Array.getElem?_eq_some_iff.mp found).1
      exact absurd (List.mem_range.mpr inside) outside

/-- One round of `fillUndefined`. -/
def fill (b : Builder) (id : Nat) : Builder :=
  if b.isDefined id then b
  else
    let (root, b) := b.alloc id (.terminal .nil)
    { b with productions := b.productions.modify id fun p => { p with root } }

@[simp] theorem size_fill (b : Builder) (id : Nat) : (b.fill id).productions.size = b.productions.size := by
  unfold fill
  split
  · rfl
  · exact Array.size_modify

/-- What every round keeps, for the productions that are still to come. -/
theorem fillUndefined_induction {motive : Builder → List Nat → Prop}
    (keeps : ∀ {b id rest}, id < b.productions.size → id ∉ rest → motive b (id :: rest) → motive (b.fill id) rest)
    (start : motive b (List.range b.productions.size)) : motive b.fillUndefined [] := by
  have rounds {ids : List Nat} {b : Builder} (inside : ∀ id ∈ ids, id < b.productions.size) (distinct : ids.Nodup)
      (before : motive b ids) : motive (ids.foldl fill b) [] := by
    induction ids generalizing b with
    | nil => exact before
    | cons id rest ih =>
      obtain ⟨once, distinct⟩ := List.nodup_cons.mp distinct
      refine ih (fun k member => ?_) distinct (keeps (inside id (List.mem_cons_self ..)) once before)
      rw [size_fill]
      exact inside k (List.mem_cons_of_mem _ member)
  exact rounds (fun id member => List.mem_range.mp member) List.nodup_range start

theorem size_fillUndefined (b : Builder) : b.fillUndefined.productions.size = b.productions.size :=
  fillUndefined_induction (motive := fun b' _ => b'.productions.size = b.productions.size)
    (fun _ _ same => (size_fill ..).trans same) rfl

theorem Filled.fill {rest : List Nat} (filled : b.Filled (id :: rest)) (inside : id < b.productions.size) :
    (b.fill id).Filled rest := by
  unfold Builder.fill
  split
  · next defined =>
    refine ⟨filled.linked, ?_⟩
    rintro k p found (flag | outside)
    · exact filled.root found (.inl flag)
    · by_cases itself : k = id
      · subst itself
        rw [isDefined, found] at defined
        exact filled.root found (.inl defined)
      · exact filled.root found (.inr fun member => outside (List.mem_of_ne_of_mem itself member))
  · rw [alloc_eq_allocParent rfl]
    have parts : ∀ child ∈ (Expr.terminal .nil).children, Free b.nodes id child := by
      intro child member
      cases member
    refine ⟨?_, ?_⟩
    · rw [Array.size_modify]
      refine filled.linked.allocParent parts inside List.nodup_nil ?_
      intro target memo same
      cases same
    · intro k p found known
      rw [Array.getElem?_modify] at found
      split at found
      · next itself =>
        subst itself
        obtain ⟨before, -, rfl⟩ := Option.map_eq_some_iff.mp found
        exact free_allocParent parts
      · next other =>
        refine (filled.root found ?_).allocParent parts List.not_mem_nil
        exact known.imp_right fun outside member => outside (List.mem_of_ne_of_mem (Ne.symm other) member)

theorem Intact.filled_fillUndefined (intact : b.Intact) (idle : b.current = none) : b.fillUndefined.Filled [] :=
  fillUndefined_induction (fun inside _ filled => filled.fill inside) (intact.filled idle)

/-- A list of definitions that agrees with the flags leaves no production out of the final order. -/
theorem mem_finalOrder (defined : ∀ {id}, id ∈ b.definitions.toList ↔ b.isDefined id = true) :
    id ∈ b.finalOrder ↔ id < b.productions.size := by
  rw [finalOrder, List.mem_append, List.mem_filter, List.mem_range, defined, Bool.not_eq_true']
  constructor
  · rintro (defined | ⟨inside, -⟩)
    · obtain ⟨root, defines⟩ := isDefined_iff.mp defined
      exact defines.lt_size
    · exact inside
  · intro inside
    cases flag : b.isDefined id with
    | true => exact .inl rfl
    | false => exact .inr ⟨inside, rfl⟩

theorem nodup_finalOrder (defined : ∀ {id}, id ∈ b.definitions.toList ↔ b.isDefined id = true)
    (once : b.definitions.toList.Nodup) : b.finalOrder.Nodup := by
  rw [finalOrder, List.nodup_append]
  refine ⟨once, List.nodup_range.filter _, ?_⟩
  rintro id listed _ member rfl
  have undefined := (List.mem_filter.mp member).2
  rw [defined.mp listed] at undefined
  cases undefined

theorem Intact.mem_finalOrder (intact : b.Intact) : id ∈ b.finalOrder ↔ id < b.productions.size :=
  Builder.mem_finalOrder intact.defined

theorem Intact.nodup_finalOrder (intact : b.Intact) : b.finalOrder.Nodup :=
  Builder.nodup_finalOrder intact.defined intact.definitions

/-- Entries that are all present stay in their places. -/
theorem filterMap_getElem? {α β : Type} {f : α → Option β} {xs : List α} (all : ∀ x ∈ xs, ∃ y, f x = some y)
    (k : Nat) : (xs.filterMap f)[k]? = xs[k]? >>= f := by
  induction xs generalizing k with
  | nil => rfl
  | cons x rest ih =>
    obtain ⟨y, here⟩ := all x (List.mem_cons_self ..)
    rw [List.filterMap_cons_some here]
    cases k with
    | zero => exact here.symm
    | succ k => exact ih (fun z member => all z (List.mem_cons_of_mem _ member)) k

@[simp] theorem renumber_children (index : Nat → Nat) (node : Node) :
    (renumber index node).expr.children = node.expr.children := by
  cases node with
  | mk expr => cases expr <;> rfl

/-- The productions in a new order. -/
def arranged (order : List Nat) (productions : Array Production) : Array Production :=
  (order.filterMap fun id => productions[id]?).toArray.mapIdx fun index p => { p with index }

theorem arranged_getElem? {order : List Nat} {productions : Array Production}
    (inside : ∀ id ∈ order, id < productions.size) (k : Nat) :
    (arranged order productions)[k]? =
      order[k]?.bind fun id => productions[id]?.map fun p => { p with index := k } := by
  have present : ∀ id ∈ order, ∃ p, productions[id]? = some p :=
    fun id member => ⟨_, Array.getElem?_eq_getElem (inside id member)⟩
  rw [arranged, Array.getElem?_mapIdx, List.getElem?_toArray, filterMap_getElem? present]
  cases order[k]? <;> rfl

/-- Linked productions, each with a free node as its right-hand side, make a well-formed grammar in any order. -/
theorem wellFormed_assemble {order : List Nat} {productions : Array Production} {nodes : Array Node}
    (source : Option String) (members : ∀ {id}, id ∈ order ↔ id < productions.size) (nodup : order.Nodup)
    (linked : Linked productions.size nodes)
    (root : ∀ {id p}, productions[id]? = some p → Free nodes id p.root) :
    (Grammar.assemble (arranged order productions) (nodes.map (renumber order.idxOf)) source).WellFormed := by
  have arrangement := arranged_getElem? fun id member => members.mp member
  have production {k : Nat} {q : Production}
      (found : ((arranged order productions).mapIdx fun i p =>
        Grammar.link (nodes.map (renumber order.idxOf)) p i)[k]? = some q) :
      ∃ id p, order[k]? = some id ∧ productions[id]? = some p ∧ q.index = k ∧ q.root = p.root := by
    simp only [Array.getElem?_mapIdx, arrangement, Option.map_eq_some_iff, Option.bind_eq_some_iff] at found
    obtain ⟨-, ⟨id, listed, p, found, rfl⟩, rfl⟩ := found
    exact ⟨id, p, listed, found, rfl, rfl⟩
  have node {j : Nat} {n : Node} (found : (nodes.map (renumber order.idxOf))[j]? = some n) :
      ∃ before, nodes[j]? = some before ∧ n = renumber order.idxOf before := by
    rw [Array.getElem?_map, Option.map_eq_some_iff] at found
    obtain ⟨before, found, rfl⟩ := found
    exact ⟨before, found, rfl⟩
  have stored {j : Nat} {n : Node} (found : nodes[j]? = some n) :
      (nodes.map (renumber order.idxOf))[j]? = some (renumber order.idxOf n) := by
    rw [Array.getElem?_map, found, Option.map_some]
  have place {id : Nat} (inside : id < productions.size) : order.idxOf id < (arranged order productions).size := by
    have there := arrangement (order.idxOf id)
    rw [List.getElem?_idxOf (members.mpr inside), Option.bind_some, Array.getElem?_eq_getElem inside] at there
    exact (Array.getElem?_eq_some_iff.mp there).1
  constructor
  case index =>
    intro k q found
    obtain ⟨-, -, -, -, index, -⟩ := production found
    exact index
  case root =>
    intro k q found
    obtain ⟨id, p, listed, found, -, same⟩ := production found
    obtain ⟨n, here, top, owned⟩ := root found
    refine ⟨renumber order.idxOf n, same ▸ stored here, top, ?_⟩
    obtain ⟨inside, rfl⟩ := List.getElem?_eq_some_iff.mp listed
    exact (congrArg order.idxOf owned).trans (nodup.idxOf_getElem k inside)
  case part =>
    intro j child n found member
    obtain ⟨before, here, rfl⟩ := node found
    rw [renumber_children] at member
    obtain ⟨-, part, inside, parent, owned⟩ := linked.part here member
    exact ⟨renumber order.idxOf part, stored inside, parent, congrArg order.idxOf owned⟩
  case owner =>
    intro j n found
    obtain ⟨before, here, rfl⟩ := node found
    have owner := place (linked.owner here)
    simpa [Grammar.assemble, renumber] using owner
  case target =>
    intro j target memo shown
    obtain ⟨n, found, same⟩ := Grammar.node_of_expr? shown
    obtain ⟨⟨expr, owner, parent, span⟩, here, rfl⟩ := node found
    cases expr with
    | reference =>
      cases same
      have target := place (linked.target here rfl)
      simpa [Grammar.assemble] using target
    | _ => cases same
  case distinct =>
    intro j n _ found
    obtain ⟨before, here, rfl⟩ := node found
    rw [renumber_children]
    exact linked.distinct here

/-- The grammar of a builder before its undo scopes are put in. -/
def assembled (b : Builder) : Grammar :=
  .assemble (arranged b.finalOrder b.fillUndefined.productions)
    (b.fillUndefined.nodes.map (renumber b.finalOrder.idxOf)) b.fillUndefined.source

theorem Intact.wellFormed_assembled (intact : b.Intact) (idle : b.current = none) : b.assembled.WellFormed := by
  obtain ⟨linked, root⟩ := intact.filled_fillUndefined idle
  refine wellFormed_assemble _ ?_ intact.nodup_finalOrder linked ?_
  · rw [size_fillUndefined]
    exact intact.mem_finalOrder
  · exact fun found => root found (.inr List.not_mem_nil)

/-- The productions of the grammar stand in the final order. -/
theorem assembled_productions (inside : ∀ {id}, id ∈ b.finalOrder → id < b.productions.size) (k : Nat) :
    b.assembled.productions[k]? = b.finalOrder[k]?.bind fun id => b.fillUndefined.productions[id]?.map fun p =>
      Grammar.link b.assembled.nodes { p with index := k } k := by
  have inside' : ∀ id ∈ b.finalOrder, id < b.fillUndefined.productions.size := by
    intro id member
    rw [size_fillUndefined]
    exact inside member
  rw [assembled, Grammar.assemble, Array.getElem?_mapIdx, arranged_getElem? inside']
  cases b.finalOrder[k]? with
  | none => rfl
  | some id =>
    rw [Option.bind_some, Option.bind_some, Option.map_map]
    rfl

theorem Intact.assembled_productions (intact : b.Intact) (k : Nat) : b.assembled.productions[k]? =
    b.finalOrder[k]?.bind fun id => b.fillUndefined.productions[id]?.map fun p =>
      Grammar.link b.assembled.nodes { p with index := k } k :=
  Builder.assembled_productions intact.mem_finalOrder.mp k

theorem assembled_nodes (b : Builder) (j : Nat) :
    b.assembled.nodes[j]? = b.fillUndefined.nodes[j]?.map (renumber b.finalOrder.idxOf) := Array.getElem?_map

/-- Between productions a grammar can be built. -/
theorem Intact.build_eq (intact : b.Intact) (idle : b.current = none) : b.build = .ok b.assembled.injectUndo.2 := by
  have wellFormed := intact.wellFormed_assembled idle
  have present : (arranged b.finalOrder b.fillUndefined.productions).find?
      (fun p => decide ((b.fillUndefined.nodes.map (renumber b.finalOrder.idxOf)).size ≤ p.root)) = none := by
    rw [Array.find?_eq_none]
    intro p member large
    obtain ⟨k, found⟩ := Array.mem_iff_getElem?.mp member
    have linked : b.assembled.productions[k]? = some (Grammar.link b.assembled.nodes p k) := by
      rw [assembled, Grammar.assemble, Array.getElem?_mapIdx, found]
      rfl
    obtain ⟨node, here, -⟩ := wellFormed.root linked
    have := (Array.getElem?_eq_some_iff.mp here).1
    exact absurd (of_decide_eq_true large) (Nat.not_le_of_lt this)
  rw [build, idle]
  dsimp only
  rw [arranged] at present
  rw [present]
  rfl

/-- What is built is the grammar as it was assembled, with its undo scopes. -/
theorem eq_of_built {g : Grammar} (built : b.build = .ok g) : b.current = none ∧ g = b.assembled.injectUndo.2 := by
  unfold build at built
  cases idle : b.current with
  | some id =>
    rw [idle] at built
    cases built
  | none =>
    rw [idle] at built
    dsimp only at built
    split at built
    · cases built
    · exact ⟨rfl, (Except.ok.inj built).symm⟩

/-- Whatever use of a builder a grammar is from, it is sheltered if it is well formed. -/
theorem sheltered_of_built {g : Grammar} (built : b.build = .ok g) (wellFormed : g.WellFormed) : g.Sheltered := by
  obtain ⟨-, rfl⟩ := eq_of_built built
  exact (Grammar.injectUndo_wellFormed_iff.mp wellFormed).injectUndo.2

/-- What an intact builder builds is well formed and sheltered. -/
theorem Intact.built {g : Grammar} (intact : b.Intact) (built : b.build = .ok g) : g.WellFormed ∧ g.Sheltered := by
  obtain ⟨idle, rfl⟩ := eq_of_built built
  exact (intact.wellFormed_assembled idle).injectUndo

theorem Balanced.built {g : Grammar} (balanced : Balanced b) (built : b.build = .ok g) :
    g.WellFormed ∧ g.Sheltered := balanced.sound.built built

end Builder

theorem eq_ok_of_toOption {ε α : Type} {x : Except ε α} {a : α} (found : x.toOption = some a) : x = .ok a := by
  cases x with
  | error _ => cases found
  | ok _ => exact congrArg Except.ok (Option.some.inj found)

theorem eq_ok_getD {ε α : Type} {x : Except ε α} {default : α} (accepted : x.toOption.isSome = true) :
    x = .ok (x.toOption.getD default) := by
  cases x with
  | error _ => cases accepted
  | ok _ => rfl

end Packrat
