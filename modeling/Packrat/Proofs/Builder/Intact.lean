import Packrat.Proofs.Builder.Arena
import Packrat.Proofs.Segments
import Mathlib.Data.List.Nodup

/-! # What a builder maintains wherever marks are set

The stack holds free nodes, each once, and every finished production has a free node as its right-hand side, which
is not on the stack. This does not need marks to be set inside productions. It needs a new node to take parts of its
own production only, and a discarded segment to hold no right-hand side.
-/

namespace Packrat

namespace Builder

variable {b b' : Builder} {id owner : Nat} {expr : Expr}

/-- The production is flagged as defined, with `root` as its right-hand side. -/
def Defines (productions : Array Production) (id root : Nat) : Prop :=
  ∃ p, productions[id]? = some p ∧ p.defined = true ∧ p.root = root

/-- The production is defined, and not under construction. -/
def Finished (b : Builder) (id root : Nat) : Prop := b.current ≠ some id ∧ Defines b.productions id root

/-- What a builder holds fits together, whichever productions the expressions on its stack belong to. -/
structure Intact (b : Builder) : Prop where
  linked : Linked b.productions.size b.nodes
  current : ∀ {id}, b.current = some id → id < b.productions.size
  /-- The stack holds free nodes. -/
  pending : ∀ {item}, item ∈ b.stack.all → ∃ id, Free b.nodes id item
  nodup : b.stack.all.Nodup
  /-- The list of definitions and the flags agree. -/
  defined : ∀ {id}, id ∈ b.definitions.toList ↔ b.isDefined id = true
  definitions : b.definitions.toList.Nodup
  finished : ∀ {id root}, b.Finished id root → Free b.nodes id root
  /-- Right-hand sides are no longer on the stack. -/
  apart : ∀ {id root}, b.Finished id root → root ∉ b.stack.all
  ordered : b.stack.Ordered
  aligned : b.arenaMarks.length = b.stack.marks.length
  /-- What lies on the stack below a mark was in the arena when the mark was set. -/
  below : ∀ {floor size}, (floor, size) ∈ b.stack.marks.zip b.arenaMarks → ∀ item ∈ b.stack.all.take floor, item < size

theorem Intact.empty : Intact {} where
  linked := .empty
  current := nofun
  pending := nofun
  nodup := List.nodup_nil
  defined := by simp [isDefined]
  definitions := List.nodup_nil
  finished := by
    rintro id root ⟨-, p, present, -⟩
    simp at present
  apart := fun _ => List.not_mem_nil
  ordered := List.pairwise_singleton ..
  aligned := rfl
  below := nofun

/-- The builder with a new node on the stack. -/
def grown (b : Builder) (stack : Segments Nat) (owner : Nat) (expr : Expr) : Builder :=
  ({ b with stack }.allocParent owner expr).2.pushId b.nodes.size

@[simp] theorem all_grown (stack : Segments Nat) :
    (b.grown stack owner expr).stack.all = stack.all ++ [b.nodes.size] := Segments.all_push stack b.nodes.size

/-- A new node in the place of its parts on the stack. -/
theorem Intact.grow {stack : Segments Nat} (intact : b.Intact) (current : b.current = some owner)
    (takes : b.stack.Takes expr.children stack) (parts : ∀ child ∈ expr.children, Free b.nodes owner child)
    (target : ∀ {target memo}, expr = .reference target memo → target < b.productions.size) :
    (b.grown stack owner expr).Intact := by
  have split := intact.nodup
  rw [takes.all, List.nodup_append] at split
  obtain ⟨below, distinct, apart⟩ := split
  have stays {item : Nat} (member : item ∈ stack.all) : item ∈ b.stack.all := takes.all ▸ List.mem_append_left _ member
  have taken {item : Nat} (member : item ∈ expr.children) : item ∈ b.stack.all :=
    takes.all ▸ List.mem_append_right _ member
  constructor
  case linked => exact intact.linked.allocParent parts (intact.current current) distinct target
  case current => exact intact.current
  case pending =>
    intro item member
    rw [all_grown, List.mem_append, List.mem_singleton] at member
    rcases member with member | rfl
    · obtain ⟨id, free⟩ := intact.pending (stays member)
      exact ⟨id, free.allocParent parts fun listed => apart item member item listed rfl⟩
    · exact ⟨owner, free_allocParent parts⟩
  case nodup =>
    rw [all_grown, List.nodup_append]
    refine ⟨below, List.nodup_cons.mpr ⟨List.not_mem_nil, List.nodup_nil⟩, ?_⟩
    intro item member fresh last
    obtain ⟨id, free⟩ := intact.pending (stays member)
    rw [List.mem_singleton.mp last]
    exact Nat.ne_of_lt free.lt_size
  case defined => exact intact.defined
  case definitions => exact intact.definitions
  case finished =>
    intro id root finished
    exact (intact.finished finished).allocParent parts fun member => intact.apart finished (taken member)
  case apart =>
    intro id root finished member
    rw [all_grown, List.mem_append, List.mem_singleton] at member
    rcases member with member | rfl
    · exact intact.apart finished (stays member)
    · exact Nat.lt_irrefl _ (intact.finished finished).lt_size
  case ordered => exact (takes.ordered intact.ordered).push _
  case aligned => exact intact.aligned.trans (congrArg List.length takes.marks.symm)
  case below =>
    intro floor size member item listed
    change (floor, size) ∈ stack.marks.zip b.arenaMarks at member
    rw [takes.marks] at member
    have low := intact.ordered.mark_le (List.of_mem_zip member).1
    have := takes.floor
    rw [all_grown, List.take_append_of_le_length (by omega), takes.below low] at listed
    exact intact.below member item listed

/-- A mark beside that of the arena: the mark of the stack comes first, then the ones that were there. -/
theorem mem_zip_mark {floor size : Nat} : (floor, size) ∈ b.mark.stack.marks.zip b.mark.arenaMarks ↔
    floor = b.stack.items.size ∧ size = b.nodes.size ∨ (floor, size) ∈ b.stack.marks.zip b.arenaMarks := by
  change (floor, size) ∈ (_ :: _).zip (_ :: _) ↔ _
  rw [List.zip_cons_cons, List.mem_cons, Prod.mk.injEq]

theorem Intact.mark (intact : b.Intact) : b.mark.Intact := by
  refine { intact with ordered := ?_, aligned := congrArg (· + 1) intact.aligned, below := ?_ }
  · refine List.pairwise_cons.mpr ⟨fun m member => ?_, intact.ordered⟩
    rcases List.mem_cons.mp member with rfl | member
    · exact Nat.le_refl _
    · exact (List.pairwise_cons.mp intact.ordered).1 m member
  · intro floor size member item listed
    rcases mem_zip_mark.mp member with ⟨-, rfl⟩ | member
    · obtain ⟨id, free⟩ := intact.pending (List.mem_of_mem_take listed)
      exact free.lt_size
    · exact intact.below member item listed

/-- Fewer expressions on the stack, between marks that fit them. -/
theorem Intact.restack {stack : Segments Nat} {sizes : List Nat} (intact : b.Intact)
    (fewer : stack.all.Sublist b.stack.all) (ordered : stack.Ordered) (aligned : sizes.length = stack.marks.length)
    (below : ∀ {floor size}, (floor, size) ∈ stack.marks.zip sizes → ∀ item ∈ stack.all.take floor, item < size) :
    { b with stack, arenaMarks := sizes }.Intact :=
  { intact with
    pending := fun member => intact.pending (fewer.subset member)
    nodup := intact.nodup.sublist fewer
    apart := fun finished member => intact.apart finished (fewer.subset member)
    ordered, aligned, below }

private theorem Intact.aligned_cons {floor : Nat} {marks : List Nat} (intact : b.Intact)
    (above : b.stack.marks = floor :: marks) : ∃ size sizes, b.arenaMarks = size :: sizes := by
  have aligned := intact.aligned
  rw [above] at aligned
  exact List.exists_cons_of_length_eq_add_one aligned

theorem Intact.release_eq (intact : b.Intact) (released : b.release = .ok b') :
    ∃ floor marks size sizes, b.stack.marks = floor :: marks ∧ b.arenaMarks = size :: sizes ∧
      b' = { b with stack := { b.stack with marks }, arenaMarks := sizes } := by
  unfold Builder.release at released
  split at released
  · cases released
  · cases above : b.stack.marks with
    | nil =>
      rw [Segments.release?, above] at released
      cases released
    | cons floor marks =>
      obtain ⟨size, sizes, sizes'⟩ := intact.aligned_cons above
      rw [Segments.release?, above, sizes'] at released
      cases released
      exact ⟨floor, marks, size, sizes, rfl, sizes', rfl⟩

theorem Intact.reset_eq (intact : b.Intact) (discarded : b.reset = .ok b') :
    ∃ floor marks size sizes, b.stack.marks = floor :: marks ∧ b.arenaMarks = size :: sizes ∧
      b' = { b with
        stack := ⟨b.stack.items.extract 0 floor, marks⟩, nodes := b.nodes.extract 0 size, arenaMarks := sizes } := by
  unfold Builder.reset at discarded
  split at discarded
  · cases discarded
  · cases above : b.stack.marks with
    | nil =>
      rw [Segments.reset?, above] at discarded
      cases discarded
    | cons floor marks =>
      obtain ⟨size, sizes, sizes'⟩ := intact.aligned_cons above
      rw [Segments.reset?, above, sizes'] at discarded
      cases discarded
      exact ⟨floor, marks, size, sizes, rfl, sizes', rfl⟩

/-- Without its innermost mark. -/
theorem Intact.unmark {floor size : Nat} {marks sizes : List Nat} (intact : b.Intact)
    (above : b.stack.marks = floor :: marks) (sizes' : b.arenaMarks = size :: sizes) :
    { b with stack := { b.stack with marks }, arenaMarks := sizes }.Intact := by
  have ordered := intact.ordered
  have aligned := intact.aligned
  rw [Segments.Ordered, above] at ordered
  rw [above, sizes'] at aligned
  obtain ⟨within, sorted⟩ := List.pairwise_cons.mp ordered
  refine intact.restack (.refl _) ?_ (Nat.succ.inj aligned) ?_
  · exact List.pairwise_cons.mpr ⟨fun m member => within m (List.mem_cons_of_mem _ member),
      (List.pairwise_cons.mp sorted).2⟩
  · intro floor' size' member
    refine intact.below ?_
    rw [above, sizes']
    exact List.mem_cons_of_mem _ member

/-- Without some expressions of the top segment. -/
theorem Intact.take {items : List Nat} {stack : Segments Nat} (intact : b.Intact) (takes : b.stack.Takes items stack) :
    { b with stack }.Intact := by
  refine intact.restack ?_ (takes.ordered intact.ordered) (takes.marks ▸ intact.aligned) ?_
  · rw [takes.all]
    exact List.sublist_append_left ..
  · intro floor size member item listed
    rw [takes.marks] at member
    rw [takes.below (intact.ordered.mark_le (List.of_mem_zip member).1)] at listed
    exact intact.below member item listed

/-- Without its innermost mark, if there is one. -/
theorem Intact.close (intact : b.Intact) :
    { b with stack := b.stack.release?.getD b.stack, arenaMarks := b.arenaMarks.tail }.Intact := by
  cases above : b.stack.marks with
  | nil =>
    have none : b.arenaMarks = [] := by
      rw [← List.length_eq_zero_iff, intact.aligned, above]
      rfl
    rw [Segments.release?, above, none, Option.getD_none, List.tail_nil, ← none]
    exact intact
  | cons floor marks =>
    obtain ⟨size, sizes, sizes'⟩ := intact.aligned_cons above
    rw [Segments.release?, above, sizes', Option.getD_some, List.tail_cons]
    exact intact.unmark above sizes'

/-- Without the expressions made since its innermost mark, if no right-hand side is among them. -/
theorem Intact.discard {floor size : Nat} {marks sizes : List Nat} (intact : b.Intact)
    (above : b.stack.marks = floor :: marks) (sizes' : b.arenaMarks = size :: sizes)
    (spared : ∀ {id root}, b.Finished id root → root < size) :
    { b with
      stack := ⟨b.stack.items.extract 0 floor, marks⟩, nodes := b.nodes.extract 0 size, arenaMarks := sizes }.Intact := by
  have ordered := intact.ordered
  have aligned := intact.aligned
  rw [Segments.Ordered, above] at ordered
  rw [above, sizes'] at aligned
  obtain ⟨within, sorted⟩ := List.pairwise_cons.mp ordered
  have all : (⟨b.stack.items.extract 0 floor, marks⟩ : Segments Nat).all = b.stack.all.take floor := by
    simp [Segments.all]
  have here : (floor, size) ∈ b.stack.marks.zip b.arenaMarks := by
    rw [above, sizes']
    exact List.mem_cons_self ..
  have fewer : { b with stack := ⟨b.stack.items.extract 0 floor, marks⟩, arenaMarks := sizes }.Intact := by
    refine intact.restack (all ▸ List.take_sublist ..) ?_ (Nat.succ.inj aligned) ?_
    · refine List.pairwise_cons.mpr ⟨fun m member => ?_, (List.pairwise_cons.mp sorted).2⟩
      have := within floor (List.mem_cons_self ..)
      have := (List.pairwise_cons.mp sorted).1 m member
      simp only [Array.size_extract]
      omega
    · intro floor' size' member item listed
      have low := (List.pairwise_cons.mp sorted).1 floor' (List.of_mem_zip member).1
      rw [all, List.take_take, Nat.min_eq_left low] at listed
      refine intact.below ?_ item listed
      rw [above, sizes']
      exact List.mem_cons_of_mem _ member
  refine { fewer with linked := intact.linked.extract, pending := ?_, finished := ?_ }
  · intro item member
    obtain ⟨id, free⟩ := fewer.pending member
    rw [all] at member
    exact ⟨id, free.extract (intact.below here item member)⟩
  · exact fun finished => (intact.finished finished).extract (spared finished)

theorem isDefined_iff : b.isDefined id = true ↔ ∃ root, Defines b.productions id root := by
  cases found : b.productions[id]? <;> simp [isDefined, Defines, found]

theorem Defines.lt_size {productions : Array Production} {root : Nat} (defines : Defines productions id root) :
    id < productions.size := by
  obtain ⟨p, found, -⟩ := defines
  exact (Array.getElem?_eq_some_iff.mp found).1

theorem defines_push {productions : Array Production} {p : Production} {root : Nat} :
    Defines (productions.push p) id root ↔
      Defines productions id root ∨ id = productions.size ∧ p.defined = true ∧ p.root = root := by
  unfold Defines
  rw [Array.getElem?_push]
  split
  · next last => simp [last]
  · next old => simp [old]

theorem defines_modify {productions : Array Production} {f : Production → Production} {k root : Nat} :
    Defines (productions.modify k f) id root ↔
      if k = id then ∃ p, productions[id]? = some p ∧ (f p).defined = true ∧ (f p).root = root
      else Defines productions id root := by
  unfold Defines
  rw [Array.getElem?_modify]
  split <;> simp

/-- Changes that leave the flags and the right-hand sides alone. -/
theorem defines_modify_of_same {productions : Array Production} {f : Production → Production} {k root : Nat}
    (defined : ∀ p, (f p).defined = p.defined) (roots : ∀ p, (f p).root = p.root) :
    Defines (productions.modify k f) id root ↔ Defines productions id root := by
  rw [defines_modify]
  simp only [defined, roots]
  split <;> rfl

/-- Changes of the productions that leave flags and right-hand sides alone. -/
theorem Intact.revise {productions : Array Production} (intact : b.Intact)
    (more : b.productions.size ≤ productions.size)
    (same : ∀ {id root}, Defines productions id root ↔ Defines b.productions id root) :
    { b with productions }.Intact := by
  have before {id root : Nat} (finished : { b with productions }.Finished id root) : b.Finished id root :=
    ⟨finished.1, same.mp finished.2⟩
  refine { intact with
    linked := intact.linked.mono more
    current := fun current => Nat.lt_of_lt_of_le (intact.current current) more
    defined := ?_
    finished := fun finished => intact.finished (before finished)
    apart := fun finished => intact.apart (before finished) }
  intro id
  rw [isDefined_iff]
  simp only [same]
  rw [← isDefined_iff]
  exact intact.defined

/-- The productions that are finished while one has just been started were so before. -/
theorem finished_of_begun {productions : Array Production} {k root : Nat} (idle : b.current = none)
    (others : ∀ {k root}, k ≠ id → (Defines productions k root ↔ Defines b.productions k root))
    (other : some id ≠ some k) (defines : Defines productions k root) : b.Finished k root := by
  refine ⟨?_, (others fun same => other (congrArg some same.symm)).mp defines⟩
  rw [idle]
  exact (Option.some_ne_none k).symm

/-- A production that was not defined before is now under construction. -/
theorem Intact.begin {productions : Array Production} (intact : b.Intact) (idle : b.current = none)
    (more : b.productions.size ≤ productions.size) (fresh : b.isDefined id = false)
    (defined : ∃ root, Defines productions id root)
    (others : ∀ {k root}, k ≠ id → (Defines productions k root ↔ Defines b.productions k root)) :
    { b with productions, definitions := b.definitions.push id, current := some id }.Intact := by
  refine { intact with
    linked := intact.linked.mono more, current := ?_, defined := ?_, definitions := ?_
    finished := fun finished => intact.finished (finished_of_begun idle others finished.1 finished.2)
    apart := fun finished => intact.apart (finished_of_begun idle others finished.1 finished.2) }
  · rintro k same
    cases same
    obtain ⟨root, defines⟩ := defined
    exact defines.lt_size
  · intro k
    rw [isDefined_iff, Array.toList_push, List.mem_append, List.mem_singleton]
    by_cases itself : k = id
    · subst itself
      exact ⟨fun _ => defined, fun _ => .inr rfl⟩
    · simp only [others itself, itself, or_false, ← isDefined_iff]
      exact intact.defined
  · rw [Array.toList_push, List.nodup_append]
    refine ⟨intact.definitions, List.nodup_cons.mpr ⟨List.not_mem_nil, List.nodup_nil⟩, ?_⟩
    intro k listed last mem same
    rw [same, List.mem_singleton.mp mem, intact.defined, fresh] at listed
    cases listed

/-- The production under construction gets a free node of its own as its right-hand side. -/
theorem Intact.settle {root : Nat} (intact : b.Intact) (current : b.current = some owner)
    (free : Free b.nodes owner root) (taken : root ∉ b.stack.all) :
    { b with productions := b.productions.modify owner fun p => { p with root }, current := none }.Intact := by
  have before {id root' : Nat}
      (finished : { b with
        productions := b.productions.modify owner fun p => { p with root }, current := none }.Finished id root') :
      id = owner ∧ root' = root ∨ b.Finished id root' := by
    obtain ⟨-, defines⟩ := finished
    rw [defines_modify] at defines
    split at defines
    · next itself =>
      obtain ⟨p, -, -, same⟩ := defines
      exact .inl ⟨itself.symm, same.symm⟩
    · next other =>
      refine .inr ⟨?_, defines⟩
      rw [current]
      exact fun same => other (Option.some.inj same)
  refine { intact with linked := ?_, current := ?_, defined := ?_, finished := ?_, apart := ?_ }
  · rw [Array.size_modify]
    exact intact.linked
  · intro id same
    cases same
  · intro id
    rw [intact.defined]
    simp only [isDefined, Array.getElem?_modify]
    split <;> simp [Function.comp_def]
  · intro id root' finished
    rcases before finished with ⟨rfl, rfl⟩ | finished
    · exact free
    · exact intact.finished finished
  · intro id root' finished
    rcases before finished with ⟨rfl, rfl⟩ | finished
    · exact taken
    · exact intact.apart finished

/-- Other places of the nodes. -/
theorem Intact.respan {top : Nat} {f : Node → Option Span} (intact : b.Intact) :
    { b with nodes := b.nodes.modify top fun node => { node with span := f node } }.Intact := by
  refine { intact with linked := intact.linked.respan, pending := ?_, finished := ?_ }
  · intro item member
    obtain ⟨id, free⟩ := intact.pending member
    exact ⟨id, free.respan⟩
  · exact fun finished => (intact.finished finished).respan

end Builder

end Packrat
