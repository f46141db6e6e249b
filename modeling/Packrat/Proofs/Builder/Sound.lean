import Packrat.Proofs.Builder.Intact

/-! # What a builder in balanced use maintains

Marks are set inside productions and closed before these end. Then the stack holds nodes of the production under
construction only, and discarding a segment discards no right-hand side of a finished production. Adding a node,
setting and closing marks, and starting and finishing a production keep it so: these are the changes that all
operations are made of (`Change`).
-/

namespace Packrat

/-- A sequence or choice has several parts, the bounds of a repetition allow a match, and undo scopes are left to the
end. -/
def Expr.Regular : Expr → Prop
  | .undo _ => False
  | .sequence children | .choice children => 2 ≤ children.length
  | .repetition _ min max => min ≤ max ∧ 0 < max
  | _ => True

namespace Builder

variable {b b' : Builder} {id owner : Nat} {expr : Expr}

/-- What a builder in balanced use holds fits together. -/
structure Sound (b : Builder) : Prop extends Intact b where
  /-- The stack holds free nodes of the production under construction. -/
  free : ∀ {item}, item ∈ b.stack.all → ∃ id, b.current = some id ∧ Free b.nodes id item
  /-- Finished productions were in the arena when the marks were set. -/
  keeps : ∀ {floor size}, (floor, size) ∈ b.stack.marks.zip b.arenaMarks →
    ∀ {id root}, b.Finished id root → root < size
  /-- The outermost mark is that of the production. -/
  bottom : ∀ {id}, b.current = some id → b.stack.marks.getLast? = some 0
  idle : b.current = none → b.stack = .empty

theorem Sound.empty : Sound {} :=
  { Intact.empty with free := nofun, keeps := nofun, bottom := nofun, idle := fun _ => rfl }

theorem Sound.free_of_mem {item : Nat} (sound : b.Sound) (current : b.current = some owner)
    (member : item ∈ b.stack.all) : Free b.nodes owner item := by
  obtain ⟨id, same, free⟩ := sound.free member
  cases current.symm.trans same
  exact free

/-- A new node in the place of its parts on the stack. -/
theorem Sound.grow {stack : Segments Nat} (sound : b.Sound) (current : b.current = some owner)
    (takes : b.stack.Takes expr.children stack)
    (target : ∀ {target memo}, expr = .reference target memo → target < b.productions.size) :
    (b.grown stack owner expr).Sound := by
  have parts : ∀ child ∈ expr.children, Free b.nodes owner child := by
    intro child member
    exact sound.free_of_mem current (takes.all ▸ List.mem_append_right _ member)
  have split := sound.nodup
  rw [takes.all, List.nodup_append] at split
  obtain ⟨-, -, apart⟩ := split
  refine { sound.toIntact.grow current takes parts target with free := ?_, keeps := ?_, bottom := ?_, idle := ?_ }
  · intro item member
    refine ⟨owner, current, ?_⟩
    rw [all_grown, List.mem_append, List.mem_singleton] at member
    rcases member with member | rfl
    · have free := sound.free_of_mem current (takes.all ▸ List.mem_append_left _ member)
      exact free.allocParent parts fun listed => apart item member item listed rfl
    · exact free_allocParent parts
  · intro floor size member
    change (floor, size) ∈ stack.marks.zip b.arenaMarks at member
    rw [takes.marks] at member
    exact sound.keeps member
  · intro id same
    change stack.marks.getLast? = some 0
    rw [takes.marks]
    exact sound.bottom same
  · exact fun none => absurd (current.symm.trans none) (Option.some_ne_none owner)

theorem Sound.mark (sound : b.Sound) (current : b.current = some id) : b.mark.Sound := by
  refine { sound.toIntact.mark with
    free := sound.free, keeps := ?_, bottom := ?_
    idle := fun none => absurd (current.symm.trans none) (Option.some_ne_none id) }
  · intro floor size member id root finished
    rcases mem_zip_mark.mp member with ⟨-, rfl⟩ | member
    · exact (sound.finished finished).lt_size
    · exact sound.keeps member finished
  · intro _ same
    change (_ :: b.stack.marks).getLast? = some 0
    rw [List.getLast?_cons, sound.bottom same]
    rfl

/-- A mark that can be closed is above that of the production. -/
private theorem Sound.inner {floor : Nat} {marks : List Nat} (sound : b.Sound)
    (several : ¬ b.arenaMarks.length ≤ b.reservedMarks) (above : b.stack.marks = floor :: marks) :
    marks.getLast? = some 0 ∧ b.current ≠ none := by
  have aligned := sound.aligned
  cases current : b.current with
  | none =>
    rw [sound.idle current] at above
    cases above
  | some id =>
    refine ⟨?_, Option.some_ne_none id⟩
    have bottom := sound.bottom current
    rw [reservedMarks, current, aligned, above] at several
    cases marks with
    | nil => exact absurd (Nat.le_refl 1) several
    | cons next rest => rwa [above, List.getLast?_cons_cons] at bottom

private theorem several_of_release (released : b.release = .ok b') : ¬ b.arenaMarks.length ≤ b.reservedMarks := by
  intro few
  rw [Builder.release, if_pos few] at released
  cases released

private theorem several_of_reset (discarded : b.reset = .ok b') : ¬ b.arenaMarks.length ≤ b.reservedMarks := by
  intro few
  rw [Builder.reset, if_pos few] at discarded
  cases discarded

theorem Sound.release (sound : b.Sound) (released : b.release = .ok b') : b'.Sound := by
  obtain ⟨floor, marks, size, sizes, above, sizes', rfl⟩ := sound.release_eq released
  obtain ⟨bottom, busy⟩ := sound.inner (several_of_release released) above
  refine { sound.toIntact.unmark above sizes' with
    free := sound.free, keeps := ?_, bottom := fun _ => bottom, idle := fun none => absurd none busy }
  intro floor' size' member id root finished
  have inner : (floor', size') ∈ b.stack.marks.zip b.arenaMarks := by
    rw [above, sizes']
    exact List.mem_cons_of_mem _ member
  exact sound.keeps inner finished

theorem Sound.reset (sound : b.Sound) (discarded : b.reset = .ok b') : b'.Sound := by
  obtain ⟨floor, marks, size, sizes, above, sizes', rfl⟩ := sound.reset_eq discarded
  obtain ⟨bottom, busy⟩ := sound.inner (several_of_reset discarded) above
  have here : (floor, size) ∈ b.stack.marks.zip b.arenaMarks := by
    rw [above, sizes']
    exact List.mem_cons_self ..
  refine { sound.toIntact.discard above sizes' (sound.keeps here) with
    free := ?_, keeps := ?_, bottom := fun _ => bottom, idle := fun none => absurd none busy }
  · intro item member
    have all : item ∈ b.stack.all.take floor := by simpa [Segments.all] using member
    obtain ⟨id, current, free⟩ := sound.free (List.mem_of_mem_take all)
    exact ⟨id, current, free.extract (sound.below here item all)⟩
  · intro floor' size' member id root finished
    have inner : (floor', size') ∈ b.stack.marks.zip b.arenaMarks := by
      rw [above, sizes']
      exact List.mem_cons_of_mem _ member
    exact sound.keeps inner finished

/-- Changes of the productions that leave flags and right-hand sides alone. -/
theorem Sound.revise {productions : Array Production} (sound : b.Sound)
    (more : b.productions.size ≤ productions.size)
    (same : ∀ {id root}, Defines productions id root ↔ Defines b.productions id root) :
    { b with productions }.Sound :=
  { sound.toIntact.revise more same with
    free := sound.free
    keeps := fun member _ _ finished => sound.keeps member ⟨finished.1, same.mp finished.2⟩
    bottom := sound.bottom
    idle := sound.idle }

/-- A production that was not defined before is now under construction. -/
theorem Sound.begin {productions : Array Production} (sound : b.Sound) (idle : b.current = none)
    (more : b.productions.size ≤ productions.size) (fresh : b.isDefined id = false)
    (defined : ∃ root, Defines productions id root)
    (others : ∀ {k root}, k ≠ id → (Defines productions k root ↔ Defines b.productions k root)) :
    ({ b with productions, definitions := b.definitions.push id, current := some id } : Builder).mark.Sound := by
  have bare := sound.idle idle
  refine { (sound.toIntact.begin idle more fresh defined others).mark with
    free := ?_, keeps := ?_, bottom := ?_, idle := nofun }
  · intro item member
    change item ∈ b.stack.all at member
    rw [bare] at member
    cases member
  · intro floor size member k root finished
    have finished := sound.finished (finished_of_begun idle others finished.1 finished.2)
    rcases mem_zip_mark.mp member with ⟨-, rfl⟩ | member
    · exact finished.lt_size
    · rw [bare] at member
      cases member
  · intro _ _
    change (b.stack.items.size :: b.stack.marks).getLast? = some 0
    rw [bare]
    rfl

/-- The production under construction gets the only expression on the stack as its right-hand side. -/
def finished (b : Builder) (owner root : Nat) : Builder :=
  { b with
    productions := b.productions.modify owner fun p => { p with root }
    stack := .empty
    arenaMarks := []
    current := none }

theorem Sound.finish {root : Nat} (sound : b.Sound) (current : b.current = some owner)
    (left : b.stack.all = [root]) : (b.finished owner root).Sound := by
  have bare : { b with stack := .empty, arenaMarks := [] }.Intact :=
    sound.restack (List.nil_sublist _) (List.pairwise_singleton ..) rfl nofun
  have free := sound.free_of_mem current (left ▸ List.mem_singleton_self _)
  exact { bare.settle current free List.not_mem_nil with
    free := nofun, keeps := nofun, bottom := nofun, idle := fun _ => rfl }

/-- What an operation in balanced use does to a builder, or a part of it. -/
inductive Change (b : Builder) : Builder → Prop
  | grow {owner : Nat} {expr : Expr} {stack : Segments Nat} (current : b.current = some owner)
      (takes : b.stack.Takes expr.children stack) (regular : expr.Regular)
      (target : ∀ {target memo}, expr = .reference target memo → target < b.productions.size) :
      Change b (b.grown stack owner expr)
  | mark {id : Nat} (current : b.current = some id) : Change b b.mark
  | release {b' : Builder} (released : b.release = .ok b') : Change b b'
  | reset {b' : Builder} (discarded : b.reset = .ok b') : Change b b'
  | revise {productions : Array Production} (more : b.productions.size ≤ productions.size)
      (same : ∀ {id root}, Defines productions id root ↔ Defines b.productions id root) :
      Change b { b with productions }
  | respan {top : Nat} {f : Node → Option Span} :
      Change b { b with nodes := b.nodes.modify top fun node => { node with span := f node } }
  | begin {productions : Array Production} {id : Nat} (idle : b.current = none)
      (more : b.productions.size ≤ productions.size) (fresh : b.isDefined id = false)
      (defined : ∃ root, Defines productions id root)
      (others : ∀ {k root}, k ≠ id → (Defines productions k root ↔ Defines b.productions k root)) :
      Change b ({ b with productions, definitions := b.definitions.push id, current := some id } : Builder).mark
  | finish {owner root : Nat} (current : b.current = some owner) (left : b.stack.all = [root]) :
      Change b (b.finished owner root)
  | adjust {knownActions : List String} {source : Option String} : Change b { b with knownActions, source }
  | clear : Change b b.clear

theorem Sound.change (sound : b.Sound) (change : Change b b') : b'.Sound := by
  cases change with
  | grow current takes _ target => exact sound.grow current takes target
  | mark current => exact sound.mark current
  | release released => exact sound.release released
  | reset discarded => exact sound.reset discarded
  | revise more same => exact sound.revise more same
  | respan =>
    refine { sound.toIntact.respan with
      free := ?_, keeps := sound.keeps, bottom := sound.bottom, idle := sound.idle }
    intro item member
    obtain ⟨id, current, free⟩ := sound.free member
    exact ⟨id, current, free.respan⟩
  | begin idle more fresh defined others => exact sound.begin idle more fresh defined others
  | finish current left => exact sound.finish current left
  | adjust => exact { sound with }
  | clear => exact { Sound.empty with }

end Builder

end Packrat
