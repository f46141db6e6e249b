import Packrat.Proofs.Builder.Placed

/-! # Where the productions of a builder lie

A production gets its place before it ends. Its right-hand side is what has been pushed since it began, one expression
at most. So if that lies within the place, and the place is behind those of the productions before, then the
productions lie one behind the other, each around its right-hand side.
-/

namespace Packrat

/-- Where a production lies, and what its right-hand side is. -/
def extent? (productions : Array Production) (id : Nat) : Option (Option Span × Nat) :=
  productions[id]?.map fun p => (p.span, p.root)

/-- The production lies in the span `s`, with its right-hand side. -/
structure Spanned (known : Position → Prop) (nodes : Array Node) (productions : Array Production) (id : Nat)
    (s : Span) : Prop where
  start : known s.start
  stop : known s.stop
  forward : s.start.offset ≤ s.stop.offset
  around : ∃ root < nodes.size, extent? productions id = some (some s, root) ∧ ∀ t, spanAt? nodes root = some t →
    s.start.offset ≤ t.start.offset ∧ t.stop.offset ≤ s.stop.offset

section

variable {known : Position → Prop} {nodes nodes' : Array Node} {productions productions' : Array Production} {id : Nat}
  {s : Span}

theorem lt_of_extent? {x : Option Span × Nat} (found : extent? productions id = some x) : id < productions.size := by
  obtain ⟨p, present, -⟩ := Option.map_eq_some_iff.mp found
  exact (Array.getElem?_eq_some_iff.mp present).1

theorem Spanned.keep (spanned : Spanned known nodes productions id s)
    (same : extent? productions' id = extent? productions id) (size : nodes.size ≤ nodes'.size)
    (kept : ∀ i < nodes.size, spanAt? nodes' i = spanAt? nodes i) : Spanned known nodes' productions' id s := by
  obtain ⟨root, inside, found, around⟩ := spanned.around
  refine { spanned with around := ⟨root, Nat.lt_of_lt_of_le inside size, same.trans found, fun t there => ?_⟩ }
  rw [kept root inside] at there
  exact around t there

end

namespace Builder

variable {b b₁ b₂ b₃ b₄ : Builder} {known lost : Position → Prop} {name : String} {owner : Nat} {s : Span}
  {ss spans : List Span}

/-- Between productions, all nodes lie where they should, and the definitions in the given spans. -/
structure Shelved (known lost : Position → Prop) (b : Builder) (spans : List Span) : Prop where
  sound : b.Sound
  laid : Laid known lost b.nodes
  idle : b.current = none
  each : List.Forall₂ (Spanned known b.nodes b.productions) b.definitions.toList spans
  apart : spans.Pairwise fun s t => s.stop.offset ≤ t.start.offset

theorem Shelved.mono {lost' : Position → Prop} (shelved : Shelved known lost b spans) (more : ∀ p, lost p → lost' p) :
    Shelved known lost' b spans := { shelved with laid := shelved.laid.mono more }

theorem extent?_push {productions : Array Production} {p : Production} {id : Nat} (inside : id < productions.size) :
    extent? (productions.push p) id = extent? productions id := by
  rw [extent?, Array.getElem?_push, if_neg (Nat.ne_of_lt inside)]
  rfl

theorem extent?_modify {productions : Array Production} {k id : Nat} {f : Production → Production}
    (same : k = id → ∀ p, ((f p).span, (f p).root) = (p.span, p.root)) :
    extent? (productions.modify k f) id = extent? productions id := by
  rw [extent?, Array.getElem?_modify]
  split
  · next itself =>
    rw [Option.map_map]
    exact congrArg (Option.map · _) (funext (same itself))
  · rfl

/-- A definition changes flags only, apart from productions that are new. -/
theorem extent?_define (b : Builder) (name : String) {id : Nat} (inside : id < b.productions.size) :
    extent? (b.define name).2.productions id = extent? b.productions id := by
  obtain ⟨productions, same, more, -, -⟩ := lookup_keeps b name
  have lookedUp : extent? productions id = extent? b.productions id := by
    have kept : extent? (b.lookup name).2.productions id = extent? b.productions id := by
      unfold lookup
      split
      · rfl
      · exact extent?_push inside
    rwa [same] at kept
  unfold define
  generalize b.lookup name = found at *
  obtain ⟨k, _⟩ := found
  obtain rfl := same
  dsimp only at *
  split
  · have inside' : id < (productions.modify k ({ · with duplicated := true })).size := by
      rw [Array.size_modify]
      exact Nat.lt_of_lt_of_le inside more
    refine (extent?_push inside').trans (Eq.trans ?_ lookedUp)
    exact extent?_modify fun _ _ => rfl
  · refine Eq.trans ?_ lookedUp
    exact extent?_modify fun _ _ => rfl

/-- The beginning of a production leaves all nodes where they are. -/
theorem Shelved.begin (shelved : Shelved known lost b spans) (started : b.startProduction name = .ok b₁) :
    ∃ owner, b₁.current = some owner ∧ b₁.Sound ∧ b₁.nodes = b.nodes ∧ b₁.stack = Segments.empty.mark ∧
      b₁.arenaMarks.length = 1 ∧ b₁.definitions = b.definitions.push owner ∧ b.productions.size ≤ b₁.productions.size ∧
      owner < b₁.productions.size ∧
      ∀ id < b.productions.size, extent? b₁.productions id = extent? b.productions id := by
  have sound := shelved.sound.changes (changes_startProduction started)
  obtain ⟨idle, rfl⟩ := of_startProduction started
  obtain ⟨productions, same, more, -, ⟨root, defines⟩, -⟩ := define_fills b name
  have bare := shelved.sound.idle idle
  have unmarked : b.arenaMarks = [] := by
    rw [← List.length_eq_zero_iff, shelved.sound.aligned, bare]
    rfl
  have kept {id : Nat} (inside : id < b.productions.size) := extent?_define b name inside
  rw [same] at kept sound ⊢
  refine ⟨_, rfl, sound, rfl, ?_, ?_, rfl, more, defines.lt_size, fun id inside => kept inside⟩
  · simp only [mark, bare]
  · simp [mark, unmarked]

/-- At the end of a production, its right-hand side is the only expression that is left, or nothing. -/
theorem endProduction_eq {b b' : Builder} (current : b.current = some owner) (single : b.stack.popAll.1.length ≤ 1)
    (ended : b.endProduction = .ok b') : ∃ root,
      b'.productions = b.productions.modify owner (fun p => { p with root }) ∧ b'.definitions = b.definitions ∧
        b'.current = none ∧ (b.stack.popAll.1 = [root] ∧ b'.nodes = b.nodes ∨ b.stack.popAll.1 = [] ∧
          root = b.nodes.size ∧ b'.nodes = b.nodes.push { expr := .terminal .nil, owner }) := by
  rw [endProduction, owner_of_current current] at ended
  generalize b.stack.popAll = taken at *
  obtain ⟨ids, below⟩ := taken
  obtain rfl := Except.ok.inj ended
  rcases ids with _ | ⟨i, _ | ⟨j, more⟩⟩
  · exact ⟨_, rfl, rfl, rfl, .inr ⟨rfl, rfl, rfl⟩⟩
  · exact ⟨i, rfl, rfl, rfl, .inl ⟨rfl, rfl⟩⟩
  · simp at single

/-- The right-hand side lies where it has been read. -/
theorem laid_ended {nodes nodes' : Array Node} {ids : List Nat} {root : Nat} (laid : Laid known lost nodes)
    (places : List.Forall₂ (fun i s => spanAt? nodes i = some s) ids ss)
    (placed : ids = [root] ∧ nodes' = nodes ∨
      ids = [] ∧ root = nodes.size ∧ nodes' = nodes.push { expr := .terminal .nil, owner }) :
    Laid known lost nodes' ∧ nodes.size ≤ nodes'.size ∧ root < nodes'.size ∧
      (∀ i, spanAt? nodes' i = spanAt? nodes i) ∧ ∀ t, spanAt? nodes root = some t → t ∈ ss := by
  obtain ⟨rfl, rfl⟩ | ⟨rfl, rfl, rfl⟩ := placed
  · obtain ⟨s, _, found, rest, rfl⟩ := List.forall₂_cons_left_iff.mp places
    cases rest
    refine ⟨laid, Nat.le_refl _, lt_of_spanAt? found, fun _ => rfl, fun t there => ?_⟩
    cases found.symm.trans there
    exact List.mem_singleton_self _
  · rw [Array.size_push]
    refine ⟨laid_nothing laid, Nat.le_succ _, Nat.lt_succ_self _, spanAt?_nothing, fun t there => ?_⟩
    exact absurd (lt_of_spanAt? there) (Nat.lt_irrefl _)

/-- The production gets its place and ends: what has been pushed since it began is its right-hand side. -/
theorem Shelved.finish (shelved : Shelved known lost b spans) (started : b.startProduction name = .ok b₁)
    (lays : Lays known lost b₁ b₂ ss) (single : ss.length ≤ 1) (spanned : b₂.setProductionSpan s = .ok b₃)
    (ended : b₃.endProduction = .ok b₄) (start : known s.start) (stop : known s.stop)
    (forward : s.start.offset ≤ s.stop.offset)
    (around : ∀ t ∈ ss, s.start.offset ≤ t.start.offset ∧ t.stop.offset ≤ s.stop.offset)
    (behind : ∀ t ∈ spans, t.stop.offset ≤ s.start.offset) : Shelved known lost b₄ (spans ++ [s]) := by
  obtain ⟨owner, current, sound₁, nodes₁, stack₁, marks, definitions₁, more, small, kept⟩ := shelved.begin started
  obtain ⟨ids, pushed, places⟩ := lays.pushed
  have sound₃ := lays.sound.change (changes_setProductionSpan spanned)
  obtain ⟨owner', current₂, moved⟩ := current_of_ok spanned
  cases (lays.current.trans current).symm.trans current₂
  obtain rfl := Except.ok.inj moved
  have closed : b₂.arenaMarks.length ≤ 1 := by
    rw [lays.arenaMarks]
    exact Nat.le_of_eq marks
  have sound₄ := sound₃.changes (sound₃.endProduction closed ended)
  have segment : b₂.stack.popAll.1 = ids := by
    rw [pushed, stack₁]
    exact Segments.segment_pushAll_mark ..
  obtain ⟨root, productions₄, definitions₄, idle, placed⟩ := @endProduction_eq owner
    { b₂ with productions := b₂.productions.modify owner _ } b₄ current₂ (by
      change b₂.stack.popAll.1.length ≤ 1
      rwa [segment, places.length_eq]) ended
  change b₂.stack.popAll.1 = [root] ∧ b₄.nodes = b₂.nodes ∨ b₂.stack.popAll.1 = [] ∧ root = b₂.nodes.size ∧
    b₄.nodes = b₂.nodes.push { expr := .terminal .nil, owner } at placed
  rw [segment] at placed
  obtain ⟨laid, size, inside, same, listed⟩ := laid_ended lays.laid (places.imp fun _ _ => And.right) placed
  have fresh : owner ∉ b.definitions.toList := by
    have distinct := sound₁.definitions
    rw [definitions₁, Array.toList_push] at distinct
    exact fun member => (List.nodup_append.mp distinct).2.2 owner member owner (List.mem_singleton_self _) rfl
  refine ⟨sound₄, laid, idle, ?_, ?_⟩
  · rw [definitions₄]
    change List.Forall₂ _ b₂.definitions.toList _
    rw [lays.definitions, definitions₁, Array.toList_push]
    refine List.rel_append ?_ (.cons ⟨start, stop, forward, root, inside, ?_, fun t there => ?_⟩ .nil)
    · have each := (List.forall₂_and_left _ _).mpr ⟨fun id member => ne_of_mem_of_not_mem member fresh, shelved.each⟩
      refine each.imp fun id t ⟨other, spanned⟩ => spanned.keep ?_ ?_ fun i small => ?_
      · have earlier := lt_of_extent? spanned.around.choose_spec.2.1
        rw [productions₄]
        refine (extent?_modify fun itself => absurd itself.symm other).trans ?_
        refine (extent?_modify fun itself => absurd itself.symm other).trans ?_
        rw [extent?, lays.productions id (Nat.lt_of_lt_of_le earlier more)]
        exact kept id earlier
      · exact nodes₁ ▸ Nat.le_trans lays.size size
      · rw [same, lays.kept i (nodes₁ ▸ small), nodes₁]
    · have there := lays.productions owner small
      rw [Array.getElem?_eq_getElem small] at there
      rw [productions₄, extent?, Array.getElem?_modify, if_pos rfl]
      change Option.map _ (Option.map _ (b₂.productions.modify owner _)[owner]?) = _
      rw [Array.getElem?_modify, if_pos rfl, there]
      rfl
    · rw [same] at there
      exact around t (listed t there)
  · refine List.pairwise_append.mpr ⟨shelved.apart, List.pairwise_singleton .., fun t member s' only => ?_⟩
    rw [List.mem_singleton.mp only]
    exact behind t member

end Builder

end Packrat
