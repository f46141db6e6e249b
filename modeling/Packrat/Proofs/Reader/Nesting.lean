import Packrat.Proofs.Reader.Layout
import Packrat.Proofs.Reader.Totality
import Packrat.Proofs.Text.Lines

/-! # Places in a grammar that is read

What a builder holds between productions lies in the grammar that is built from it as it lay before: right-hand sides
of productions without a definition are empty and have no place, and an undo scope lies where the expression does that
it is put around. So the places in a grammar that is read from a text nest like its expressions, whatever the text is,
but for the body of an action or a lookahead that lacks its closing parenthesis.
-/

namespace Packrat

@[simp] theorem Expr.endsEarly_mapChildren (e : Expr) (f : Nat → Nat) : (e.mapChildren f).endsEarly = e.endsEarly := by
  cases e <;> rfl

namespace Grammar

variable {known lost : Position → Prop} {g : Grammar} {i j : Nat} {spans : List Span}

/-- The production lies in the span, with its right-hand side. -/
structure Encloses (known : Position → Prop) (g : Grammar) (p : Production) (s : Span) : Prop where
  span : p.span = some s
  start : known s.start
  stop : known s.stop
  forward : s.start.offset ≤ s.stop.offset
  around : ∀ t, spanAt? g.nodes p.root = some t → s.start.offset ≤ t.start.offset ∧ t.stop.offset ≤ s.stop.offset

/-- All nodes lie where they should, and the productions with a definition in the given spans. -/
structure Spread (known lost : Position → Prop) (spans : List Span) (g : Grammar) : Prop where
  laid : Laid known lost g.nodes
  definition : ∀ {k : Nat} {p : Production}, g.productions[k]? = some p → p.defined = true →
    ∃ s, spans[k]? = some s ∧ g.Encloses known p s

namespace WellFormed

variable (wellFormed : g.WellFormed) (attached : g.Attached i)

include wellFormed attached

theorem spanAt?_splice (wrap : Nat → Expr) (small : j < g.nodes.size) :
    spanAt? (g.splice i wrap).2.nodes j = spanAt? g.nodes j := by
  obtain ⟨node, here, -⟩ := id attached
  unfold spanAt?
  rw [wellFormed.splice_nodes attached here, if_neg (Nat.ne_of_lt small)]
  cases g.nodes[j]? <;> rfl

/-- What takes the place of a node lies in its place. -/
theorem spanAt?_replaced (wrap : Nat → Expr) (small : j < g.nodes.size) :
    spanAt? (g.splice i wrap).2.nodes (g.replaced i j) = spanAt? g.nodes j := by
  unfold replaced
  split
  · next itself =>
    obtain ⟨node, here, -⟩ := id attached
    subst itself
    unfold spanAt?
    rw [wellFormed.splice_nodes attached here, if_pos rfl, here]
    rfl
  · exact wellFormed.spanAt?_splice attached wrap small

theorem splice_spread (inner : g.expr? i ≠ some (.terminal .nil)) (spread : g.Spread known lost spans) :
    (g.splice i .undo).2.Spread known lost spans where
  laid := by
    obtain ⟨node, here, -⟩ := id attached
    have kept {j : Nat} := wellFormed.spanAt?_splice (j := j) attached .undo
    intro j above present
    rw [wellFormed.splice_nodes attached here] at present
    split at present
    · cases present
      have filled : node.expr ≠ .terminal .nil := fun nothing => inner (nothing ▸ expr?_of_node here)
      obtain ⟨s, found, lies⟩ := (spread.laid i node here).resolve_left fun nothing => filled nothing.1
      have inside : spanAt? (g.splice i .undo).2.nodes i = some s := by
        rw [kept attached.lt_size, spanAt?, here]
        exact found
      refine .inr ⟨s, found, lies.start, lies.stop, lies.forward, fun child member t there => ?_,
        List.pairwise_singleton ..⟩
      rw [List.mem_singleton.mp member, inside] at there
      cases there
      exact ⟨Nat.le_refl _, .inl (Nat.le_refl _)⟩
    · obtain ⟨before, found, rfl⟩ := Option.map_eq_some_iff.mp present
      rcases spread.laid j before found with ⟨nothing, bare⟩ | ⟨s, placed, lies⟩
      · left
        change before.expr.mapChildren _ = _ ∧ before.span = none
        rw [nothing]
        exact ⟨rfl, bare⟩
      · have parts := before.expr.children_mapChildren (g.replaced i)
        refine .inr ⟨s, placed, lies.moved parts (before.expr.endsEarly_mapChildren _) fun child member => ?_⟩
        obtain ⟨part, there, -⟩ := wellFormed.part found member
        exact wellFormed.spanAt?_replaced attached .undo (Array.getElem?_eq_some_iff.mp there).1
  definition := by
    intro k p found defined
    obtain ⟨node, here, -⟩ := id attached
    rw [wellFormed.splice_productions here] at found
    obtain ⟨before, earlier, rfl⟩ := Option.map_eq_some_iff.mp found
    obtain ⟨s, listed, encloses⟩ := spread.definition earlier defined
    refine ⟨s, listed, encloses.span, encloses.start, encloses.stop, encloses.forward, fun t there => ?_⟩
    obtain ⟨root, present, -⟩ := wellFormed.root earlier
    have small := (Array.getElem?_eq_some_iff.mp present).1
    rw [wellFormed.spanAt?_replaced attached .undo small] at there
    exact encloses.around t there

omit attached in
theorem injectUndo_spread (spread : g.Spread known lost spans) : g.injectUndo.2.Spread known lost spans :=
  wellFormed.injectUndo_induction (motive := Spread known lost spans)
    (fun wellFormed rooted inner before => wellFormed.splice_spread (wellFormed.attached rooted) (inner _) before)
    spread

end WellFormed

end Grammar

namespace Builder

variable {b : Builder} {known lost : Position → Prop} {spans : List Span}

/-- Productions without a definition get a right-hand side that has no place. -/
structure Fills (known lost : Position → Prop) (b b' : Builder) : Prop where
  laid : Laid known lost b'.nodes
  same : ∀ i, spanAt? b'.nodes i = spanAt? b.nodes i
  defined : ∀ id, b'.isDefined id = b.isDefined id
  extent : ∀ id, b.isDefined id = true → extent? b'.productions id = extent? b.productions id

theorem fills_fillUndefined (laid : Laid known lost b.nodes) : b.Fills known lost b.fillUndefined := by
  refine fillUndefined_induction (motive := fun b' _ => b.Fills known lost b') ?_
    ⟨laid, fun _ => rfl, fun _ => rfl, fun _ _ => rfl⟩
  intro b' id rest inside once fills
  unfold fill
  split
  · exact fills
  · next undefined =>
    refine ⟨laid_nothing fills.laid, fun i => (spanAt?_nothing i).trans (fills.same i), fun k => ?_,
      fun k flag => ?_⟩
    · rw [← fills.defined k]
      simp only [isDefined, alloc, Array.getElem?_modify]
      split
      · cases b'.productions[k]? <;> rfl
      · rfl
    · refine Eq.trans (extent?_modify fun itself => ?_) (fills.extent k flag)
      subst itself
      rw [fills.defined, flag] at undefined
      exact absurd rfl undefined

theorem spanAt?_assembled (b : Builder) (i : Nat) : spanAt? b.assembled.nodes i = spanAt? b.fillUndefined.nodes i := by
  unfold spanAt?
  rw [assembled_nodes]
  cases b.fillUndefined.nodes[i]? <;> rfl

theorem lies_renumber {at? : Nat → Option Span} {index : Nat → Nat} {node : Node} {s : Span}
    (lies : Lies known lost at? node.expr s) : Lies known lost at? (renumber index node).expr s := by
  cases node with
  | mk expr =>
    cases expr with
    | reference => exact ⟨lies.start, lies.stop, lies.forward, nofun, .nil⟩
    | _ => exact lies

/-- The productions with a definition come first, in the order of their definitions. -/
theorem listed_of_defined {k id : Nat} (listed : b.finalOrder[k]? = some id) (defined : b.isDefined id = true) :
    b.definitions.toList[k]? = some id := by
  rw [finalOrder, List.getElem?_append] at listed
  split at listed
  · exact listed
  · have member := (List.mem_filter.mp (List.mem_of_getElem? listed)).2
    rw [defined] at member
    cases member

theorem Shelved.assembled_spread (shelved : b.Shelved known lost spans) : b.assembled.Spread known lost spans where
  laid := by
    intro i node present
    have fills := fills_fillUndefined shelved.laid
    rw [assembled_nodes] at present
    obtain ⟨before, found, rfl⟩ := Option.map_eq_some_iff.mp present
    rcases fills.laid i before found with ⟨nothing, bare⟩ | ⟨s, placed, lies⟩
    · left
      cases before with
      | mk expr =>
        cases nothing
        exact ⟨rfl, bare⟩
    · exact .inr ⟨s, placed, lies_renumber (lies.congr fun child _ => spanAt?_assembled b child)⟩
  definition := by
    intro k p found defined
    have fills := fills_fillUndefined shelved.laid
    rw [shelved.sound.assembled_productions] at found
    obtain ⟨id, listed, found⟩ := Option.bind_eq_some_iff.mp found
    obtain ⟨before, there, rfl⟩ := Option.map_eq_some_iff.mp found
    have flag : b.isDefined id = true := by
      rw [← fills.defined, isDefined, there]
      exact defined
    obtain ⟨s, place, spanned⟩ : ∃ s, spans[k]? = some s ∧ Spanned known b.nodes b.productions id s := by
      obtain ⟨small, rfl⟩ := List.getElem?_eq_some_iff.mp (listed_of_defined listed flag)
      have small' : k < spans.length := shelved.each.length_eq ▸ small
      exact ⟨_, List.getElem?_eq_getElem small', shelved.each.get small small'⟩
    obtain ⟨root, -, extent, around⟩ := spanned.around
    rw [← fills.extent id flag, extent?, there] at extent
    obtain ⟨span, rfl⟩ := Prod.mk.inj (Option.some.inj extent)
    refine ⟨s, place, span, spanned.start, spanned.stop, spanned.forward, fun t here => ?_⟩
    rw [spanAt?_assembled, fills.same] at here
    exact around t here

end Builder

theorem Position.On.le {text : List Char} {p q : Position} (on : p.On text) (on' : q.On text)
    (before : p.offset ≤ q.offset) : p ≤ q := by
  obtain ⟨m, small, rfl⟩ := on
  obtain ⟨n, small', rfl⟩ := on'
  rw [Position.offset_after_of_le small, Position.offset_after_of_le small'] at before
  rcases Nat.lt_or_eq_of_le before with less | rfl
  · left
    rwa [Position.offset_after_of_le small, Position.offset_after_of_le small']
  · exact .inr ⟨rfl, .inr ⟨rfl, Nat.le_refl _⟩⟩

/-- A stream on the text gets to both ends of the span, which are in order. -/
structure Span.On (text : String) (s : Span) : Prop where
  start : Stream.Reaches text s.start
  stop : Stream.Reaches text s.stop
  forward : s.start ≤ s.stop

theorem Span.on_of_known {text : String} {s : Span} (start : s.start.On (Newline.normalize text.toList))
    (stop : s.stop.On (Newline.normalize text.toList)) (forward : s.start.offset ≤ s.stop.offset) : s.On text :=
  ⟨Stream.reaches_iff.mpr start, Stream.reaches_iff.mpr stop, start.le stop forward⟩

def Span.Within (t s : Span) : Prop := s.start ≤ t.start ∧ t.stop ≤ s.stop

namespace Grammar

/-- The places of a grammar nest like its expressions. Only the body of an action or a lookahead can end behind it, at
a closing parenthesis that is missing. -/
structure SpansNest (text : String) (g : Grammar) : Prop where
  node : ∀ {i : Nat} {node : Node}, g.nodes[i]? = some node → node.expr ≠ .terminal .nil →
    ∃ s, node.span = some s ∧ s.On text
  part : ∀ {i child : Nat} {node : Node} {s t : Span}, g.nodes[i]? = some node → node.span = some s →
    child ∈ node.expr.children → spanAt? g.nodes child = some t →
      t.Within s ∨ node.expr.endsEarly = true ∧ s.start ≤ t.start ∧ Lost g.problems t.stop
  /-- The parts of a sequence or choice lie one behind the other. -/
  parts : ∀ {i : Nat} {node : Node}, g.nodes[i]? = some node → node.expr.children.Pairwise fun j k =>
    ∀ s t, spanAt? g.nodes j = some s → spanAt? g.nodes k = some t → s.stop ≤ t.start
  production : ∀ p ∈ g.productions, p.defined = true →
    ∃ s, p.span = some s ∧ s.On text ∧ ∀ t, spanAt? g.nodes p.root = some t → t.Within s
  productions : (g.productions.toList.filter Production.defined).Pairwise fun p q =>
    ∀ s t, p.span = some s → q.span = some t → s.stop ≤ t.start

/-- Where no closing parenthesis is missing, all parts lie within what they are parts of. -/
theorem SpansNest.within {text : String} {g : Grammar} {i child : Nat} {node : Node} {s t : Span}
    (nest : g.SpansNest text) (closed : ∀ problem ∈ g.problems, problem.kind ≠ .missingParenthesis)
    (present : g.nodes[i]? = some node) (placed : node.span = some s) (member : child ∈ node.expr.children)
    (found : spanAt? g.nodes child = some t) : t.Within s :=
  (nest.part present placed member found).resolve_right fun ⟨_, _, lost⟩ => closed _ lost rfl

theorem Spread.spansNest {text : String} {g : Grammar} {spans : List Span} {problems : Problems}
    (spread : g.Spread (Position.On (Newline.normalize text.toList)) (Lost problems) spans)
    (apart : spans.Pairwise fun s t => s.stop.offset ≤ t.start.offset) :
    { g with problems := Problems.sort problems }.SpansNest text where
  node present filled := by
    obtain ⟨s, placed, lies⟩ := (spread.laid _ _ present).resolve_left fun nothing => filled nothing.1
    exact ⟨s, placed, Span.on_of_known lies.start lies.stop lies.forward⟩
  part := by
    intro i child node s t present placed member found
    obtain ⟨s', placed', lies⟩ := (spread.laid i node present).resolve_left fun nothing => by simp [placed] at nothing
    cases placed.symm.trans placed'
    obtain ⟨start, stop⟩ := spread.laid.ends found
    obtain ⟨begins, ends⟩ := lies.within child member t found
    have begins := lies.start.le start begins
    rcases ends with inside | ⟨early, lost⟩
    · exact .inl ⟨begins, stop.le lies.stop inside⟩
    · exact .inr ⟨early, begins, List.mem_mergeSort.mpr lost⟩
  parts := by
    intro i node present
    rcases spread.laid i node present with ⟨nothing, -⟩ | ⟨s, -, lies⟩
    · rw [nothing]
      exact .nil
    · refine lies.apart.imp fun behind s t found found' => ?_
      exact (spread.laid.ends found).2.le (spread.laid.ends found').1 (behind s t found found')
  production := by
    intro p member defined
    obtain ⟨k, found⟩ := Array.mem_iff_getElem?.mp member
    obtain ⟨s, -, encloses⟩ := spread.definition found defined
    refine ⟨s, encloses.span, Span.on_of_known encloses.start encloses.stop encloses.forward, fun t there => ?_⟩
    obtain ⟨start, stop⟩ := spread.laid.ends there
    obtain ⟨begins, ends⟩ := encloses.around t there
    exact ⟨encloses.start.le start begins, stop.le encloses.stop ends⟩
  productions := by
    rw [List.pairwise_filter, List.pairwise_iff_getElem]
    intro j k small small' order defined defined' s t placed placed'
    have found {i : Nat} (small : i < g.productions.toList.length) :
        g.productions[i]? = some g.productions.toList[i] := by
      rw [← Array.getElem?_toList]
      exact List.getElem?_eq_getElem small
    obtain ⟨s', listed, first⟩ := spread.definition (found small) defined
    obtain ⟨t', listed', second⟩ := spread.definition (found small') defined'
    cases first.span.symm.trans placed
    cases second.span.symm.trans placed'
    obtain ⟨inside, rfl⟩ := List.getElem?_eq_some_iff.mp listed
    obtain ⟨inside', rfl⟩ := List.getElem?_eq_some_iff.mp listed'
    exact first.stop.le second.start (List.pairwise_iff_getElem.mp apart j k inside inside' order)

end Grammar

/-- Every text is read into a grammar whose places nest, malformed texts too. -/
theorem readText_spans (text : String) (actions : List String) :
    ∃ g, readText text actions = .ok g ∧ g.SpansNest text := by
  obtain ⟨_, c, ran, -, definitions, outlines, -⟩ :=
    Read.ends_grammar (c := Cursor.ofString text ((Builder.empty.withActions actions).setSource text))
      (Builder.outlines_empty actions text)
  obtain ⟨spans, between⟩ := (Read.between_ofString text actions).grammar _ _ ran
  refine ⟨_, readText_eq ran outlines, ?_⟩
  have wellFormed := outlines.balanced.sound.wellFormed_assembled outlines.idle
  exact (wellFormed.injectUndo_spread between.shelved.assembled_spread).spansNest between.shelved.apart

/-- Behind the expression in the parentheses a sign is read before it is known that no operand follows. The end of that
sign stays the end of the last token, although the reader goes back in front of it. -/
theorem Sample.torn_group_ends_behind : ¬ ∀ (text : String) (actions : List String) (g : Grammar),
    readText text actions = .ok g → ∀ {i child : Nat} {node : Node} {s t : Span}, g.nodes[i]? = some node →
      node.span = some s → child ∈ node.expr.children → spanAt? g.nodes child = some t → t.Within s := by
  intro claimed
  obtain ⟨g, read⟩ : ∃ g, readText "A : 'b' !('a' !) ;" [] = .ok g := by
    obtain ⟨_, _, _, -, -, read⟩ := exists_readText "A : 'b' !('a' !) ;" []
    exact ⟨_, read⟩
  have places : (readText "A : 'b' !('a' !) ;" []).toOption.map (fun g => (g.nodes[2]?.map fun node =>
      (node.expr, node.span), spanAt? g.nodes 1)) = some (some (.lookahead 1 .absent,
        some ⟨⟨8, 1, 9⟩, ⟨14, 1, 15⟩⟩), some ⟨⟨10, 1, 11⟩, ⟨15, 1, 16⟩⟩) := by decide +kernel
  rw [read] at places
  obtain ⟨above, below⟩ := Prod.ext_iff.mp (Option.some.inj places)
  obtain ⟨node, present, same⟩ := Option.map_eq_some_iff.mp above
  obtain ⟨shown, placed⟩ := Prod.ext_iff.mp same
  have member : 1 ∈ node.expr.children := by
    rw [show node.expr = _ from shown]
    exact List.mem_singleton_self _
  have within := claimed _ [] g read present placed member below
  exact absurd within.2 (by decide)

end Packrat
