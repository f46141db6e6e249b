import Packrat.Proofs.Builder.Anchored
import Packrat.Proofs.Reader.Expression

/-! # Every text can be read

Text that cannot be read is passed over, and every round of the reader's loops reads something. So reading ends for
every text, without an error of the builder or of the marks, and between two productions no mark is outstanding.
What is read is a well-formed grammar without unreachable nodes.
-/

namespace Packrat

namespace Read

variable {α β : Type} {c c' : Cursor} {Q : α → Cursor → Prop} {definitions : List (String × Phrase)}

/-- Goes on behind a step whose result is known. -/
theorem ends_ran {step : Read β} {b : β} {next : β → Read α} (ran : step c = .ok (b, c')) :
    Ends (step >>= next) c Q ↔ Ends (next b) c' Q := by
  unfold Ends
  change (∃ a c', (step c >>= fun r => next r.1 r.2) = .ok (a, c') ∧ Q a c') ↔ _
  rw [ran]
  rfl

theorem ends_skipItem (c : Cursor) : Ends skipItem c fun _ c' =>
    Onward c c' ∧ (c.rest ≠ [] → c'.rest.length < c.rest.length) := by
  rw [skipItem, ends_get]
  split
  · split
    · rw [ends_skip_last]
      exact ⟨onward_forward c _, fun nonempty => length_forward_lt nonempty (by omega)⟩
    · rw [ends_skip_last]
      exact ⟨onward_forward c 1, fun nonempty => length_forward_lt nonempty Nat.one_pos⟩
  · next nothing =>
    rw [ends_pure]
    exact ⟨.refl c, fun nonempty => absurd nothing nonempty⟩

/-- Passing over items ends, and if there is an item at all, something is passed over. -/
theorem ends_skipItems {more : Read Bool} (looks : ∀ c, ∃ go, more c = .ok (go, c) ∧ (go = true → c.rest ≠ []))
    (reporting : Bool) {limit : Nat} (enough : c.rest.length < limit) (stop : Position) :
    Ends (skipItems more reporting limit stop) c fun _ c' =>
      Onward c c' ∧ (more c = .ok (true, c) → c'.rest.length < c.rest.length) := by
  induction limit generalizing c stop with
  | zero => omega
  | succ limit ih =>
    obtain ⟨go, ran, present⟩ := looks c
    rw [skipItems, ends_ran ran]
    cases go with
    | false =>
      rw [if_neg Bool.false_ne_true, ends_pure]
      exact ⟨.refl c, fun same => by cases ran.symm.trans same⟩
    | true =>
      rw [if_pos rfl]
      refine (ends_skipItem c).bind fun _ c₁ ⟨onward, less⟩ => ?_
      have less := less (present rfl)
      rw [ends_here]
      refine (total_skipSpacing reporting c₁).bind fun _ c₂ blank => ?_
      have rest := blank.onward.rest
      refine (ih (by omega) c₁.position).mono fun _ c₃ ⟨further, _⟩ => ?_
      have := further.rest
      exact ⟨onward.trans (blank.onward.trans further), fun _ => by omega⟩

theorem atProductionHead_ran (c : Cursor) : ∃ head, atProductionHead c = .ok (head, c) ∧
    (head = true → ∃ first rest, c.rest = first :: rest ∧ isNameStart first = true) := by
  obtain ⟨head, c', ran, rfl, start⟩ := ends_atProductionHead c
  exact ⟨head, ran, start⟩

theorem inGarbage_ran {head : Bool} (ran : atProductionHead c = .ok (head, c)) :
    inGarbage c = .ok (!c.rest.isEmpty && !head, c) := by
  have ends : Ends inGarbage c fun go c' => go = (!c.rest.isEmpty && !head) ∧ c' = c := by
    rw [inGarbage, ends_atEnd]
    cases c.rest.isEmpty with
    | true => exact (ends_pure _).mpr ⟨rfl, rfl⟩
    | false =>
      rw [if_neg Bool.false_ne_true, ends_ran ran, ends_pure]
      exact ⟨rfl, rfl⟩
  obtain ⟨_, _, ran, rfl, rfl⟩ := ends
  exact ran

theorem looks_inGarbage (c : Cursor) : ∃ go, inGarbage c = .ok (go, c) ∧ (go = true → c.rest ≠ []) := by
  obtain ⟨head, ran, -⟩ := atProductionHead_ran c
  refine ⟨_, inGarbage_ran ran, fun go nothing => ?_⟩
  rw [nothing] at go
  cases go

theorem ends_garbage (nonempty : c.rest ≠ []) (ran : atProductionHead c = .ok (false, c)) :
    Ends garbage c fun _ c' => Onward c c' ∧ c'.rest.length < c.rest.length := by
  have first : inGarbage c = .ok (true, c) := by
    rw [inGarbage_ran ran]
    cases here : c.rest with
    | nil => exact absurd here nonempty
    | cons => rfl
  rw [garbage, ends_here, ends_steps]
  refine (ends_skipItems looks_inGarbage true (Nat.lt_succ_self _) _).bind fun stop c₁ ⟨onward, less⟩ => ?_
  rw [ends_report_last]
  exact ⟨After.report onward, less first⟩

theorem total_terminate : Total true terminate := by
  intro c
  have missing {c₁ : Cursor} (onward : Onward c c₁) : Ends (do
      let place ← tokenEnd
      report .missingSemicolon place place "missing `;` at the end of the production") c₁ fun _ c' => Onward c c' := by
    rw [ends_tokenEnd, ends_report_last]
    exact After.report onward
  obtain ⟨go, ran, -⟩ := looks_inGarbage c
  rw [terminate, ends_eat]
  split
  · exact (ends_pure _).mpr (onward_forward c _)
  · rw [if_neg Bool.false_ne_true, ends_ran ran]
    cases go with
    | false => exact missing (.refl c)
    | true =>
      rw [if_pos rfl, ends_here]
      dsimp only
      rw [ends_steps]
      refine (ends_skipItems ?_ false (Nat.lt_succ_self _) _).bind fun stop c₁ ⟨onward, _⟩ => ?_
      · intro c
        have ends : Ends (do if (← peek) == some ';' then return false else inGarbage) c fun go c' =>
            (go = true → c.rest ≠ []) ∧ c' = c := by
          rw [ends_peek]
          split
          · exact (ends_pure _).mpr ⟨nofun, rfl⟩
          · obtain ⟨go, ran, present⟩ := looks_inGarbage c
            exact ⟨go, c, ran, present, rfl⟩
        obtain ⟨go, _, ran, present, rfl⟩ := ends
        exact ⟨go, ran, present⟩
      · rw [ends_report, ends_eat]
        split
        · exact (ends_pure _).mpr (Onward.trans (After.report onward) (onward_forward _ _))
        · exact missing (After.report onward)

theorem writable_rightHand {ps : List Phrase} (each : ∀ p ∈ ps, p.Writable) : (Builder.rightHand ps).Writable := by
  cases ps with
  | nil => exact .terminal trivial
  | cons p rest => exact Phrase.writable_joined (List.cons_ne_nil _ _) each fun several => .sequence several each

/-- A production is read to its end and defined, whatever stands behind its name. -/
theorem ends_production (outlines : c.builder.Outlines definitions) : Ends production c fun _ c' =>
    c'.marks = c.marks ∧ c'.rest.length ≤ c.rest.length ∧
      ∃ name p, c'.builder.Outlines (definitions ++ [(name, p)]) ∧ p.Writable ∧
        ∀ {first rest}, c.rest = first :: rest → isNameStart first = true →
          IsName name ∧ c'.rest.length < c.rest.length := by
  obtain ⟨found, c₁, ran, after, named, less⟩ := tries_identifier c
  rw [production, ends_here, ends_ran ran]
  refine (total_spacing c₁).bind fun _ c₂ blank => ?_
  refine (total_assignment c₂).bind fun _ c₃ sign => ?_
  refine (total_spacing c₃).bind fun _ c₄ blank' => ?_
  have behind : Onward c₁ c₄ := Onward.trans blank (sign.onward.trans blank')
  have onward : Onward c c₄ := after.onward.trans behind
  obtain ⟨b₁, started, begun⟩ := outlines.begin (found.getD "")
  rw [← onward.builder] at started
  rw [ends_build started, ends_steps]
  refine (reader_expression _ { c₄ with builder := b₁ } begun.opened (Nat.lt_succ_self _)).bind
    fun found' c₅ ⟨⟨ps, grows, _⟩, rest, _⟩ => ?_
  have finish {c₆ : Cursor} (onward₆ : Onward c₅ c₆) : Ends (do
      terminate
      build (.setProductionSpan ⟨c.position, ← here⟩)
      build .endProduction) c₆ fun _ c' => c'.marks = c.marks ∧ c'.rest.length ≤ c.rest.length ∧
        ∃ name p, c'.builder.Outlines (definitions ++ [(name, p)]) ∧ p.Writable ∧
          ∀ {first rest}, c.rest = first :: rest → isNameStart first = true →
            IsName name ∧ c'.rest.length < c.rest.length := by
    refine (total_terminate c₆).bind fun _ c₇ after₇ => ?_
    have onward₇ := onward₆.trans after₇
    have grows := grows.onward onward₇
    rw [ends_here]
    refine (grows.build (grows.ext.setProductionSpan begun.opened _) rfl grows.writable).bind
      fun _ c₈ ⟨grows, same⟩ => ?_
    obtain ⟨b₂, ended, outlines'⟩ := outlines.finish begun grows.ext grows.balanced
    rw [ends_last, ends_build ended, ends_pure]
    have shorter : c₈.rest.length ≤ c₁.rest.length := by
      rw [same]
      exact Nat.le_trans onward₇.rest (Nat.le_trans rest behind.rest)
    refine ⟨grows.marks.trans onward.marks, Nat.le_trans shorter after.onward.rest, _, _, outlines',
      writable_rightHand grows.writable, fun here start => ?_⟩
    cases ran.symm.trans (identifier_ran here start)
    exact ⟨named _ rfl, Nat.lt_of_le_of_lt shorter (less rfl)⟩
  rw [ends_peek]
  split
  · rw [ends_here, ends_report]
    exact finish (After.refl true c₅).report
  · exact finish (.refl c₅)

/-- The definitions have names and right-hand sides that can be written. -/
def AllWritable (definitions : List (String × Phrase)) : Prop := ∀ d ∈ definitions, IsName d.1 ∧ d.2.Writable

/-- Productions are read to the end of the text. -/
theorem ends_productions {limit : Nat} (enough : c.rest.length < limit) (outlines : c.builder.Outlines definitions)
    (writable : AllWritable definitions) : Ends (productions limit) c fun _ c' => c'.marks = c.marks ∧
      ∃ definitions', c'.builder.Outlines definitions' ∧ AllWritable definitions' := by
  induction limit generalizing c definitions with
  | zero => omega
  | succ limit ih =>
    rw [productions, ends_atEnd]
    cases here : c.rest with
    | nil => exact (ends_pure _).mpr ⟨rfl, definitions, outlines, writable⟩
    | cons first rest =>
      obtain ⟨head, ran, start⟩ := atProductionHead_ran c
      rw [List.isEmpty_cons, if_neg Bool.false_ne_true, ends_ran ran]
      cases head with
      | true =>
        obtain ⟨first, rest, here, start⟩ := start rfl
        rw [if_pos rfl]
        refine (ends_production outlines).bind fun _ c₁ ⟨marks, _, name, p, outlines', writable', head⟩ => ?_
        obtain ⟨named, less⟩ := head here start
        refine (total_spacing c₁).bind fun _ c₂ blank => ?_
        have := blank.onward.rest
        refine Ends.bind (ih (by omega) (blank.onward.builder ▸ outlines') ?_) fun count c₃ ⟨marks', outlines⟩ =>
          (ends_pure _).mpr ⟨marks'.trans (blank.onward.marks.trans marks), outlines⟩
        intro d member
        rcases List.mem_append.mp member with member | member
        · exact writable d member
        · rw [List.mem_singleton.mp member]
          exact ⟨named, writable'⟩
      | false =>
        rw [if_neg Bool.false_ne_true]
        refine (ends_garbage (by simp [here]) ran).bind fun _ c₁ ⟨onward, less⟩ => ?_
        refine (total_spacing c₁).bind fun _ c₂ blank => ?_
        have := blank.onward.rest
        have onward := onward.trans blank
        refine (ih (by omega) (onward.builder ▸ outlines) writable).mono fun _ c₃ ⟨marks, outlines⟩ => ?_
        exact ⟨marks.trans onward.marks, outlines⟩

theorem ends_grammar (outlines : c.builder.Outlines []) : Ends grammar c fun _ c' => c'.marks = c.marks ∧
    ∃ definitions, c'.builder.Outlines definitions ∧ AllWritable definitions := by
  have nothing : AllWritable [] := by
    intro d member
    cases member
  refine (total_spacing c).bind fun _ c₁ blank => ?_
  rw [ends_steps]
  refine (ends_productions (Nat.lt_succ_self _) (blank.onward.builder ▸ outlines) nothing).bind
    fun count c₂ ⟨marks, outlines⟩ => ?_
  have marks := marks.trans blank.onward.marks
  split
  · rw [ends_here, ends_report_last]
    exact ⟨marks, outlines⟩
  · exact (ends_pure _).mpr ⟨marks, outlines⟩

/-- How the reading of productions goes on. -/
inductive Round : Nat → Cursor → Nat → Cursor → Prop
  | ended {limit : Nat} {c : Cursor} (nothing : c.rest = []) : Round limit c 0 c
  | production {limit count : Nat} {c c₁ d : Cursor} (head : atProductionHead c = .ok (true, c))
      (first : production c = .ok ((), c₁)) (rest : (do spacing; productions limit) c₁ = .ok (count, d)) :
      Round (limit + 1) c (count + 1) d
  | garbage {limit count : Nat} {c d : Cursor} (more : c.rest ≠ []) (other : atProductionHead c = .ok (false, c))
      (rest : (do garbage; spacing; productions limit) c = .ok (count, d)) : Round (limit + 1) c count d

theorem round_of_ran {limit count : Nat} {d : Cursor} (ran : productions limit c = .ok (count, d)) : Round limit c count d := by
  cases limit with
  | zero => cases ran
  | succ limit =>
    obtain ⟨ended, _, ⟨⟩, ran⟩ := bind_eq_ok.mp ran
    cases here : c.rest with
    | nil =>
      rw [here] at ran
      cases ran
      exact .ended here
    | cons first rest =>
      rw [here] at ran
      obtain ⟨head, same, -⟩ := atProductionHead_ran c
      obtain ⟨_, _, same', ran⟩ := bind_eq_ok.mp ran
      cases same.symm.trans same'
      cases head with
      | false => exact .garbage (by simp [here]) same ran
      | true =>
        obtain ⟨_, c₁, first, ran⟩ := bind_eq_ok.mp ran
        obtain ⟨_, c₂, second, ran⟩ := bind_eq_ok.mp ran
        obtain ⟨count, _, ran, ⟨⟩⟩ := bind_eq_ok.mp ran
        exact .production same first (bind_eq_ok.mpr ⟨_, c₂, second, ran⟩)

/-- What the loop over productions reads between blanks: a production, or what begins none. -/
inductive Passes (c c' : Cursor) : Prop
  | production (head : atProductionHead c = .ok (true, c)) (read : production c = .ok ((), c'))
  | garbage (more : c.rest ≠ []) (other : atProductionHead c = .ok (false, c)) (passed : garbage c = .ok ((), c'))

/-- A course of the loop from one cursor to another. `met` are the cursors in front of and behind what it reads. -/
inductive Course : Cursor → (met : List Cursor) → Cursor → Prop
  | nil (c : Cursor) : Course c [] c
  | cons {c c' next last : Cursor} {met : List Cursor} (passes : Passes c c') (blank : spacing c' = .ok ((), next))
      (rest : Course next met last) : Course c (c :: c' :: met) last

theorem exists_course {limit count : Nat} {last : Cursor} (ran : productions limit c = .ok (count, last)) :
    ∃ met, Course c met last ∧ last.rest = [] := by
  induction limit generalizing c count with
  | zero => cases ran
  | succ limit ih =>
    cases round_of_ran ran with
    | ended nothing => exact ⟨[], .nil _, nothing⟩
    | production head read rest =>
      obtain ⟨_, next, blank, ran⟩ := bind_eq_ok.mp rest
      obtain ⟨met, course, done⟩ := ih ran
      exact ⟨_, .cons (.production head read) blank course, done⟩
    | garbage more other rest =>
      obtain ⟨_, c₁, passed, rest⟩ := bind_eq_ok.mp rest
      obtain ⟨_, next, blank, ran⟩ := bind_eq_ok.mp rest
      obtain ⟨met, course, done⟩ := ih ran
      exact ⟨_, .cons (.garbage more other passed) blank course, done⟩

/-- A run over a whole text is a course to its end behind the first blanks, and then at most a problem. -/
theorem exists_course_of_grammar (ran : grammar c = .ok ((), c')) : ∃ first met last problems,
    spacing c = .ok ((), first) ∧ Course first met last ∧ last.rest = [] ∧ c' = { last with problems } := by
  obtain ⟨_, first, blank, ran⟩ := bind_eq_ok.mp ran
  obtain ⟨_, _, ⟨⟩, ran⟩ := bind_eq_ok.mp ran
  obtain ⟨count, last, ran', ran⟩ := bind_eq_ok.mp ran
  obtain ⟨met, course, done⟩ := exists_course ran'
  split at ran
  · obtain ⟨_, _, ⟨⟩, ran⟩ := bind_eq_ok.mp ran
    cases ran
    exact ⟨first, met, _, _, blank, course, done, rfl⟩
  · cases ran
    exact ⟨first, met, _, _, blank, course, done, rfl⟩

end Read

namespace Grammar

variable {g : Grammar} {problems : Problems} {i index index' : Nat}

/-- The node is reached from the root of this production. -/
inductive Reaches (g : Grammar) (index : Nat) : Nat → Prop
  | root {i : Nat} (defined : g.root? index = some i) : Reaches g index i
  | part {i child : Nat} {node : Node} (reached : Reaches g index i) (present : g.nodes[i]? = some node)
      (member : child ∈ node.expr.children) : Reaches g index child

theorem Rooted.reaches (rooted : g.Rooted i) : ∃ index, g.Reaches index i := by
  induction rooted with
  | @root index _ defined => exact ⟨index, .root defined⟩
  | part _ present member ih =>
    obtain ⟨index, reached⟩ := ih
    exact ⟨index, .part reached present member⟩

/-- What is reached from a root is owned by its production. -/
theorem Reaches.owner (wellFormed : g.WellFormed) (reached : g.Reaches index i) :
    ∃ node, g.nodes[i]? = some node ∧ node.owner = index := by
  induction reached with
  | root defined =>
    obtain ⟨p, found, rfl⟩ := Option.map_eq_some_iff.mp defined
    obtain ⟨node, present, -, owned⟩ := wellFormed.root found
    exact ⟨node, present, owned⟩
  | part _ present member ih =>
    obtain ⟨node, present', owned⟩ := ih
    cases present.symm.trans present'
    obtain ⟨part, inside, -, same⟩ := wellFormed.part present member
    exact ⟨part, inside, same.trans owned⟩

theorem Reaches.unique (wellFormed : g.WellFormed) (reached : g.Reaches index i) (reached' : g.Reaches index' i) :
    index = index' := by
  obtain ⟨node, present, rfl⟩ := reached.owner wellFormed
  obtain ⟨node', present', rfl⟩ := reached'.owner wellFormed
  cases present.symm.trans present'
  rfl

end Grammar

/-- A builder with its definitions between productions gives the grammar that is read. -/
theorem readText_eq {text : String} {actions : List String} {c : Cursor} {definitions : List (String × Phrase)}
    (ran : Read.grammar (Cursor.ofString text ((Builder.empty.withActions actions).setSource text)) = .ok ((), c))
    (outlines : c.builder.Outlines definitions) :
    readText text actions = .ok { c.builder.assembled.injectUndo.2 with problems := Problems.sort c.problems } := by
  unfold readText
  change (Read.grammar _ >>= _) = _
  rw [ran]
  change (c.builder.build.mapError _ >>= _) = _
  rw [outlines.balanced.sound.build_eq outlines.idle]
  rfl

/-- Every text is read without an error, into productions that can be written. -/
theorem exists_readText (text : String) (actions : List String) :
    ∃ (b : Builder) (definitions : List (String × Phrase)) (problems : Problems), b.Outlines definitions ∧
      Read.AllWritable definitions ∧ readText text actions = .ok { b.assembled.injectUndo.2 with problems } := by
  obtain ⟨_, c, ran, -, definitions, outlines, writable⟩ :=
    Read.ends_grammar (c := Cursor.ofString text ((Builder.empty.withActions actions).setSource text))
      (Builder.outlines_empty actions text)
  exact ⟨c.builder, definitions, _, outlines, writable, readText_eq ran outlines⟩

/-- A cursor between two productions: no mark is outstanding. -/
structure Cursor.Settled (c : Cursor) : Prop where
  marks : c.marks = []
  balanced : c.builder.Balanced
  idle : c.builder.current = none
  stack : c.builder.stack = .empty
  arenaMarks : c.builder.arenaMarks = []

namespace Cursor.Settled

variable {c c' : Cursor}

theorem of_outlines {definitions : List (String × Phrase)} (marks : c.marks = [])
    (outlines : c.builder.Outlines definitions) : c.Settled := by
  have sound := outlines.balanced.sound
  have bare := sound.idle outlines.idle
  refine ⟨marks, outlines.balanced, outlines.idle, bare, ?_⟩
  rw [← List.length_eq_zero_iff, sound.aligned, bare]
  rfl

theorem onward (settled : c.Settled) (onward : Read.Onward c c') : c'.Settled := by
  obtain ⟨marks, balanced, idle, stack, arenaMarks⟩ := settled
  rw [← onward.builder] at balanced idle stack arenaMarks
  exact ⟨onward.marks.trans marks, balanced, idle, stack, arenaMarks⟩

theorem spacing (settled : c.Settled) : Read.Ends Read.spacing c fun _ c' => c'.Settled :=
  (Read.total_spacing c).mono fun _ _ blank => settled.onward blank.onward

theorem production (settled : c.Settled) : Read.Ends Read.production c fun _ c' => c'.Settled := by
  obtain ⟨definitions, outlines⟩ := settled.balanced.exists_outlines settled.idle
  exact (Read.ends_production outlines).mono fun _ c' ⟨marks, _, _, _, outlines', _⟩ =>
    .of_outlines (marks.trans settled.marks) outlines'

theorem passes (settled : c.Settled) (passes : Read.Passes c c') : c'.Settled := by
  cases passes with
  | production _ read => exact settled.production.of_ran read
  | garbage more other passed =>
    obtain ⟨onward, -⟩ := (Read.ends_garbage more other).of_ran passed
    exact settled.onward onward

end Cursor.Settled

/-- From a cursor between two productions, a course only meets such cursors. -/
theorem Read.Course.settled {c last : Cursor} {met : List Cursor} (course : Read.Course c met last)
    (settled : c.Settled) : (∀ d ∈ met, d.Settled) ∧ last.Settled := by
  induction course with
  | nil => exact ⟨List.forall_mem_nil _, settled⟩
  | cons passes blank _ ih =>
    have settled' := settled.passes passes
    obtain ⟨each, last⟩ := ih (settled'.spacing.of_ran blank)
    exact ⟨List.forall_mem_cons.mpr ⟨settled, List.forall_mem_cons.mpr ⟨settled', each⟩⟩, last⟩

/-- Where the reading of a text begins. -/
abbrev Cursor.start (text : String) (actions : List String) : Cursor :=
  .ofString text ((Builder.empty.withActions actions).setSource text)

/-- Reading starts between productions, and a production read from such a place ends at one. So all places that a run
over a text comes to between its productions are such places, and so is the last one. Every text has a grammar, which
compiles, is well formed, and has no node that is not reached from exactly one production. -/
theorem readText_total (text : String) (actions : List String) :
    (Cursor.start text actions).Settled ∧
      (∀ c : Cursor, c.Settled → ∃ c', Read.production c = .ok ((), c') ∧ c'.Settled) ∧
      (∃ first met last problems, Read.spacing (Cursor.start text actions) = .ok ((), first) ∧
        Read.Course first met last ∧ last.rest = [] ∧ (∀ c ∈ met, c.Settled) ∧ last.Settled ∧
        Read.grammar (Cursor.start text actions) = .ok ((), { last with problems })) ∧
      ∃ g, readText text actions = .ok g ∧ (∀ o, compileText text actions o = .ok (g.compile o)) ∧
        g.WellFormed ∧ ∀ i < g.nodes.size, ∃! index, g.Reaches index i := by
  have start : (Cursor.start text actions).Settled := .of_outlines rfl (Builder.outlines_empty actions text)
  refine ⟨start, fun c settled => ?_, ?_, ?_⟩
  · obtain ⟨_, c', ran, settled'⟩ := settled.production
    exact ⟨c', ran, settled'⟩
  · obtain ⟨_, c, ran, -⟩ := Read.ends_grammar (c := .start text actions) (Builder.outlines_empty actions text)
    obtain ⟨first, met, last, problems, blank, course, done, rfl⟩ := Read.exists_course_of_grammar ran
    obtain ⟨each, settled⟩ := course.settled (start.spacing.of_ran blank)
    exact ⟨first, met, last, problems, blank, course, done, each, settled, ran⟩
  · obtain ⟨b, definitions, problems, outlines, -, read⟩ := exists_readText text actions
    have built := outlines.balanced.sound.build_eq outlines.idle
    have wellFormed := (outlines.balanced.built built).1
    refine ⟨_, read, fun o => ?_, wellFormed.with_problems, fun i small => ?_⟩
    · rw [compileText, readGrammar, read]
      rfl
    · obtain ⟨index, reached⟩ := (outlines.balanced.rooted built small).with_problems.reaches
      exact ⟨index, reached, fun other reached' => reached'.unique wellFormed.with_problems reached⟩

/-- A production that breaks off inside two groups. -/
def Sample.torn : Cursor := .ofString "A : ('b' / $f(('c'" (Builder.empty.setSource "A : ('b' / $f(('c'")

theorem Sample.torn_production_settles : ∃ c', Read.production Sample.torn = .ok ((), c') ∧ c'.Settled := by
  have total := readText_total "A : ('b' / $f(('c'" []
  exact total.2.1 Sample.torn total.1

end Packrat
