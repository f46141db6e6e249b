import Packrat.Proofs.Reader.SurroundedExpressions

/-! # Productions in surroundings

A production that is read silently ends with its `;`, so it is the same production whatever stands behind. Where a
problem is reported, text is passed over up to a place that is looked for in all the text ahead. Then the readings are
compared with nothing behind: the text is the last part of the longer one.
-/

namespace Packrat

/-- A production that has begun has been begun between productions. -/
theorem Builder.begun_of_started {b b' : Builder} {name : String} (balanced : b.Balanced)
    (started : b.apply (.startProduction name) = .ok b') : b.Begun b' name := by
  obtain ⟨idle, -⟩ := Builder.of_startProduction started
  obtain ⟨definitions, outlines⟩ := balanced.exists_outlines idle
  obtain ⟨_, started', begun⟩ := outlines.begin name
  cases started.symm.trans started'
  exact begun

namespace Read

variable {α : Type} {k : Setting} {m m' : Mode} {Q : α → List Char → Prop}

section

variable (none : k.behind = [])

include none

theorem agrees_inGarbage {Q : Bool → List Char → Prop} : Agrees k m m Q inGarbage inGarbage := by
  refine (agrees_atEnd_last.whole none).next fun ended => ?_
  cases ended with
  | true => exact agrees_pure _
  | false => exact (agrees_atProductionHead.whole none).next fun head => agrees_pure _

theorem agrees_skipItem {Q : Unit → List Char → Prop} : Agrees k m m Q skipItem skipItem := by
  let next (s : List Char) : Read Unit :=
    s.casesOn (pure ()) fun c rest => if c = '\'' ∨ c = '"' then skip (1 + (stringBody c rest).length) else skip 1
  rw [skipItem_eq]
  refine @agrees_text _ _ _ _ _ next next (fun s => ?_) fun c _ _ _ _ _ => by rw [none, List.append_nil]
  cases s with
  | nil => exact agrees_pure ()
  | cons c rest =>
    dsimp only [next]
    split
    · exact (agrees_skip _).whole none
    · exact (agrees_skip 1).whole none

theorem agrees_skipItems {more : Read Bool} (looks : Agrees k m m (fun _ _ => True) more more) (reporting : Bool)
    {next next' : Position → Read α} (rest : ∀ p, Agrees k m m' Q (next p) (next' (p.shift k.front)))
    (limit limit' : Nat) (stop : Position) : Agrees k m m' Q (skipItems more reporting limit stop >>= next)
      (skipItems more reporting limit' (stop.shift k.front) >>= next') := by
  induction limit generalizing limit' stop with
  | zero => exact agrees_throw _
  | succ limit ih =>
    refine @agrees_limit _ _ _ _ _ _ (skipItems more reporting · (stop.shift k.front) >>= next') rfl
      (fun limit' => ?_) limit'
    rw [skipItems, skipItems, bind_assoc, bind_assoc]
    refine looks.next fun go => ?_
    cases go with
    | false => exact rest stop
    | true =>
      simp only [if_true, bind_assoc]
      refine (agrees_skipItem none).next fun _ => agrees_here fun stop => ?_
      exact ((agrees_skipSpacing reporting).whole none).next fun _ => ih limit' stop

theorem agrees_garbage {Q : Unit → List Char → Prop} : Agrees k m m Q garbage garbage :=
  agrees_here fun start => agrees_steps fun limit limit' => agrees_skipItems none (agrees_inGarbage none) true
    (fun stop => agrees_report (by decide)) limit limit' start

theorem agrees_terminate_last (settled : m ≠ .outside) {Q : Unit → List Char → Prop} :
    Agrees k m m Q terminate terminate := by
  have missing : Agrees k m m Q (do
      let place ← tokenEnd
      report .missingSemicolon place place "missing `;` at the end of the production") (do
      let place ← tokenEnd
      report .missingSemicolon place place "missing `;` at the end of the production") :=
    agrees_tokenEnd settled fun place => agrees_report (by decide)
  have closed : Agrees k m m (fun _ _ => True) (eat ";") (eat ";") := (agrees_eat (.inr none)).whole none
  have looks : Agrees k m m (fun _ _ => True) (do if (← peek) == some ';' then return false else inGarbage)
      (do if (← peek) == some ';' then return false else inGarbage) := by
    refine (agrees_peek_last.whole none).next fun next => ?_
    split
    · exact agrees_pure _
    · exact agrees_inGarbage none
  refine closed.next fun eaten => ?_
  cases eaten with
  | true => exact agrees_pure ()
  | false =>
    refine (agrees_inGarbage none).next fun found => ?_
    cases found with
    | false => exact missing
    | true =>
      refine agrees_here fun start => agrees_steps fun limit limit' => ?_
      refine agrees_skipItems none looks false (fun stop => agrees_reported (by decide) ?_) limit limit' start
      refine closed.next fun eaten => ?_
      cases eaten with
      | true => exact agrees_pure ()
      | false => exact missing

end

theorem terminate_closed {c : Cursor} {s : List Char} (ahead : c.rest = ';' :: s) :
    terminate c = .ok ((), c.forward 1) := by
  have closed : eat ";" c = .ok (true, c.forward 1) := by
    rw [eat_eq, ahead]
    rfl
  exact bind_eq_ok.mpr ⟨true, _, closed, rfl⟩

theorem agrees_terminate (settled : m ≠ .outside) : Agrees k m m (fun _ _ => True) terminate terminate := by
  intro c _ d ran
  have last {k : Setting} (none : k.behind = []) : Agrees k m m (fun _ _ => True) terminate terminate :=
    agrees_terminate_last none settled
  refine ⟨(last (k := { k with behind := [] }) rfl c () d ran).1, ?_⟩
  rintro (none | ⟨silent, -⟩)
  · exact (last none c () d ran).2 (.inl none)
  · intro c' _ d' related ran'
    have ahead : c.rest = ';' :: d.rest := (silently_terminate c () d ran).2.2 silent
    have ahead' : c'.rest = ';' :: (d.rest ++ k.behind) := by
      rw [related.rest, ahead]
      rfl
    cases (terminate_closed ahead).symm.trans ran
    cases (terminate_closed ahead').symm.trans ran'
    refine ⟨rfl, related.forward (.inr ?_)⟩
    rw [ahead]
    exact Nat.le_add_left ..

/-- The end of a production up to its last step. -/
def closing (start : Position) : Read Unit := do
  terminate
  build (.setProductionSpan ⟨start, ← here⟩)

theorem agrees_closing (start : Position) : Agrees k .inside .inside (fun _ _ => True)
    (closing start) (closing (start.shift k.front)) := by
  have placed (stop : Position) (draft : Draft) :
      draft.apply (.setProductionSpan ⟨start.shift k.front, stop.shift k.front⟩) =
        draft.apply (.setProductionSpan ⟨start, stop⟩) := rfl
  exact (agrees_terminate (by decide)).next fun _ => agrees_here fun stop => agrees_build rfl rfl (placed stop)

theorem silently_closing (start : Position) : Silently (closing start) fun _ before after => before = ';' :: after :=
  silently_terminate.bind fun _ => silently_here fun _ =>
    (silently_build _).mono fun _ _ _ same _ terminated => same ▸ terminated

/-- The end of a production whose expression may be missing. -/
def checking (missing : Bool) (start : Position) : Read Unit := do
  if missing then
    let place ← here
    report .syntaxError place place "expecting an expression before `;`"
  closing start

theorem agrees_checking (missing : Bool) (start : Position) : Agrees k .inside .inside (fun _ _ => True)
    (checking missing start) (checking missing (start.shift k.front)) := by
  cases missing with
  | true => exact agrees_here fun place => agrees_reported (by decide) (agrees_closing start)
  | false => exact agrees_closing start

theorem silently_checking (missing : Bool) (start : Position) :
    Silently (checking missing start) fun _ before after => before = ';' :: after := by
  cases missing with
  | true =>
    refine silently_here fun place => silently_reported ((silently_closing start).mono ?_)
    exact fun _ _ _ _ => trivial
  | false => exact silently_closing start

/-- The expression of a production and its end. -/
def body (start : Position) : Read Unit := do
  let found ← expression (← steps)
  let next ← peek
  checking (!found && next == some ';') start

theorem agrees_checked (found : Bool) (start : Position) : Agrees k .inside .inside (fun _ _ => True)
    (do let next ← peek; checking (!found && next == some ';') start)
    (do let next ← peek; checking (!found && next == some ';') (start.shift k.front)) := by
  refine agrees_peek_last.bind (fun next => agrees_checking _ start) fun next => (silently_checking _ start).asks ?_
  rintro _ _ after rfl - -
  exact List.cons_ne_nil _ _

theorem asks_checked (found : Bool) (start : Position) :
    Asks (do let next ← peek; checking (!found && next == some ';') start) (fun _ _ => True) Closed := by
  have closed : Silently (do let next ← peek; checking (!found && next == some ';') start)
      fun _ before after => before = ';' :: after :=
    silently_peek fun next => (silently_checking _ start).mono fun _ _ _ closed _ => closed
  refine closed.asks ?_
  rintro _ _ after rfl - -
  exact ⟨List.mem_cons_self .., ';', by decide, rfl⟩

theorem agrees_body (start : Position) : Agrees k .inside .inside (fun _ _ => True)
    (body start) (body (start.shift k.front)) :=
  agrees_steps fun limit limit' => (agrees_expression limit limit').bind (fun found => agrees_checked found start)
    fun found => asks_checked found start

theorem asks_body (start : Position) : Asks (body start) (fun _ _ => True) (';' ∈ ·) := by
  intro c
  refine (agrees_expression (k := ⟨[], [], []⟩) _ 0).asks (fun found => agrees_checked found start)
    (fun found => asks_checked found start) (asks_stops _ fun _ _ closed => closed.1) c

/-- What is read of a production leaves no mark behind. -/
theorem ends_body {c : Cursor} (opened : c.builder.Open) (start : Position) : Ends (body start) c fun _ d =>
    d.builder.arenaMarks = c.builder.arenaMarks := by
  rw [body, ends_steps]
  refine (reader_expression _ c opened (Nat.lt_succ_self _)).bind fun found c₁ ⟨⟨ps, grows, _⟩, _, _⟩ => ?_
  have closes {c₂ : Cursor} (onward : Onward c₁ c₂) : Ends (closing start) c₂ fun _ d =>
      d.builder.arenaMarks = c.builder.arenaMarks := by
    refine (total_terminate c₂).bind fun _ c₃ after => ?_
    have grows := grows.onward (onward.trans after)
    rw [ends_here]
    refine (grows.build (grows.ext.setProductionSpan opened _) rfl grows.writable).mono fun _ d ⟨grows, _⟩ => ?_
    exact grows.ext.arenaMarks
  rw [ends_peek]
  generalize (!found && c₁.rest.head? == some ';') = missing
  cases missing with
  | true =>
    rw [checking, if_pos rfl, ends_here, ends_report]
    exact closes (After.refl true c₁).report
  | false => exact closes (.refl c₁)

/-- A production from behind its assignment on, up to its last step. -/
def opening (name : String) (start : Position) : Read Unit := do
  build (.startProduction name)
  body start

theorem agrees_startProduction (name : String) : Agrees k .settled .inside (fun _ _ => True)
    (build (.startProduction name)) (build (.startProduction name)) := by
  intro c _ d ran
  obtain ⟨builder, applied, rfl⟩ := build_eq ran
  refine ⟨⟨rfl, Nat.le_refl _, [], rfl, rfl⟩, fun _ c' _ d' related ran' => ⟨rfl, ?_⟩⟩
  obtain ⟨builder', applied', rfl⟩ := build_eq ran'
  have kept : Builder.Step.startProduction name ≠ .clear := by rintro ⟨⟩
  have alike := related.alike.apply (fun _ => rfl) kept rfl rfl applied applied'
  obtain ⟨draft, holds, -⟩ := related.alike
  obtain ⟨owner, current⟩ := (Builder.begun_of_started holds.balanced applied).opened.current
  exact { related with
    alike
    tokenEnd := fun _ => related.tokenEnd (by decide)
    current := fun _ => Option.isSome_of_eq_some current }

theorem agrees_opening (name : String) (start : Position) : Agrees k .settled .inside (fun _ _ => True)
    (opening name start) (opening name (start.shift k.front)) :=
  (agrees_startProduction name).next fun _ => agrees_body start

theorem asks_opening (name : String) (start : Position) : Asks (opening name start) (fun _ _ => True) (';' ∈ ·) :=
  (agrees_startProduction (k := ⟨[], [], []⟩) name).asks (fun _ => agrees_body start) (fun _ => asks_body start)
    (asks_stops _ fun _ _ stops => stops)

/-- Where a production ends, the mark it began with is left alone. -/
theorem marks_opening {c d : Cursor} {name : String} {start : Position} {u : Unit} (balanced : c.builder.Balanced)
    (ran : opening name start c = .ok (u, d)) : d.builder.arenaMarks.length ≤ 1 := by
  obtain ⟨_, c₁, ran₁, ran₂⟩ := bind_eq_ok.mp ran
  obtain ⟨builder, applied, rfl⟩ := build_eq ran₁
  have begun := Builder.begun_of_started balanced applied
  obtain ⟨_, _, ran₂', marks⟩ := ends_body (c := { c with builder }) begun.opened start
  cases ran₂.symm.trans ran₂'
  rw [marks, begun.arenaMarks]

/-- A production from behind its assignment on. -/
def definition (name : String) (start : Position) : Read Unit := do
  opening name start
  build .endProduction

theorem agrees_definition (name : String) (start : Position) : Agrees k .settled .outside (fun _ _ => True)
    (definition name start) (definition name (start.shift k.front)) := by
  intro c _ d ran
  obtain ⟨_, c₁, ran₁, ran₂⟩ := bind_eq_ok.mp ran
  obtain ⟨advances, follows⟩ := agrees_opening (k := k) name start c () c₁ ran₁
  obtain ⟨builder, applied, rfl⟩ := build_eq ran₂
  refine ⟨⟨advances.marks, advances.problems, advances.taken⟩, fun told c' _ d' related ran' => ⟨rfl, ?_⟩⟩
  obtain ⟨_, c₁', ran₁', ran₂'⟩ := bind_eq_ok.mp ran'
  obtain ⟨-, related₁⟩ := follows told c' () c₁' related ran₁'
  obtain ⟨builder', applied', rfl⟩ := build_eq ran₂'
  obtain ⟨draft, holds, -⟩ := related.alike
  have closed : c₁.builder.arenaMarks.length ≤ 1 := marks_opening holds.balanced ran₁
  have closed' : c₁'.builder.arenaMarks.length ≤ 1 := related₁.alike.marks ▸ closed
  have kept : Builder.Step.endProduction ≠ .clear := by rintro ⟨⟩
  have alike := related₁.alike.apply (fun _ => rfl) kept (decide_eq_true closed) (decide_eq_true closed') applied
    applied'
  exact { related₁.outside with alike, current := nofun }

theorem asks_definition (name : String) (start : Position) :
    Asks (definition name start) (fun _ _ => True) (';' ∈ ·) := by
  intro c _ d ran _ silent _
  obtain ⟨_, c₁, ran₁, ran₂⟩ := bind_eq_ok.mp ran
  obtain ⟨builder, -, rfl⟩ := build_eq ran₂
  have advances := (agrees_opening (k := ⟨[], [], []⟩) name start c () c₁ ran₁).1
  exact asks_opening name start c () c₁ ran₁ advances silent trivial

/-- The name of a production and its assignment. -/
def heading : Read (Option String) := do
  let name ← identifier
  spacing
  let _ ← assignment
  spacing
  return name

theorem agrees_heading : Agrees k .outside .settled Stops heading heading := by
  have spaced : Agrees k .outside .settled Stops spacing spacing := agrees_spacing (by decide)
  refine agrees_identifier.onward fun name => spaced.onward fun _ => agrees_assignment.onward fun _ => ?_
  exact (agrees_spacing (by decide)).onward fun _ => agrees_pure _

theorem production_eq : production = (do
    let start ← here
    let name ← heading
    definition (name.getD "") start) := by
  simp only [production, heading, definition, opening, body, checking, closing, bind_assoc, pure_bind]
  congr! 19
  split <;> simp only [bind_assoc]

/-- A production that is read silently is the same whatever stands behind its end. -/
theorem agrees_production : Agrees k .outside .outside (fun _ _ => True) production production := by
  rw [production_eq]
  exact agrees_here fun start => agrees_heading.bind (fun name => agrees_definition _ start)
    fun name => asks_definition _ start

theorem asks_production : Asks production (fun _ _ => True) (';' ∈ ·) := by
  have defined (start : Position) : Asks (do let name ← heading; definition (name.getD "") start)
      (fun _ _ => True) (';' ∈ ·) :=
    (agrees_heading (k := ⟨[], [], []⟩)).asks (fun name => agrees_definition _ start)
      (fun name => asks_definition _ start) (asks_stops _ fun _ _ stops => stops)
  rw [production_eq]
  exact fun c => defined c.position c

/-- With nothing behind, productions are read to the end of both texts. -/
theorem agrees_productions (none : k.behind = []) (limit limit' : Nat) {Q : Nat → List Char → Prop} :
    Agrees k .outside .outside Q (productions limit) (productions limit') := by
  induction limit generalizing limit' with
  | zero => exact agrees_throw _
  | succ limit ih =>
    have spaced : Agrees k .outside .outside (fun _ _ => True) spacing spacing :=
      (agrees_spacing (by decide)).whole none
    refine agrees_limit rfl (fun limit' => ?_) limit'
    refine (agrees_atEnd_last.whole none).next fun ended => ?_
    cases ended with
    | true => exact agrees_pure _
    | false =>
      refine (agrees_atProductionHead.whole none).next fun head => ?_
      cases head with
      | true =>
        refine agrees_production.next fun _ => spaced.next fun _ => ?_
        exact ((ih limit').whole none).next fun count => agrees_pure _
      | false => exact (agrees_garbage none).next fun _ => spaced.next fun _ => ih limit'

end Read

end Packrat
