import Packrat.Proofs.Reader.Acceptance
import Packrat.Proofs.Reader.SurroundedTokens

/-! # Expressions in surroundings

An expression that has been read silently is read in a longer text as it is read alone. Three kinds of readers look
further than they read: a name may begin the next production, a string may begin an interval, and an expression ends
where no operand follows. In each case the text alone tells what stands there, up to the end of the production.
-/

namespace Packrat

namespace Documented

variable {d : Dialect} {quote : Char} {before after : List Char}

section Behind

theorem Item.append (item : Item quote before after) (more : List Char) :
    Item quote (before ++ more) (after ++ more) := by
  cases item with
  | plain within online unescaped => exact .plain within online unescaped _
  | letter known => exact .letter known _
  | code four hexadecimal scalar =>
    rw [List.cons_append, List.cons_append, List.append_assoc]
    exact .code four hexadecimal scalar _

theorem Items.append (items : Items quote before after) (more : List Char) :
    Items quote (before ++ more) (after ++ more) := by
  induction items with
  | none => exact .none _
  | more first _ ih => exact .more (first.append more) ih

theorem Quoted.append (quoted : Quoted quote before after) (more : List Char) :
    Quoted quote (before ++ more) (after ++ more) := by
  obtain ⟨items⟩ := quoted
  exact .quoted (items.append more)

/-- Only the last line of a text can end a comment. -/
theorem Blank.append (blank : Blank before after) (some : after ≠ []) (more : List Char) :
    Blank (before ++ more) (after ++ more) := by
  cases blank with
  | blank white => exact .blank white _
  | line inside =>
    rw [List.cons_append, List.cons_append, List.append_assoc]
    exact .line inside _
  | lastLine => exact absurd rfl some
  | block inside =>
    rw [List.cons_append, List.cons_append, List.append_assoc]
    exact .block inside _

theorem Spacing.append (blanks : Spacing before after) (some : after ≠ []) (more : List Char) :
    Spacing (before ++ more) (after ++ more) := by
  induction blanks with
  | none => exact .none _
  | more first rest ih =>
    refine .more (first.append ?_ more) (ih some)
    rintro rfl
    exact some (Read.spacing_of_solid rest Read.solid_nil)

theorem Name.append (name : Name before after) (some : after ≠ []) (more : List Char) :
    Name (before ++ more) (after ++ more) := by
  obtain ⟨start, parts, ends⟩ := name
  rw [List.cons_append, List.append_assoc]
  refine .name start parts ?_
  rw [List.head?_append_of_ne_nil _ some]
  exact ends

end Behind

end Documented

namespace Read

open Documented

variable {k : Setting} {m m' : Mode} {before after : List Char}

theorem Solid.append {s : List Char} (solid : Solid s) (stops : ';' ∈ s) (more : List Char) : Solid (s ++ more) := by
  rcases s with _ | ⟨first, _ | ⟨second, rest⟩⟩
  · cases stops
  · obtain rfl := List.mem_singleton.mp stops
    exact solid_sign (by decide) (by decide) more
  · exact ⟨solid.blank, fun tail same => solid.line rest (by cases same; rfl),
      fun tail same => solid.block rest (by cases same; rfl)⟩

theorem AtHead.append {s : List Char} (head : AtHead s) (more : List Char) : AtHead (s ++ more) := by
  obtain ⟨named, sign, after, name, known, blanks⟩ := head
  have some : sign ++ after ≠ [] := by
    rcases mem_assignments.mp known with rfl | rfl | rfl | rfl <;> exact List.cons_ne_nil _ _
  have apart : named ≠ [] := by
    rintro rfl
    exact some (spacing_of_solid blanks solid_nil)
  have blanks := blanks.append some more
  rw [List.append_assoc] at blanks
  exact ⟨named ++ more, sign, after ++ more, name.append apart more, known, blanks⟩

/-- A name with something else than an assignment behind it does not begin a production in the longer text. -/
theorem atHead_of_append {named : List Char} (name : Name before named) (blanks : Spacing named after)
    (solid : Solid after) (stops : ';' ∈ after) {more : List Char} (head : AtHead (before ++ more)) :
    AtHead before := by
  obtain ⟨named', sign, rest, name', known, blanks'⟩ := head
  have some := List.ne_nil_of_mem stops
  have apart : named ≠ [] := by
    rintro rfl
    exact some (spacing_of_solid blanks solid_nil)
  obtain rfl := name_unique (name.append apart more) name'
  have same := spacing_unique (blanks.append some more) (solid.append stops more) blanks' (solid_assignment known rest)
  have other : ';' ∉ sign := by
    rcases mem_assignments.mp known with rfl | rfl | rfl | rfl <;> decide
  obtain ⟨rest', rfl⟩ := (prefix_append other stops more).mp ⟨rest, same.symm⟩
  exact ⟨named, sign, rest', name, known, blanks⟩

/-- What is left is the end of a production. -/
structure Before (signs : List Char) (s : List Char) : Prop where
  stops : ';' ∈ s
  next : ∃ c ∈ signs, s.head? = some c

/-- An operand cannot begin here. -/
abbrev Ended : List Char → Prop := Before ['/', '|', ')', ';']

/-- Neither can another alternative. -/
abbrev Closed : List Char → Prop := Before [')', ';']

theorem Before.mono {signs signs' s : List Char} (before : Before signs s) (more : signs ⊆ signs') :
    Before signs' s := by
  obtain ⟨stops, c, member, first⟩ := before
  exact ⟨stops, c, more member, first⟩

theorem Before.append {signs s : List Char} (before : Before signs s) (more : List Char) :
    Before signs (s ++ more) := by
  obtain ⟨stops, c, member, first⟩ := before
  refine ⟨List.mem_append_left _ stops, c, member, ?_⟩
  rw [List.head?_append_of_ne_nil _ (List.ne_nil_of_mem stops), first]

theorem Before.head_ne {signs s : List Char} (before : Before signs s) {e : Char} (other : e ∉ signs) :
    s.head? ≠ some e := by
  obtain ⟨-, c, member, first⟩ := before
  rw [first]
  rintro ⟨⟩
  exact other member

theorem Closed.ended {s : List Char} (closed : Closed s) : Ended s := closed.mono (by decide)

/-- Behind an alternative the sequence has ended, and where none is found nothing is left of the expression. -/
def AfterAlternative (found : Bool) (s : List Char) : Prop := if found then Ended s else Closed s

theorem AfterAlternative.stops {found : Bool} {s : List Char} (after : AfterAlternative found s) : ';' ∈ s := by
  cases found with
  | true => exact Before.stops after
  | false => exact Before.stops after

section Leaves

theorem agrees_locate (start stop : Position) {Q : Unit → List Char → Prop} : Agrees k .inside .inside Q
    (locate start stop) (locate (start.shift k.front) (stop.shift k.front)) := by
  -- A draft has no places.
  have begins (draft : Draft) : draft.apply (.setStart (start.shift k.front)) = draft.apply (.setStart start) := rfl
  have ends (draft : Draft) : draft.apply (.setStop (stop.shift k.front)) = draft.apply (.setStop stop) := rfl
  exact agrees_built rfl rfl begins (agrees_build rfl rfl ends)

theorem agrees_located {α : Type} {Q : α → List Char → Prop} {start stop : Position} {next next' : Unit → Read α}
    (rest : Agrees k .inside m' Q (next ()) (next' ())) : Agrees k .inside m' Q
      (locate start stop >>= next) (locate (start.shift k.front) (stop.shift k.front) >>= next') :=
  (agrees_locate start stop).next fun _ => rest

/-- Something has been found, and the text goes on behind it. -/
abbrev Found (found : Bool) (s : List Char) : Prop := found = true ∧ ';' ∈ s

/-- What is found decides whether anything more is read. -/
theorem Agrees.found {β : Type} {first first' : Read (Option β)} {next next' : Option β → Read Bool}
    (leads : Agrees k .inside .inside (fun found s => Found found.isSome s) first first')
    (missed : next none = pure false) (missed' : next' none = pure false)
    (rest : ∀ b, Agrees k .inside .inside Found (next (some b)) (next' (some b))) :
    Agrees k .inside .inside Found (first >>= next) (first' >>= next') := by
  refine leads.bind (fun found => ?_) fun found => ?_
  · cases found with
    | none =>
      rw [missed, missed']
      exact agrees_pure _
    | some b => exact rest b
  · cases found with
    | none =>
      rw [missed]
      exact asks_pure fun _ holds => absurd holds.1 Bool.false_ne_true
    | some b => exact fun c a d _ advances _ holds => ⟨rfl, advances.mem holds.2⟩

theorem agrees_leaf (start : Position) {step : Builder.Step} (inner : step.inner = true) :
    Agrees k .inside .inside Stops (leaf start step) (leaf (start.shift k.front) step) :=
  agrees_built inner inner (fun _ => rfl) (agrees_here fun _ => agrees_located (agrees_spacing id))

/-- Behind an operand no minus sign is next, so it has not been the beginning of an interval. -/
def Operand (found : Bool) (s : List Char) : Prop := found = true ∧ ';' ∈ s ∧ s.head? ≠ some '-'

/-- A string that is read is no interval in the longer text, if no minus sign is behind it. -/
theorem undivided_of_string {middle : List Char} {opening : Char} {inner : List Char}
    (items : Items '\'' inner ('\'' :: middle)) (blanks : Spacing middle after) (solid : Solid after)
    (stops : ';' ∈ after) (apart : after.head? ≠ some '-') (more upper : List Char) :
    ¬ IsInterval (opening :: inner ++ more) upper := by
  rintro ⟨lower, behind, _, lo, blanks', -⟩
  obtain ⟨_, same⟩ := single_head lo
  obtain ⟨rfl, -⟩ := List.cons.inj same
  obtain rfl := quoted_unique (.inl rfl) ((Quoted.quoted items).append more) (quoted_of_single lo)
  have some := List.ne_nil_of_mem stops
  have same := spacing_unique (blanks.append some more) (solid.append stops more) blanks' (solid_minus behind)
  apply apart
  rw [← List.head?_append_of_ne_nil _ some, same]
  rfl

theorem agrees_token (quote : Char) :
    Agrees k .inside .inside (fun _ s => ';' ∈ s ∧ s.head? ≠ some '-') (token quote) (token quote) := by
  refine agrees_here fun start => ?_
  have string : Agrees k .inside .inside (fun _ s => ';' ∈ s ∧ s.head? ≠ some '-') (do
      let image ← quotedText quote
      leaf start (.terminal (.token (String.ofList image) (quote == '\'')))) (do
      let image ← quotedText quote
      leaf (start.shift k.front) (.terminal (.token (String.ofList image) (quote == '\'')))) :=
    ((agrees_quotedText quote).onward fun image => agrees_leaf start rfl).mono fun _ _ holds => holds.1
  have told (limit : Position) : Silently (do
      let image ← quotedText quote
      leaf limit (.terminal (.token (String.ofList image) (quote == '\'')))) fun _ before after =>
        ∃ opening inner middle, before = opening :: inner ∧ Items quote inner (quote :: middle) ∧
          Spacing middle after ∧ Solid after := by
    refine (silently_quotedText quote).bind fun image => (silently_leaf _ _).mono ?_
    rintro _ middle after ⟨blanks, solid⟩ before ⟨opening, inner, same, items, -⟩
    exact ⟨opening, inner, middle, same, items, blanks, solid⟩
  split
  · next same =>
    subst same
    refine agrees_quietInterval.bind (fun interval => ?_) fun interval => ?_
    · cases interval with
      | none => exact string
      | some interval => exact (agrees_leaf start rfl).mono fun _ _ holds => holds.1
    · cases interval with
      | none =>
        refine (told start).asks ?_
        rintro _ _ after ⟨opening, inner, middle, rfl, items, blanks, solid⟩ ⟨stops, apart⟩ sub
        exact ⟨sub stops, fun _ => undivided_of_string items blanks solid stops apart k.behind⟩
      | some interval =>
        intro c a d ran advances _ holds
        exact ⟨advances.mem holds.1, nofun⟩
  · exact string

theorem agrees_charClass : Agrees k .inside .inside Found charClass charClass := by
  have named : Agrees k .inside .inside (fun found s => Found found.isSome s) className className := by
    refine Agrees.attempt ((agrees_skip 1).onward fun _ => (agrees_skipSpacing false).onward fun _ => ?_)
    refine agrees_identifier.onward fun name => (agrees_skipSpacing false).onward fun _ => ?_
    cases name with
    | none => exact agrees_pure _
    | some name =>
      refine (agrees_eat (.inl (by decide))).onward fun closed => ?_
      cases closed <;> exact agrees_pure _
  refine agrees_here fun start => named.found rfl rfl fun name => ?_
  exact (agrees_leaf start rfl).seq (fun _ => agrees_pure _) fun _ _ holds => holds.2

end Leaves

section References

theorem agrees_atProductionHead :
    Agrees k m m (fun _ s => AtHead (s ++ k.behind) → AtHead s) atProductionHead atProductionHead := by
  intro c head d ran
  obtain ⟨_, _, same, moved, -⟩ := ends_atProductionHead c
  cases ran.symm.trans same
  obtain rfl : d = c := moved
  refine ⟨.refl d, fun told c' head' d' related ran' => ?_⟩
  obtain ⟨_, _, same', moved', -⟩ := ends_atProductionHead c'
  cases ran'.symm.trans same'
  obtain rfl : d' = c' := moved'
  refine ⟨?_, related⟩
  have here : head = true ↔ AtHead d.rest := (reads_atProductionHead d.rest d head d rfl ran).1
  have there : head' = true ↔ AtHead d'.rest := (reads_atProductionHead d'.rest d' head' d' rfl ran').1
  have iff : AtHead d'.rest ↔ AtHead d.rest := by
    rw [related.rest]
    rcases told with none | ⟨-, only⟩
    · rw [none, List.append_nil]
    · exact ⟨only, fun head => head.append k.behind⟩
  rw [Bool.eq_iff_iff, here, there, iff]

theorem agrees_reference : Agrees k .inside .inside Found reference reference := by
  have named : Agrees k .inside .inside (fun found s => Found found.isSome s) referenceName referenceName :=
    Agrees.attempt ((agrees_eat (.inl (by decide))).onward fun memo => agrees_identifier.onward fun name =>
      agrees_pure _)
  refine agrees_atProductionHead.bind (fun head => ?_) fun head => ?_
  · cases head with
    | true => exact agrees_pure _
    | false =>
      refine agrees_here fun start => named.found rfl rfl fun name => ?_
      exact (agrees_leaf start rfl).seq (fun _ => agrees_pure _) fun _ _ holds => holds.2
  · cases head with
    | true => exact asks_pure fun _ holds => absurd holds.1 Bool.false_ne_true
    | false =>
      -- What has been read is a name with no assignment behind it.
      refine Silently.asks (R := fun found before after => found = true → ∃ inner named, Name inner named ∧
        (before = inner ∨ before = '@' :: inner) ∧ Spacing named after ∧ Solid after) ?_ ?_
      · refine silently_here fun start => silently_referenceName.bind fun found => ?_
        cases found with
        | none => exact silently_pure fun _ _ _ => nofun
        | some name =>
          refine (silently_leaf _ _).bind fun _ => silently_pure ?_
          rintro after named ⟨blanks, solid⟩ before ⟨inner, name, same⟩ -
          exact ⟨inner, named, name, same, blanks, solid⟩
      · rintro _ before after read ⟨found, stops⟩ - head
        obtain ⟨inner, named, name, rfl | rfl, blanks, solid⟩ := read found
        · exact atHead_of_append name blanks solid stops head
        · -- No production begins with the sign of a remembered reference.
          obtain ⟨_, _, _, name', -⟩ := head
          obtain ⟨_, _, same, start⟩ := name_head name'
          cases same
          cases (not_nameStart_sign (by decide)).symm.trans start

end References

section Quantifiers

theorem agrees_boundNumbers : Agrees k m m Stops boundNumbers boundNumbers := by
  refine agrees_integer.onward fun first => ?_
  cases first with
  | none => exact agrees_pure _
  | some n =>
    refine (agrees_eat (.inl (by decide))).onward fun separated => ?_
    cases separated with
    | false => exact agrees_pure _
    | true =>
      refine (agrees_spacing id).onward fun _ => agrees_peek (fun next => ?_) fun _ _ stops => stops
      cases next with
      | none => exact agrees_pure _
      | some c =>
        dsimp only
        split
        · exact agrees_integer.onward fun second => agrees_pure _
        · exact agrees_pure _

theorem agrees_bounds (start : Position) :
    Agrees k .inside .inside Stops (bounds start) (bounds (start.shift k.front)) := by
  refine agrees_here fun opening => (agrees_skip 1).onward fun _ => (agrees_spacing id).onward fun _ => ?_
  refine agrees_boundNumbers.onward fun numbers => ?_
  have malformed : Agrees k .inside .inside Stops (do
      let _ ← takeWhile fun c => c != '\x7d' && c != ';' && c != '\n'
      let _ ← eat "\x7d"
      report .invalidExpression opening (← here) "malformed repetition bounds"
      spacing) (do
      let _ ← takeWhile fun c => c != '\x7d' && c != ';' && c != '\n'
      let _ ← eat "\x7d"
      report .invalidExpression (opening.shift k.front) (← here) "malformed repetition bounds"
      spacing) := by
    refine (agrees_takeWhile _).onward fun _ => (agrees_eat (.inl (by decide))).onward fun _ => ?_
    exact agrees_here fun stop => agrees_reported (by decide) (agrees_spacing id)
  cases numbers with
  | none => exact malformed
  | some numbers =>
    obtain ⟨min, max⟩ := numbers
    refine (agrees_eat (.inl (by decide))).onward fun closed => ?_
    cases closed with
    | false => exact malformed
    | true =>
      refine agrees_here fun stop => ?_
      split
      · exact agrees_built rfl rfl (fun _ => rfl) (agrees_located (agrees_spacing id))
      · exact agrees_reported (by decide) (agrees_spacing id)

theorem agrees_suffix (start : Position) :
    Agrees k .inside .inside Stops (suffix start) (suffix (start.shift k.front)) := by
  refine agrees_peek (fun next => ?_) fun _ _ stops => stops
  cases next with
  | none => exact agrees_pure ()
  | some c =>
    dsimp only
    split
    · exact (agrees_skip 1).onward fun _ => agrees_leaf start rfl
    · split
      · exact agrees_bounds start
      · exact agrees_pure ()

/-- No quantifier begins with a minus sign. -/
theorem silently_suffix_minus (start : Position) :
    Silently (suffix start) fun _ before after => before.head? = some '-' → after = before := by
  refine silently_peek fun next => ?_
  cases next with
  | none => exact silently_pure fun _ _ _ => rfl
  | some c =>
    dsimp only
    split
    · next quantifier known =>
      refine (silently_skip 1).bind fun _ => (silently_leaf _ _).mono ?_
      rintro _ _ _ - before - first minus
      cases first.symm.trans minus
      cases known
    · split
      · next same =>
        subst same
        refine (silently_bounds start).mono ?_
        rintro _ before _ - first minus
        cases first.symm.trans minus
      · exact silently_pure fun _ _ _ => rfl

theorem agrees_lookaheadSign : Agrees k m m Stops lookaheadSign lookaheadSign := by
  refine (agrees_eat (.inl (by decide))).onward fun absent => ?_
  cases absent with
  | true => exact (agrees_spacing id).onward fun _ => agrees_pure _
  | false =>
    refine (agrees_eat (.inl (by decide))).onward fun present => ?_
    cases present with
    | true => exact (agrees_spacing id).onward fun _ => agrees_pure _
    | false => exact agrees_pure _

end Quantifiers

section Operands

theorem agrees_closeParenthesis : Agrees k .inside .inside Stops closeParenthesis closeParenthesis := by
  refine (agrees_eat (.inl (by decide))).onward fun closed => ?_
  cases closed with
  | true => exact agrees_pure ()
  | false => exact agrees_tokenEnd (by decide) fun place => agrees_report (by decide)

theorem asks_closed {α : Type} {Q : α → List Char → Prop} (stops : ∀ a s, Q a s → ';' ∈ s) {next : Unit → Read α}
    (rest : ∀ u, Silently (next u) fun _ _ _ => True) : Asks (closeParenthesis >>= next) Q Closed := by
  have told : Silently (closeParenthesis >>= next) fun _ before _ => before.head? = some ')' := by
    refine silently_closeParenthesis.bind fun u => (rest u).mono ?_
    rintro _ _ _ - before rfl
    rfl
  exact told.asks fun a before after first holds sub => ⟨sub (stops a after holds), ')', by decide, first⟩

theorem silently_spaced {α : Type} (a : α) : Silently (do spacing; return a) fun _ _ _ => True :=
  silently_spacing.bind fun _ => silently_pure fun _ _ _ => trivial

theorem operand_ended (expression : Read Bool) {c : Cursor} (ended : Ended c.rest) :
    operand expression c = .ok (false, c) := by
  obtain ⟨-, sign, member, first⟩ := ended
  refine bind_eq_ok.mpr ⟨c.position, c, rfl, bind_eq_ok.mpr ⟨some sign, c, ?_, ?_⟩⟩
  · rw [← first]
    rfl
  · have ends : ∀ d ∈ ['/', '|', ')', ';'], d ∈ signs := forall_of_all (by decide)
    have unnamed : isNameStart sign = false := not_nameStart_sign (ends sign member)
    simp only [List.mem_cons, List.not_mem_nil, or_false] at member
    rcases member with rfl | rfl | rfl | rfl
    all_goals
      change (if isNameStart _ = true then reference else pure false : Read Bool) c = _
      rw [unnamed, if_neg Bool.false_ne_true]
      rfl

/-- Where an expression has to end, no operand is found. -/
theorem unary_ended (expression : Read Bool) {c : Cursor} (ended : Ended c.rest) :
    unary expression c = .ok (false, c) := by
  have apart {text : String} {d : Char} (begins : text.toList.head? = some d) (other : d ∉ ['/', '|', ')', ';'])
      (c : Cursor) (ended : Ended c.rest) : eat text c = .ok (false, c) := by
    rw [eat_eq, if_neg]
    rw [List.isPrefixOf_iff_prefix]
    exact headed_apart begins (ended.head_ne other)
  let tried : Cursor := { c with marks := c.toPlace :: c.marks }
  have unsigned : lookaheadSign tried = .ok (none, tried) :=
    bind_eq_ok.mpr ⟨false, tried, apart (d := '!') rfl (by decide) tried ended,
      bind_eq_ok.mpr ⟨false, tried, apart (d := '&') rfl (by decide) tried ended, rfl⟩⟩
  have missed : operand expression tried = .ok (false, tried) := operand_ended expression ended
  have signed : signedOperand expression c = .ok (none, c) :=
    bind_eq_ok.mpr ⟨(), tried, rfl, bind_eq_ok.mpr ⟨none, tried,
      bind_eq_ok.mpr ⟨none, tried, unsigned, bind_eq_ok.mpr ⟨false, tried, missed, rfl⟩⟩, rfl⟩⟩
  exact bind_eq_ok.mpr ⟨c.position, c, rfl, bind_eq_ok.mpr ⟨none, c, signed, rfl⟩⟩

section

variable {expression expression' : Read Bool}
  (inner : Agrees k .inside .inside (fun _ => Closed) expression expression')

include inner

theorem agrees_grouping : Agrees k .inside .inside Found (grouping expression) (grouping expression') := by
  have body : Agrees k .inside .inside (fun _ => Closed) (do skip 1; spacing; expression)
      (do skip 1; spacing; expression') := by
    refine (agrees_skip 1).seq (fun _ => ?_) fun _ _ closed => closed.1
    exact (agrees_spacing id).seq (fun _ => inner) fun _ _ closed => closed.1
  have tried : Agrees k .inside .inside (fun found s => found = true ∧ Closed s)
      (attempt id (do skip 1; spacing; expression)) (attempt id (do skip 1; spacing; expression')) := body.attempt
  refine tried.bind (fun found => ?_) fun found => ?_
  · cases found with
    | true =>
      refine agrees_closeParenthesis.seq (fun _ => ?_) fun _ _ holds => holds.2
      exact (agrees_spacing id).seq (fun _ => agrees_pure _) fun _ _ holds => holds.2
    | false => exact agrees_pure _
  · cases found with
    | true =>
      have closed := asks_closed (Q := Found) (fun _ _ holds => holds.2) fun _ => silently_spaced true
      exact fun c a d ran advances silent holds => ⟨rfl, closed c a d ran advances silent holds⟩
    | false => exact asks_pure fun _ holds => absurd holds.1 Bool.false_ne_true

theorem agrees_action : Agrees k .inside .inside Found (action expression) (action expression') := by
  have headed : Agrees k .inside .inside (fun found s => Found found.isSome s) actionHead actionHead := by
    refine Agrees.attempt ((agrees_skip 1).onward fun _ => agrees_identifier.onward fun name => ?_)
    cases name with
    | none => exact agrees_pure _
    | some name =>
      refine (agrees_skipSpacing false).onward fun _ => (agrees_eat (.inl (by decide))).onward fun opened => ?_
      cases opened <;> exact agrees_pure _
  let ending (name : String) (start : Position) : Read Bool := do
    let stop ← here
    build (.action name)
    locate start stop
    build .release
    spacing
    return true
  have ends (name : String) (start : Position) : Agrees k .inside .inside Found
      (ending name start) (ending name (start.shift k.front)) := by
    refine agrees_here fun stop => agrees_built rfl rfl (fun _ => rfl) (agrees_located ?_)
    refine agrees_built rfl rfl (fun _ => rfl) ?_
    exact (agrees_spacing id).seq (fun _ => agrees_pure _) fun _ _ holds => holds.2
  have quiet (name : String) (start : Position) : Silently (ending name start) fun _ _ _ => True :=
    silently_here fun _ => silently_built (silently_located (silently_built (silently_spaced true)))
  have body (name : String) (start : Position) : Agrees k .inside .inside Found (do
      let _ ← expression
      closeParenthesis
      ending name start) (do
      let _ ← expression'
      closeParenthesis
      ending name (start.shift k.front)) := by
    refine inner.bind (fun _ => ?_) fun _ => asks_closed (fun _ _ holds => holds.2) fun _ => quiet name start
    exact agrees_closeParenthesis.seq (fun _ => ends name start) fun _ _ holds => holds.2
  refine agrees_here fun start => headed.found rfl rfl fun name => ?_
  refine (agrees_spacing id).seq (fun _ => ?_) fun _ _ holds => holds.2
  exact agrees_built rfl rfl (fun _ => rfl) (body name start)

theorem agrees_operand : Agrees k .inside .inside Operand (operand expression) (operand expression') := by
  have weaker {step step' : Read Bool} (agrees : Agrees k .inside .inside Found step step') :
      Agrees k .inside .inside Operand step step' := agrees.mono fun _ _ holds => ⟨holds.1, holds.2.1⟩
  have token (quote : Char) : Agrees k .inside .inside Operand (do token quote; return true)
      (do token quote; return true) := by
    refine (agrees_token quote).bind (fun _ => agrees_pure _) fun _ => asks_pure fun _ holds => holds.2
  refine agrees_here fun start => agrees_peek (fun next => ?_) fun _ _ holds => holds.2.1
  split
  · exact token _
  · exact token _
  · refine agrees_charset.seq (fun set => ?_) fun _ _ holds => holds.2.1
    exact (agrees_leaf start rfl).seq (fun _ => agrees_pure _) fun _ _ holds => holds.2.1
  · exact weaker agrees_charClass
  · refine (agrees_skip 1).seq (fun _ => ?_) fun _ _ holds => holds.2.1
    exact (agrees_leaf start rfl).seq (fun _ => agrees_pure _) fun _ _ holds => holds.2.1
  · exact weaker (agrees_grouping inner)
  · exact weaker (agrees_action inner)
  · exact weaker agrees_reference
  · split
    · exact weaker agrees_reference
    · exact agrees_pure _
  · exact agrees_pure _

section

variable (accepts : Silently expression (Accepted .lenient .expression))

theorem agrees_signedOperand : Agrees k .inside .inside
    (fun found s => found.isSome = true ∧ ';' ∈ s ∧ s.head? ≠ some '-')
    (signedOperand expression) (signedOperand expression') := by
  have signed : Agrees k .inside .inside (fun found s => found.isSome = true ∧ ';' ∈ s ∧ s.head? ≠ some '-') (do
      let sign ← lookaheadSign
      if ← operand expression then return some sign else return none) (do
      let sign ← lookaheadSign
      if ← operand expression' then return some sign else return none) := by
    refine agrees_lookaheadSign.seq (fun sign => ?_) fun _ _ holds => holds.2.1
    refine (agrees_operand inner).bind (fun found => ?_) fun found => ?_
    · cases found <;> exact agrees_pure _
    · cases found with
      | true => exact asks_pure fun _ holds => holds
      | false => exact asks_pure fun _ holds => absurd holds.1 Bool.false_ne_true
  exact signed.attempt.mono fun _ _ holds => ⟨holds.1, holds⟩

include accepts

/-- Where one operand ends another begins, or the expression ends. -/
theorem agrees_unary : Agrees k .inside .inside
    (fun found s => if found then ';' ∈ s ∧ s.head? ≠ some '-' else Ended s)
    (unary expression) (unary expression') := by
  have suffixed (start : Position) : Agrees k .inside .inside Operand (do suffix start; return true)
      (do suffix (start.shift k.front); return true) :=
    (agrees_suffix start).seq (fun _ => agrees_pure _) fun _ _ holds => holds.2.1
  have told (start : Position) : Silently (do suffix start; return true) fun _ before after =>
      before.head? = some '-' → after = before :=
    (silently_suffix_minus start).bind fun _ => silently_pure fun _ _ same => same
  have asks {step : Read Bool} (silently : Silently step fun _ before after =>
      before.head? = some '-' → after = before) :
      Asks step Operand (fun s => true = true ∧ ';' ∈ s ∧ s.head? ≠ some '-') := by
    refine silently.asks ?_
    rintro _ before after same ⟨-, stops, apart⟩ sub
    exact ⟨rfl, sub stops, fun minus => apart (same minus ▸ minus)⟩
  have found : Agrees k .inside .inside Operand (unary expression) (unary expression') := by
    refine agrees_here fun start => (agrees_signedOperand inner).bind (fun found => ?_) fun found => ?_
    · rcases found with _ | _ | sign
      · exact agrees_pure _
      · exact suffixed start
      · refine agrees_built rfl rfl (fun _ => rfl) (agrees_tokenEnd (by decide) fun stop => ?_)
        exact agrees_located (suffixed start)
    · rcases found with _ | _ | sign
      · exact asks_pure fun _ holds => absurd holds.1 Bool.false_ne_true
      · exact asks (told start)
      · exact asks (silently_built (silently_tokenEnd fun stop => silently_located (told start)))
  intro c a d ran
  obtain ⟨advances, follows⟩ := found c a d ran
  refine ⟨advances, fun holds c' a' d' related ran' => ?_⟩
  rcases holds with none | ⟨silent, holds⟩
  · exact follows (.inl none) c' a' d' related ran'
  cases a with
  | true => exact follows (.inr ⟨silent, rfl, holds⟩) c' a' d' related ran'
  | false =>
    have same : d.rest = c.rest := ((silently_unary Dialect.lenient_liberal accepts) c false d ran).2.2 silent
    have ended : Ended c.rest := same ▸ holds
    cases (unary_ended expression ended).symm.trans ran
    have ended' : Ended c'.rest := related.rest ▸ ended.append k.behind
    cases (unary_ended expression' ended').symm.trans ran'
    exact ⟨rfl, related⟩

theorem agrees_sequence :
    Agrees k .inside .inside (fun _ => Ended) (sequence expression) (sequence expression') := by
  refine agrees_here fun start => agrees_built rfl rfl (fun _ => rfl) (agrees_steps fun limit limit' => ?_)
  have more (limit : Nat) : Asks (countWhile (unary expression) limit) (fun _ => Ended)
      (fun s => ';' ∈ s ∧ s.head? ≠ some '-') := by
    refine (silently_countWhile (silently_unary Dialect.lenient_liberal accepts) limit).asks ?_
    rintro count before after read ended sub
    refine ⟨sub ended.1, ?_⟩
    cases count with
    | zero =>
      obtain rfl : after = before := read
      exact ended.head_ne (by decide)
    | succ count =>
      obtain ⟨middle, ⟨unary, -⟩, -⟩ := read
      have opens : Opens opensUnary before := opens_part unary
      exact opens.head_ne (by decide +kernel)
  have loop := agrees_countWhile (Q := Ended) (agrees_unary inner accepts) (fun _ ended => ended) more limit limit'
  refine loop.bind (fun count => ?_) fun count => ?_
  · split
    · exact agrees_built rfl rfl (fun _ => rfl) (agrees_pure _)
    · refine agrees_built rfl rfl (fun _ => rfl) (agrees_tokenEnd (by decide) fun stop => agrees_located ?_)
      exact agrees_built rfl rfl (fun _ => rfl) (agrees_pure _)
  · have kept : Silently (do
        if count = 0 then
          build .reset
          return false
        build .sequence
        locate start (← tokenEnd)
        build .release
        return true) fun _ before after => after = before := by
      split
      · exact silently_built (silently_pure fun _ => rfl)
      · refine silently_built (silently_tokenEnd fun stop => silently_located (silently_built ?_))
        exact silently_pure fun _ => rfl
    refine kept.asks ?_
    rintro _ before _ rfl ended -
    exact ended

theorem agrees_alternative :
    Agrees k .inside .inside AfterAlternative (alternative expression) (alternative expression') := by
  have behind : Agrees k .inside .inside AfterAlternative (do
      spacing
      if ← sequence expression then return true
      let place ← here
      report .syntaxError place place "expecting an alternative after `/`"
      return false) (do
      spacing
      if ← sequence expression' then return true
      let place ← here
      report .syntaxError place place "expecting an alternative after `/`"
      return false) := by
    refine (agrees_spacing id).seq (fun _ => ?_) fun _ _ after => after.stops
    refine (agrees_sequence inner accepts).bind (fun found => ?_) fun found => ?_
    · cases found with
      | true => exact agrees_pure _
      | false => exact agrees_here fun place => agrees_reported (by decide) (agrees_pure _)
    · cases found with
      | true => exact asks_pure fun _ ended => ended
      | false =>
        have reported : Silently (do
            let place ← here
            report .syntaxError place place "expecting an alternative after `/`"
            return false) fun _ _ _ => False :=
          silently_here fun place => silently_reported (silently_pure fun _ => trivial)
        exact reported.asks fun _ _ _ never => never.elim
  refine (agrees_eat (.inl (by decide))).seq (fun slash => ?_) fun _ _ after => after.stops
  cases slash with
  | true => exact behind
  | false =>
    refine (agrees_eat (.inl (by decide))).seq (fun bar => ?_) fun _ _ after => after.stops
    cases bar with
    | true => exact behind
    | false => exact agrees_pure _

end

end

end Operands

section Expressions

/-- An alternative begins with its sign. -/
def Signed (found : Bool) (before after : List Char) : Prop :=
  if found then before.head? = some '/' ∨ before.head? = some '|' else after = before

theorem silently_alternative_signed {expression : Read Bool}
    (accepts : Silently expression (Accepted .lenient .expression)) : Silently (alternative expression) Signed := by
  have behind {sign : Char} (known : sign = '/' ∨ sign = '|') : Silently (do
      spacing
      if ← sequence expression then return true
      let place ← here
      report .syntaxError place place "expecting an alternative after `/`"
      return false) fun found behind after => ∀ before, before = sign :: behind → Signed found before after := by
    refine silently_spacing.bind fun _ => (silently_sequence Dialect.lenient_liberal accepts).bind fun found => ?_
    cases found with
    | false => exact silently_here fun place => silently_reported (silently_pure fun _ => trivial)
    | true =>
      refine silently_pure ?_
      rintro _ _ - behind - _ rfl
      exact known.imp (congrArg some) (congrArg some)
  refine (silently_eat "/").bind fun slash => ?_
  cases slash with
  | true => exact behind (.inl rfl)
  | false =>
    refine (silently_eat "|").bind fun bar => ?_
    cases bar with
    | true =>
      refine (behind (.inr rfl)).mono ?_
      rintro found middle after signed before same _ ⟨rfl, -⟩
      exact signed _ same
    | false =>
      refine silently_pure ?_
      rintro _ _ ⟨rfl, -⟩ _ ⟨rfl, -⟩
      exact rfl

/-- What is read as alternatives up to the end of an expression is next to the end of a sequence. -/
theorem ended_of_signed {count : Nat} (read : Repeated Signed count before after) (closed : Closed after)
    (sub : after ⊆ before) : Ended before := by
  cases count with
  | zero =>
    obtain rfl : after = before := read
    exact closed.ended
  | succ count =>
    obtain ⟨_, signed, -⟩ := read
    rcases signed with first | first
    · exact ⟨sub closed.1, '/', by decide, first⟩
    · exact ⟨sub closed.1, '|', by decide, first⟩

theorem agrees_expression (depth depth' : Nat) :
    Agrees k .inside .inside (fun _ => Closed) (expression depth) (expression depth') := by
  induction depth generalizing depth' with
  | zero => exact agrees_throw _
  | succ depth ih =>
    have accepts := silently_expression Dialect.lenient_liberal depth
    let ending (start : Position) : Read Bool := do
      build .choice
      locate start (← tokenEnd)
      build .release
      return true
    have ends (start : Position) :
        Agrees k .inside .inside (fun _ => Closed) (ending start) (ending (start.shift k.front)) := by
      refine agrees_built rfl rfl (fun _ => rfl) (agrees_tokenEnd (by decide) fun stop => agrees_located ?_)
      exact agrees_built rfl rfl (fun _ => rfl) (agrees_pure _)
    have kept (start : Position) : Silently (ending start) fun _ before after => after = before := by
      refine silently_built (silently_tokenEnd fun stop => silently_located (silently_built ?_))
      exact silently_pure fun _ => rfl
    have signed (limit : Nat) := silently_countWhile (silently_alternative_signed accepts) limit
    have more (limit : Nat) : Asks (countWhile (alternative (expression depth)) limit) (fun _ => Closed)
        (AfterAlternative true) := (signed limit).asks fun _ _ _ => ended_of_signed
    have behind (start : Position) : Silently (do
        let _ ← countWhile (alternative (expression depth)) (← steps)
        ending start) fun _ before after => ∃ count, Repeated Signed count before after := by
      refine silently_steps fun limit => (signed limit).bind fun count => (kept start).mono ?_
      rintro _ middle _ rfl before read
      exact ⟨count, read⟩
    refine agrees_limit rfl (fun depth' => ?_) depth'
    refine agrees_here fun start => agrees_built rfl rfl (fun _ => rfl) ?_
    refine (agrees_sequence (ih depth') accepts).bind (fun found => ?_) fun found => ?_
    · cases found with
      | false => exact agrees_built rfl rfl (fun _ => rfl) (agrees_pure _)
      | true =>
        refine agrees_steps fun limit limit' => ?_
        have alternatives := agrees_alternative (ih depth') accepts
        have loop := agrees_countWhile alternatives (fun _ closed => closed) more limit limit'
        refine loop.bind (fun _ => ends start) fun _ => (kept start).asks ?_
        rintro _ before _ rfl closed -
        exact closed
    · cases found with
      | false =>
        have kept : Silently (do build .reset; return false) fun _ before after => after = before :=
          silently_built (silently_pure fun _ => rfl)
        refine kept.asks ?_
        rintro _ before _ rfl closed -
        exact closed.ended
      | true =>
        refine (behind start).asks ?_
        rintro _ before after ⟨count, read⟩
        exact ended_of_signed read

end Expressions

end Read

end Packrat
