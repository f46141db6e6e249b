import Packrat.Proofs.Reader.Sets

/-! # What is accepted is documented

Every reader that finds something silently has found a part of a grammar as documented, and every one that finds
nothing silently has left the text as it was. So a text that is read to its end without a problem is documented as a
whole. The syntax may be any that takes all quotes for the upper bounds in sets, and all slashes that do not begin a
comment for separators.
-/

namespace Packrat

namespace Documented

/-- The syntax has whatever the reader takes. -/
structure Dialect.Liberal (d : Dialect) : Prop where
  opens : ∀ c, d.opens c
  separates : ∀ s, Read.Solid ('/' :: s) → d.separates s

end Documented

namespace Read

open Documented

variable {d : Dialect} {quote : Char} {before middle after behind inner : List Char} {expression : Read Bool}

theorem silently_integer : Silently integer fun found before after =>
    ∀ n, found = some n → Number n before after ∧ Solid after := by
  refine (silently_takeWhile _).bind fun digits => ?_
  split
  · exact silently_pure fun _ _ _ _ => nofun
  next some =>
  refine silently_spacing.bind fun _ => silently_pure ?_
  rintro after behind ⟨blanks, solid⟩ before ⟨rfl, all, -⟩ n found
  split at found
  · next fits =>
    cases found
    exact ⟨.number (fun none => some (List.isEmpty_iff.mpr none)) all fits blanks, solid⟩
  · cases found

theorem silently_boundNumbers : Silently boundNumbers fun found before after =>
    ∀ min max, found = some (min, max) → Bounds min max before after ∧ Solid after := by
  refine silently_integer.bind fun first => ?_
  cases first with
  | none => exact silently_pure fun _ _ _ _ _ => nofun
  | some n =>
    refine (silently_eat ",").bind fun separated => ?_
    cases separated with
    | false =>
      refine silently_pure ?_
      rintro after _ ⟨rfl, -⟩ before least min max ⟨⟩
      obtain ⟨count, solid⟩ := least n rfl
      exact ⟨.exactly count, solid⟩
    | true =>
      have atLeast {after behind before : List Char} (blanks : Spacing behind after ∧ Solid after)
          (least : ∀ m, some n = some m → Number m before (',' :: behind) ∧ Solid (',' :: behind)) (min max : Nat)
          (found : some (n, unbounded) = some (min, max)) : Bounds min max before after ∧ Solid after := by
        cases found
        exact ⟨.atLeast (least n rfl).1 blanks.1, blanks.2⟩
      refine silently_spacing.bind fun _ => silently_peek fun next => ?_
      cases next with
      | none =>
        refine silently_pure ?_
        rintro after - behind blanks _ rfl before least
        exact atLeast blanks least
      | some c =>
        dsimp only
        split
        · refine silently_integer.bind fun second => silently_pure ?_
          rintro after middle most - behind ⟨blanks, -⟩ _ rfl before least min max found
          obtain ⟨m, rfl, same⟩ := Option.map_eq_some_iff.mp found
          cases same
          obtain ⟨count, solid⟩ := most max rfl
          exact ⟨.between (least n rfl).1 blanks count, solid⟩
        · refine silently_pure ?_
          rintro after - behind blanks _ rfl before least
          exact atLeast blanks least

theorem silently_locate (start stop : Position) : Silently (locate start stop) fun _ before after => after = before :=
  silently_built (silently_build _)

theorem silently_located {α : Type} {start stop : Position} {next : Unit → Read α}
    {P : α → List Char → List Char → Prop} (rest : Silently (next ()) P) : Silently (locate start stop >>= next) P :=
  (silently_locate start stop).bind fun _ => rest.mono fun _ _ _ holds _ same => same ▸ holds

theorem silently_bounds (start : Position) : Silently (bounds start) fun _ before after =>
    before.head? = some '\x7b' → Suffix before after ∧ Solid after := by
  refine silently_here fun opening => (silently_skip 1).bind fun _ => silently_spacing.bind fun _ => ?_
  refine silently_boundNumbers.bind fun numbers => ?_
  have malformed : Silently (do
      let _ ← takeWhile fun c => c != '\x7d' && c != ';' && c != '\n'
      let _ ← eat "\x7d"
      report .invalidExpression opening (← here) "malformed repetition bounds"
      spacing) fun _ _ _ => False :=
    (silently_takeWhile _).bind fun _ => (silently_eat _).bind fun _ => silently_here fun stop =>
      silently_reported (silently_spacing.mono fun _ _ _ _ => trivial)
  cases numbers with
  | none =>
    refine malformed.mono ?_
    rintro _ _ _ ⟨⟩
  | some numbers =>
    obtain ⟨min, max⟩ := numbers
    refine (silently_eat "\x7d").bind fun closed => ?_
    cases closed with
    | false =>
      refine malformed.mono ?_
      rintro _ _ _ ⟨⟩
    | true =>
      refine silently_here fun stop => ?_
      split
      · next ordered =>
        refine silently_built (silently_located (silently_spacing.mono ?_))
        rintro _ behind after ⟨blanks', solid⟩ _ rfl middle numbers _ ⟨blanks, -⟩ before rfl first
        obtain ⟨inner, rfl⟩ := List.head?_eq_some_iff.mp first
        exact ⟨.bounds blanks (numbers min max rfl).1 ordered.1 ordered.2 blanks', solid⟩
      · exact silently_reported (silently_spacing.mono fun _ _ _ _ => trivial)

theorem silently_leaf (start : Position) (step : Builder.Step) :
    Silently (leaf start step) fun _ before after => Spacing before after ∧ Solid after :=
  silently_built (silently_here fun _ => silently_located silently_spacing)

theorem quantifier_known {c : Char} : (quantifier? c).isSome ↔ c = '?' ∨ c = '*' ∨ c = '+' := by
  unfold quantifier?
  split <;> simp_all

theorem silently_suffix (start : Position) : Silently (suffix start) fun _ before after =>
    Solid before → Suffix before after ∧ Solid after := by
  refine silently_peek fun next => ?_
  cases next with
  | none => exact silently_pure fun s _ solid => ⟨.none s, solid⟩
  | some c =>
    dsimp only
    split
    · next quantifier known =>
      refine (silently_skip 1).bind fun _ => (silently_leaf _ _).mono ?_
      rintro _ _ after ⟨blanks, solid⟩ before rfl first -
      obtain ⟨inner, rfl⟩ := List.head?_eq_some_iff.mp first
      exact ⟨.quantifier (quantifier_known.mp (Option.isSome_iff_exists.mpr ⟨_, known⟩)) blanks, solid⟩
    · split
      · next same =>
        subst same
        exact (silently_bounds start).mono fun _ _ _ bounded first _ => bounded first
      · exact silently_pure fun s _ solid => ⟨.none s, solid⟩

/-- What has been found is as documented, and what has not been found is still there. -/
def Accepted (d : Dialect) (category : Category) (found : Bool) (before after : List Char) : Prop :=
  if found then Part d category before after ∧ Solid after else after = before

theorem silently_token (known : IsQuote quote) : Silently (token quote) fun _ before after =>
    before.head? = some quote → Part d .operand before after ∧ Solid after := by
  have string (start : Position) : Silently (do
      let image ← quotedText quote
      leaf start (.terminal (.token (String.ofList image) (quote == '\'')))) fun _ before after =>
        before.head? = some quote → Part d .operand before after ∧ Solid after := by
    refine (silently_quotedText quote).bind fun image => (silently_leaf _ _).mono ?_
    rintro _ middle after ⟨blanks, solid⟩ _ ⟨opening, inner, rfl, items, -⟩ first
    cases first
    exact ⟨.text known (.quoted items) blanks, solid⟩
  refine silently_here fun start => ?_
  split
  · refine silently_quietInterval.bind fun interval => ?_
    cases interval with
    | some interval =>
      obtain ⟨lo, hi⟩ := interval
      refine (silently_leaf _ _).mono ?_
      rintro _ upper after ⟨blanks'', solid⟩ before ⟨lower, behind, middle, lo, blanks, blanks', hi⟩ -
      exact ⟨.interval lo blanks blanks' hi blanks'', solid⟩
    | none =>
      refine (string start).mono ?_
      rintro _ _ after read before rfl first
      exact read first
  · exact string start

theorem silently_className : Silently className fun found before after =>
    if found.isSome then before.head? = some '<' → ∃ inner middle named, before = '<' :: inner ∧ Spacing inner middle ∧
      Name middle named ∧ Spacing named ('>' :: after)
    else after = before := by
  apply Silently.tried
  refine (silently_skip 1).bind fun _ => (silently_skipSpacing false).bind fun _ => ?_
  refine silently_identifier.bind fun name => (silently_skipSpacing false).bind fun _ => ?_
  cases name with
  | none => exact silently_pure fun _ _ _ _ _ _ _ _ _ => nofun
  | some name =>
    refine (silently_eat ">").bind fun closed => ?_
    cases closed with
    | false => exact silently_pure fun _ _ _ _ _ _ _ _ _ _ _ => nofun
    | true =>
      refine silently_pure ?_
      rintro after _ rfl named ⟨-, blanks'⟩ middle name _ ⟨-, blanks⟩ before rfl - first
      obtain ⟨inner, rfl⟩ := List.head?_eq_some_iff.mp first
      have some : middle ≠ [] := by
        obtain ⟨_, _, rfl, -⟩ := name_head name
        exact List.cons_ne_nil _ _
      exact ⟨inner, middle, named, rfl, blanks some, name, blanks' (List.cons_ne_nil _ _)⟩

theorem silently_charClass : Silently charClass fun found before after =>
    before.head? = some '<' → Accepted d .operand found before after := by
  refine silently_here fun start => silently_className.bind fun found => ?_
  cases found with
  | none =>
    refine silently_pure ?_
    rintro s before rfl -
    exact rfl
  | some name =>
    refine (silently_leaf _ _).bind fun _ => silently_pure ?_
    rintro after behind ⟨blanks'', solid⟩ before read first
    obtain ⟨inner, middle, named, rfl, blanks, name, blanks'⟩ := read first
    exact ⟨.charClass blanks name blanks' blanks'', solid⟩

theorem silently_referenceName : Silently referenceName fun found before after =>
    if found.isSome then ∃ inner, Name inner after ∧ (before = inner ∨ before = '@' :: inner) else after = before := by
  apply Silently.tried
  refine (silently_eat "@").bind fun memo => silently_identifier.bind fun name => silently_pure ?_
  intro after inner name before sign some
  rw [Option.isSome_map] at some
  rw [if_pos some] at name
  cases memo with
  | true => exact ⟨inner, name, .inr sign⟩
  | false => exact ⟨inner, name, .inl sign.1.symm⟩

theorem silently_reference : Silently reference (Accepted d .operand) := by
  refine silently_atProductionHead.bind fun head => ?_
  cases head with
  | true =>
    refine silently_pure ?_
    rintro s before ⟨rfl, -⟩
    exact rfl
  | false =>
    refine silently_here fun start => silently_referenceName.bind fun found => ?_
    cases found with
    | none =>
      refine silently_pure ?_
      rintro s _ rfl before ⟨rfl, -⟩
      exact rfl
    | some found =>
      obtain ⟨name, memo⟩ := found
      refine (silently_leaf _ _).bind fun _ => silently_pure ?_
      rintro after named ⟨blanks, solid⟩ _ ⟨inner, name, rfl | rfl⟩ before ⟨rfl, -⟩
      · exact ⟨.reference name blanks, solid⟩
      · exact ⟨.remembered name blanks, solid⟩

theorem silently_closeParenthesis : Silently closeParenthesis fun _ before after => before = ')' :: after := by
  refine (silently_eat ")").bind fun closed => ?_
  cases closed with
  | true => exact silently_pure fun s before same => same
  | false => exact silently_tokenEnd fun place => silently_reported (silently_pure fun _ => trivial)

theorem silently_grouping (accepts : Silently expression (Accepted d .expression)) :
    Silently (grouping expression) fun found before after =>
      before.head? = some '(' → Accepted d .operand found before after := by
  have inside : Silently (Read.attempt id do
      skip 1
      spacing
      expression) fun found before after => if id found then before.head? = some '(' → ∃ inner middle,
        before = '(' :: inner ∧ Spacing inner middle ∧ Part d .expression middle after else after = before := by
    apply Silently.tried
    refine (silently_skip 1).bind fun _ => silently_spacing.bind fun _ => accepts.mono ?_
    rintro found middle after body _ ⟨blanks, -⟩ before rfl some first
    obtain ⟨inner, rfl⟩ := List.head?_eq_some_iff.mp first
    obtain rfl : found = true := some
    exact ⟨inner, middle, rfl, blanks, body.1⟩
  refine inside.bind fun found => ?_
  cases found with
  | false =>
    refine silently_pure ?_
    rintro s before rfl -
    exact rfl
  | true =>
    refine silently_closeParenthesis.bind fun _ => silently_spacing.bind fun _ => silently_pure ?_
    rintro after behind ⟨blanks', solid⟩ _ rfl before read first
    obtain ⟨inner, middle, rfl, blanks, body⟩ := read first
    exact ⟨.group blanks body blanks', solid⟩

theorem silently_actionHead : Silently actionHead fun found before after =>
    if found.isSome then before.head? = some '$' → ∃ inner named, before = '$' :: inner ∧ Name inner named ∧
      Spacing named ('(' :: after)
    else after = before := by
  apply Silently.tried
  refine (silently_skip 1).bind fun _ => silently_identifier.bind fun name => ?_
  cases name with
  | none => exact silently_pure fun _ _ _ _ _ => nofun
  | some name =>
    refine (silently_skipSpacing false).bind fun _ => (silently_eat "(").bind fun opened => ?_
    cases opened with
    | false => exact silently_pure fun _ _ _ _ _ _ _ _ _ => nofun
    | true =>
      refine silently_pure ?_
      rintro after _ rfl named ⟨-, blanks⟩ _ name before rfl - first
      obtain ⟨inner, rfl⟩ := List.head?_eq_some_iff.mp first
      exact ⟨inner, named, rfl, name, blanks (List.cons_ne_nil _ _)⟩

theorem silently_action (accepts : Silently expression (Accepted d .expression)) :
    Silently (action expression) fun found before after =>
      before.head? = some '$' → Accepted d .operand found before after := by
  refine silently_here fun start => silently_actionHead.bind fun found => ?_
  cases found with
  | none =>
    refine silently_pure ?_
    rintro s before rfl -
    exact rfl
  | some name =>
    refine silently_spacing.bind fun _ => silently_built (accepts.bind fun found => ?_)
    refine silently_closeParenthesis.bind fun _ => silently_here fun stop => silently_built ?_
    refine silently_located (silently_built (silently_spacing.bind fun _ => silently_pure ?_))
    rintro after behind ⟨blanks'', solid⟩ _ rfl middle body opened ⟨blanks', -⟩ before read first
    obtain ⟨inner, named, rfl, name, blanks⟩ := read first
    cases found with
    | true => exact ⟨.action name blanks blanks' body.1 blanks'', solid⟩
    | false =>
      obtain rfl : _ = middle := body
      exact ⟨.emptyAction name blanks blanks' blanks'', solid⟩

theorem silently_operand (liberal : d.Liberal) (accepts : Silently expression (Accepted d .expression)) :
    Silently (operand expression) (Accepted d .operand) := by
  refine silently_here fun start => silently_peek fun next => ?_
  split
  · exact (silently_token (.inl rfl)).bind fun _ => silently_pure fun after before read first => read first
  · exact (silently_token (.inr rfl)).bind fun _ => silently_pure fun after before read first => read first
  · refine (silently_charset liberal.opens).bind fun set => (silently_leaf _ _).bind fun _ => silently_pure ?_
    rintro after middle ⟨blanks, solid⟩ before set first
    exact ⟨.set (set first) blanks, solid⟩
  · exact silently_charClass
  · refine (silently_skip 1).bind fun _ => (silently_leaf _ _).bind fun _ => silently_pure ?_
    rintro after middle ⟨blanks, solid⟩ before rfl first
    obtain ⟨inner, rfl⟩ := List.head?_eq_some_iff.mp first
    exact ⟨.any blanks, solid⟩
  · exact silently_grouping accepts
  · exact silently_action accepts
  · exact silently_reference.mono fun _ _ _ read _ => read
  · split
    · exact silently_reference.mono fun _ _ _ read _ => read
    · exact silently_pure fun s _ => rfl
  · exact silently_pure fun s _ => rfl

theorem silently_lookaheadSign : Silently lookaheadSign fun _ before after => Sign before after := by
  refine (silently_eat "!").bind fun absent => ?_
  cases absent with
  | true =>
    refine silently_spacing.bind fun _ => silently_pure ?_
    rintro after middle ⟨blanks, -⟩ before rfl
    exact .lookahead (.inl rfl) blanks
  | false =>
    refine (silently_eat "&").bind fun present => ?_
    cases present with
    | true =>
      refine silently_spacing.bind fun _ => silently_pure ?_
      rintro after middle ⟨blanks, -⟩ _ rfl before ⟨rfl, -⟩
      exact .lookahead (.inr rfl) blanks
    | false =>
      refine silently_pure ?_
      rintro s _ ⟨rfl, -⟩ before ⟨rfl, -⟩
      exact .none _

theorem silently_signedOperand (liberal : d.Liberal) (accepts : Silently expression (Accepted d .expression)) :
    Silently (signedOperand expression) fun found before after =>
      if found.isSome then ∃ middle, Sign before middle ∧ Part d .operand middle after ∧ Solid after
      else after = before := by
  apply Silently.tried
  refine silently_lookaheadSign.bind fun sign => (silently_operand liberal accepts).bind fun found => ?_
  cases found with
  | true => exact silently_pure fun after middle operand before sign _ => ⟨middle, sign, operand⟩
  | false => exact silently_pure fun _ _ _ _ _ => nofun

theorem silently_unary (liberal : d.Liberal) (accepts : Silently expression (Accepted d .expression)) :
    Silently (unary expression) (Accepted d .unary) := by
  refine silently_here fun start => (silently_signedOperand liberal accepts).bind fun found => ?_
  cases found with
  | none =>
    refine silently_pure ?_
    rintro s before rfl
    exact rfl
  | some sign =>
    have quantified : Silently (do
        suffix start
        return true) fun found behind after => ∀ before, (∃ middle, Sign before middle ∧ Part d .operand middle behind ∧
          Solid behind) → Accepted d .unary found before after := by
      refine (silently_suffix start).bind fun _ => silently_pure ?_
      rintro after behind suffixed before ⟨middle, sign, operand, solid⟩
      exact ⟨.unary sign operand (suffixed solid).1, (suffixed solid).2⟩
    cases sign with
    | none => exact quantified
    | some sign => exact silently_built (silently_tokenEnd fun stop => silently_located quantified)

theorem part_of_unaries {count : Nat} (read : Repeated (Accepted d .unary) (count + 1) before after) :
    Part d .sequence before after ∧ Solid after := by
  induction count generalizing before with
  | zero =>
    obtain ⟨middle, ⟨unary, solid⟩, rfl⟩ := read
    exact ⟨.lastUnary unary, solid⟩
  | succ count ih =>
    obtain ⟨middle, ⟨unary, -⟩, rest⟩ := read
    obtain ⟨rest, solid⟩ := ih rest
    exact ⟨.moreUnaries unary rest, solid⟩

theorem silently_sequence (liberal : d.Liberal) (accepts : Silently expression (Accepted d .expression)) :
    Silently (sequence expression) (Accepted d .sequence) := by
  refine silently_here fun start => silently_built (silently_steps fun limit => ?_)
  refine (silently_countWhile (silently_unary liberal accepts) limit).bind fun count => ?_
  cases count with
  | zero => exact silently_built (silently_pure fun s before read => read)
  | succ count =>
    refine silently_built (silently_tokenEnd fun stop => silently_located (silently_built (silently_pure ?_)))
    exact fun after before read => part_of_unaries read

/-- What has been read as an alternative with its sign. -/
def AcceptedAlternative (d : Dialect) (found : Bool) (before after : List Char) : Prop :=
  Solid before → if found then ∃ sign behind middle, before = sign :: behind ∧ (sign = '/' ∨ sign = '|') ∧
    (sign = '/' → d.separates behind) ∧ Spacing behind middle ∧ Part d .sequence middle after ∧ Solid after
  else after = before

theorem silently_alternative (liberal : d.Liberal) (accepts : Silently expression (Accepted d .expression)) :
    Silently (alternative expression) (AcceptedAlternative d) := by
  have behind (sign : Char) (known : sign = '/' ∨ sign = '|') : Silently (do
      spacing
      if ← sequence expression then return true
      let place ← here
      report .syntaxError place place "expecting an alternative after `/`"
      return false) fun found behind after =>
        ∀ before, before = sign :: behind → AcceptedAlternative d found before after := by
    refine silently_spacing.bind fun _ => (silently_sequence liberal accepts).bind fun found => ?_
    cases found with
    | false => exact silently_here fun place => silently_reported (silently_pure fun _ => trivial)
    | true =>
      refine silently_pure ?_
      rintro after middle ⟨sequence, solid⟩ behind ⟨blanks, -⟩ _ rfl solid'
      have separated (same : sign = '/') : d.separates behind := liberal.separates behind (same ▸ solid')
      exact ⟨sign, behind, middle, rfl, known, separated, blanks, sequence, solid⟩
  refine (silently_eat "/").bind fun slash => ?_
  cases slash with
  | true => exact behind '/' (.inl rfl)
  | false =>
    refine (silently_eat "|").bind fun bar => ?_
    cases bar with
    | true =>
      refine (behind '|' (.inr rfl)).mono ?_
      rintro found middle after read _ rfl before ⟨rfl, -⟩
      exact read _ rfl
    | false =>
      refine silently_pure ?_
      rintro s _ ⟨rfl, -⟩ before ⟨rfl, -⟩ -
      exact rfl

theorem part_of_alternatives {count : Nat} (read : Repeated (AcceptedAlternative d) count before after)
    (solid : Solid before) : Part d .alternatives before after ∧ Solid after := by
  induction count generalizing before with
  | zero =>
    obtain rfl : after = before := read solid
    exact ⟨.noAlternative _, solid⟩
  | succ count ih =>
    obtain ⟨last, first, rest⟩ := read
    obtain ⟨sign, behind, middle, rfl, known, separated, blanks, sequence, solid⟩ := first solid
    obtain ⟨rest, solid⟩ := ih rest solid
    exact ⟨.alternative known separated blanks sequence rest, solid⟩

theorem silently_expression (liberal : d.Liberal) (depth : Nat) :
    Silently (Read.expression depth) (Accepted d .expression) := by
  induction depth with
  | zero => exact silently_throw _
  | succ depth ih =>
    refine silently_here fun start => silently_built ((silently_sequence liberal ih).bind fun found => ?_)
    cases found with
    | false => exact silently_built (silently_pure fun s before read => read)
    | true =>
      refine silently_steps fun limit => ?_
      refine (silently_countWhile (silently_alternative liberal ih) limit).bind fun count => ?_
      refine silently_built (silently_tokenEnd fun stop => silently_located (silently_built (silently_pure ?_)))
      rintro after middle alternatives before ⟨sequence, solid⟩
      obtain ⟨rest, solid⟩ := part_of_alternatives alternatives solid
      exact ⟨.expression sequence rest, solid⟩

theorem silently_inGarbage : Silently inGarbage fun _ _ _ => True := by
  refine silently_atEnd fun ended => ?_
  cases ended with
  | true => exact silently_pure fun _ _ => trivial
  | false => exact silently_atProductionHead.bind fun head => silently_pure fun _ _ _ _ => trivial

theorem silently_skipItem : Silently skipItem fun _ _ _ => True := by
  refine silently_get fun c => ?_
  split
  · split
    · exact (silently_skip _).mono fun _ _ _ _ _ => trivial
    · exact (silently_skip _).mono fun _ _ _ _ _ => trivial
  · exact silently_pure fun _ _ => trivial

theorem silently_skipItems {more : Read Bool} (looks : Silently more fun _ _ _ => True) (reporting : Bool)
    (limit : Nat) (stop : Position) : Silently (skipItems more reporting limit stop) fun _ _ _ => True := by
  induction limit generalizing stop with
  | zero => exact silently_throw _
  | succ limit ih =>
    refine looks.bind fun go => ?_
    cases go with
    | false => exact silently_pure fun _ _ _ => trivial
    | true =>
      refine silently_skipItem.bind fun _ => silently_here fun place => ?_
      exact (silently_skipSpacing reporting).bind fun _ => (ih place).mono fun _ _ _ _ _ _ _ _ _ _ => trivial

/-- Garbage is always reported. -/
theorem silently_garbage : Silently garbage fun _ _ _ => False :=
  silently_here fun start => silently_steps fun limit =>
    (silently_skipItems silently_inGarbage true limit start).bind fun _ => silently_report _ _ _ _

theorem silently_terminate : Silently terminate fun _ before after => before = ';' :: after := by
  have missing {P : Unit → List Char → List Char → Prop} : Silently (do
      let place ← tokenEnd
      report .missingSemicolon place place "missing `;` at the end of the production") P :=
    silently_tokenEnd fun place => silently_report _ _ _ _
  refine (silently_eat ";").bind fun closed => ?_
  cases closed with
  | true => exact silently_pure fun s before same => same
  | false =>
    refine silently_inGarbage.bind fun garbage => ?_
    cases garbage with
    | false => exact missing
    | true =>
      refine silently_here fun start => ?_
      refine silently_steps fun limit => (silently_skipItems ?_ false limit start).bind fun stop => silently_reported ?_
      · refine silently_peek fun next => ?_
        split
        · exact silently_pure fun _ _ => trivial
        · exact silently_inGarbage.mono fun _ _ _ _ _ => trivial
      · refine (silently_eat ";").bind fun closed => ?_
        cases closed with
        | true => exact silently_pure fun _ _ _ => trivial
        | false => exact missing

theorem silently_production (liberal : d.Liberal) : Silently production fun _ before after =>
    AtHead before → Documented.Production d before after := by
  refine silently_here fun start => silently_identifier.bind fun name => silently_spacing.bind fun _ => ?_
  refine silently_assignment.bind fun assigned => silently_spacing.bind fun _ => silently_built ?_
  refine silently_steps fun limit => (silently_expression liberal limit).bind fun found => ?_
  have ending : Silently (do
      terminate
      build (.setProductionSpan ⟨start, ← here⟩)
      build .endProduction) fun _ before after => before = ';' :: after :=
    silently_terminate.bind fun _ => silently_here fun stop => silently_built
      ((silently_build _).mono fun _ _ _ same _ terminated => same ▸ terminated)
  refine silently_peek fun next => ?_
  split
  · exact silently_here fun place => silently_reported (ending.mono fun _ _ _ _ => trivial)
  next continued =>
  refine ending.mono ?_
  rintro _ behind after terminated next middle body opened ⟨blanks', -⟩ settled assigned before' ⟨blanks, solid⟩ before
    name head
  obtain ⟨named, sign, opened', name', known, spaced⟩ := head
  split at name
  · obtain rfl := name_unique name name'
    obtain rfl := spacing_unique blanks solid spaced (solid_assignment known opened')
    split at assigned
    · obtain ⟨sign', known', same⟩ := assigned
      subst terminated next
      cases found with
      | true => exact .production name' known' (same ▸ blanks) blanks' body.1
      | false => exact absurd rfl continued
    · exact absurd (List.prefix_append sign opened') (assigned.2 sign known)
  · obtain ⟨first, rest, rfl, start⟩ := name_head name'
    cases start.symm.trans (name.2 first rfl)

/-- A text is read to its end. -/
theorem silently_productions (liberal : d.Liberal) (limit : Nat) :
    Silently (productions limit) fun count before _ => if count = 0 then before = [] else Productions d before := by
  induction limit with
  | zero => exact silently_throw _
  | succ limit ih =>
    refine silently_atEnd fun ended => ?_
    cases ended with
    | true => exact silently_pure fun s ended => List.isEmpty_iff.mp ended
    | false =>
      refine silently_atProductionHead.bind fun head => ?_
      cases head with
      | false =>
        refine silently_garbage.bind fun _ => silently_spacing.bind fun _ => ih.mono ?_
        rintro _ _ _ _ _ _ _ ⟨⟩
      | true =>
        refine (silently_production liberal).bind fun _ => silently_spacing.bind fun _ => ih.bind fun count => ?_
        refine silently_pure ?_
        rintro after middle rest behind ⟨blanks, -⟩ _ produced before ⟨rfl, head⟩ -
        have production := produced (head.mp rfl)
        split at rest
        · next none =>
          subst rest
          exact .last production blanks
        · exact .more production blanks rest

/-- A text that is read without a problem is documented. -/
theorem silently_grammar (liberal : d.Liberal) : Silently grammar fun _ before _ => Documented.Text d before := by
  refine silently_spacing.bind fun _ => silently_steps fun limit => ?_
  refine (silently_productions liberal limit).bind fun count => ?_
  split
  · exact silently_here fun place => silently_report _ _ _ _
  · refine silently_pure ?_
    rintro after middle productions before ⟨blanks, -⟩
    exact .text blanks productions

end Read

end Packrat
