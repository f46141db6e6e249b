import Packrat.Proofs.Reader.Accepted

/-! # What is documented is accepted

Whatever can be derived in the documented syntax is read as it is derived, without a problem. The reader decides by what
is next: a quote, a name or a sign begins an operand, a minus sign makes an interval, an assignment sign makes a
production. So each part of a grammar is read up to its end if what stands behind it can be told from what could
continue it. This holds of every syntax with the single quote for the upper bounds in sets and without a comment right
behind a slash between alternatives.
-/

namespace Packrat

namespace Documented

/-- The reader takes whatever the syntax has. -/
structure Dialect.Conservative (d : Dialect) : Prop where
  closed : ∀ c, d.opens c → c = '\''
  separates : ∀ s, d.separates s → Uncommented s

end Documented

namespace Read

open Documented

variable {d : Dialect} {category : Category} {quote : Char} {before middle after behind named : List Char}

/-- If neither a blank nor a slash has the property, what has it behind the blanks has it before. -/
theorem spacing_stops {p : Char → Bool} (blank : ∀ c, isBlank c = true → p c = false) (slash : p '/' = false)
    (blanks : Spacing before after) (stops : ∀ c ∈ after.head?, p c = false) : ∀ c ∈ before.head?, p c = false := by
  cases blanks with
  | none => exact stops
  | more first rest =>
    cases first with
    | blank white =>
      rintro _ ⟨⟩
      exact blank _ white
    | line | lastLine | block =>
      rintro _ ⟨⟩
      exact slash

theorem not_blank_sign {c : Char} (member : c ∈ signs) (white : isBlank c = true) : False := by
  rw [isBlank_of_sign c member] at white
  cases white

theorem not_nameStart_sign {c : Char} (member : c ∈ signs) : isNameStart c = false := by
  refine Bool.eq_false_iff.mpr fun start => ?_
  have part := isNamePart_of_start start
  rw [isNamePart_of_sign c member] at part
  cases part

/-- Behind the blanks there is this sign only if it is before them. -/
theorem spacing_head_ne {c : Char} (member : c ∈ signs) (other : c ≠ '/') (blanks : Spacing before after)
    (apart : after.head? ≠ some c) : before.head? ≠ some c := by
  intro same
  have stops := spacing_stops (p := fun d => d == c) ?_ ?_ blanks ?_ c same
  · rw [beq_self_eq_true] at stops
    cases stops
  · exact fun d white => beq_eq_false_iff_ne.mpr fun same => not_blank_sign member (same ▸ white)
  · exact beq_eq_false_iff_ne.mpr other.symm
  · exact fun d next => beq_eq_false_iff_ne.mpr fun same => apart (same ▸ next)

theorem opens_named (name : Name before after) : Opens opensOperand before := by
  obtain ⟨first, rest, rfl, start⟩ := name_head name
  refine ⟨first, rest, rfl, (Bool.or_eq_true ..).mpr (.inr start), ?_⟩
  rintro rfl
  cases (not_nameStart_sign (by decide)).symm.trans start

/-- A sign that is neither a leading sign nor a part of a name does not begin an expression. -/
theorem Opens.head_ne {start : Char → Bool} {s : List Char} (opens : Opens start s) {c : Char}
    (other : start c = false) : s.head? ≠ some c := by
  obtain ⟨first, rest, rfl, begins, -⟩ := opens
  rintro ⟨⟩
  cases other.symm.trans begins

/-- No minus sign stands between an angle bracket and the name of a class. -/
theorem class_head (blanks : Spacing before middle) (name : Name middle after) :
    ∃ d more, before = d :: more ∧ d ≠ '-' := by
  have opens := opens_named name
  have apart := spacing_head_ne (c := '-') (by decide) (by decide) blanks (opens.head_ne (by decide +kernel))
  cases before with
  | nil =>
    obtain rfl := spacing_of_solid blanks solid_nil
    obtain ⟨_, _, same, -⟩ := opens
    cases same
  | cons d more => exact ⟨d, more, rfl, fun same => apart (same ▸ rfl)⟩

/-- What an operand, a unary, a sequence or an expression begins with. -/
theorem opens_part (derived : Part d category before after) :
    match category with
    | .operand => Opens opensOperand before
    | .alternatives => True
    | _ => Opens opensUnary before := by
  induction derived with
  | text known quoted =>
    obtain ⟨items⟩ := quoted
    rcases known with rfl | rfl
    · exact opens_sign (by decide) (by decide) _
    · exact opens_sign (by decide) (by decide) _
  | interval lo =>
    obtain ⟨inner, rfl⟩ := single_head lo
    exact opens_sign (by decide) (by decide) _
  | set set =>
    obtain ⟨first, rest, rfl, -, bracket⟩ := inSet_head set
    obtain rfl := bracket rfl
    exact opens_sign (by decide) (by decide) _
  | charClass blanks name =>
    obtain ⟨d, more, rfl, other⟩ := class_head blanks name
    exact ⟨'<', d :: more, rfl, rfl, fun _ => ⟨d, more, rfl, other⟩⟩
  | any | remembered | group | action | emptyAction => exact opens_sign (by decide) (by decide) _
  | reference name => exact opens_named name
  | unary sign operand suffix ih =>
    cases sign with
    | none => exact Opens.unary ih
    | lookahead known =>
      rcases known with rfl | rfl
      · exact opens_sign (by decide) (by decide) _
      · exact opens_sign (by decide) (by decide) _
  | lastUnary unary ih => exact ih
  | moreUnaries unary rest ih => exact ih
  | noAlternative | alternative => trivial
  | expression sequence rest ih => exact ih

/-- What cannot continue a string to an interval or a name to the beginning of a production. -/
structure Clear (s : List Char) : Prop extends Solid s where
  interval : s.head? ≠ some '-'
  assigned : ∀ sign ∈ assignments, ¬ sign <+: s

/-- No quantifier is next. -/
def Bare (s : List Char) : Prop := ∀ c ∈ s.head?, quantifier? c = none ∧ c ≠ '\x7b'

theorem clear_cons {first : Char} {s : List Char} (solid : Solid (first :: s)) (other : first ∉ ['-', ':', '=', '<']) :
    Clear (first :: s) where
  toSolid := solid
  interval := by
    rintro ⟨⟩
    exact other (by decide)
  assigned := by
    intro sign known prefixed
    rcases mem_assignments.mp known with rfl | rfl | rfl | rfl
    all_goals
      obtain ⟨rfl, -⟩ := List.cons_prefix_cons.mp prefixed
      exact other (by decide)

/-- What begins an expression does not continue what stands before it. -/
theorem Opens.clear {s : List Char} (opens : Opens opensUnary s) : Clear s ∧ Bare s := by
  obtain ⟨first, rest, rfl, begins, arrow⟩ := opens
  obtain ⟨black, slash, ends⟩ := opensUnary_spec begins
  rw [endsUnary, decide_eq_true_eq] at ends
  have solid := solid_cons black slash rest
  constructor
  · by_cases angle : first = '<'
    · subst angle
      obtain ⟨d, more, rfl, other⟩ := arrow rfl
      refine ⟨solid, fun same => absurd (Option.some.inj same) (by decide), fun sign known prefixed => ?_⟩
      rcases mem_assignments.mp known with rfl | rfl | rfl | rfl
      · cases (List.cons_prefix_cons.mp prefixed).1
      · cases (List.cons_prefix_cons.mp prefixed).1
      · cases (List.cons_prefix_cons.mp prefixed).1
      · exact other (List.cons_prefix_cons.mp (List.cons_prefix_cons.mp prefixed).2).1.symm
    · refine clear_cons solid fun member => ?_
      rcases List.mem_append.mp (show first ∈ ['-', ':', '='] ++ ['<'] from member) with member | member
      · exact ends (List.mem_append_left ['?', '*', '+', '\x7b'] member)
      · exact angle (List.mem_singleton.mp member)
  · rintro _ ⟨⟩
    constructor
    · refine Option.not_isSome_iff_eq_none.mp fun found => ?_
      rcases quantifier_known.mp found with rfl | rfl | rfl
      · exact ends (by decide)
      · exact ends (by decide)
      · exact ends (by decide)
    · rintro rfl
      exact ends (by decide)

/-- A sequence ends here. -/
structure Stop (s : List Char) : Prop extends Solid s where
  ended : ∃ c ∈ ['/', '|', ')', ';'], s.head? = some c

/-- An expression ends here. -/
def Close (s : List Char) : Prop := ∃ rest, s = ')' :: rest ∨ s = ';' :: rest

theorem Close.stop {s : List Char} (closes : Close s) : Stop s := by
  obtain ⟨rest, rfl | rfl⟩ := closes
  · exact ⟨solid_sign (by decide) (by decide) rest, ')', by decide, rfl⟩
  · exact ⟨solid_sign (by decide) (by decide) rest, ';', by decide, rfl⟩

theorem Stop.clear {s : List Char} (stop : Stop s) : Clear s ∧ Bare s := by
  obtain ⟨solid, c, known, first⟩ := stop
  obtain ⟨rest, rfl⟩ := List.head?_eq_some_iff.mp first
  have ends : ∀ c ∈ ['/', '|', ')', ';'], c ∉ ['-', ':', '=', '<'] ∧ quantifier? c = none ∧ c ≠ '\x7b' :=
    forall_of_all (by decide)
  obtain ⟨other, bare⟩ := ends c known
  refine ⟨clear_cons solid other, ?_⟩
  rintro _ ⟨⟩
  exact bare

theorem number_head {n : Nat} (number : Number n before after) :
    ∃ first rest, before = first :: rest ∧ first.isDigit = true := by
  obtain @⟨digits, inner, _, some, all, -, -⟩ := number
  cases digits with
  | nil => exact absurd rfl some
  | cons first rest => exact ⟨first, rest ++ inner, rfl, all first (.head rest)⟩

theorem solid_digit {c : Char} (digit : c.isDigit = true) (s : List Char) : Solid (c :: s) := by
  refine solid_cons (Bool.eq_false_iff.mpr fun white => ?_) ?_ s
  · cases digit.symm.trans (of_blank white).2
  · rintro rfl
    cases digit

theorem reads_integer {n : Nat} (number : Number n before after) (solid : Solid after)
    (stops : ∀ c ∈ after.head?, c.isDigit = false) : Reads integer before (fun found => found = some n) after := by
  obtain @⟨digits, inner, _, some, all, fits, blanks⟩ := number
  have stops := spacing_stops (fun c white => (of_blank white).2) rfl blanks stops
  refine (takes_takeWhile all stops).reads.bind ?_
  rintro _ rfl
  rw [if_neg fun none => some (List.isEmpty_iff.mp none)]
  refine (reads_spacing blanks solid).bind fun _ _ => reads_pure ?_
  exact if_pos fits

theorem reads_boundNumbers {min max : Nat} (bounds : Bounds min max before ('\x7d' :: after)) :
    Reads boundNumbers before (fun found => found = some (min, max)) ('\x7d' :: after) := by
  have closing : Solid ('\x7d' :: after) := solid_sign (by decide) (by decide) after
  have comma (s : List Char) : Solid (',' :: s) := solid_sign (by decide) (by decide) s
  have ended : ∀ c ∈ ('\x7d' :: after).head?, c.isDigit = false := by
    rintro _ ⟨⟩
    decide
  have separated (s : List Char) : ∀ c ∈ (',' :: s).head?, c.isDigit = false := by
    rintro _ ⟨⟩
    decide
  cases bounds with
  | exactly count =>
    refine (reads_integer count closing ended).bind ?_
    rintro _ rfl
    refine (reads_eat_none (headed_apart (d := ',') rfl (by simp))).bind ?_
    rintro _ rfl
    exact reads_pure rfl
  | atLeast least blanks =>
    refine (reads_integer least (comma _) (separated _)).bind ?_
    rintro _ rfl
    refine (reads_eat "," _).bind ?_
    rintro _ rfl
    exact (reads_spacing blanks closing).bind fun _ _ => reads_peek (reads_pure rfl)
  | between least blanks most =>
    refine (reads_integer least (comma _) (separated _)).bind ?_
    rintro _ rfl
    refine (reads_eat "," _).bind ?_
    rintro _ rfl
    obtain ⟨first, rest, rfl, digit⟩ := number_head most
    refine (reads_spacing blanks (solid_digit digit rest)).bind fun _ _ => reads_peek ?_
    rw [List.head?_cons]
    dsimp only
    rw [if_pos digit]
    refine (reads_integer most closing ended).bind ?_
    rintro _ rfl
    exact reads_pure rfl

theorem bounds_head {min max : Nat} (bounds : Bounds min max before after) :
    ∃ first rest, before = first :: rest ∧ first.isDigit = true := by
  cases bounds with
  | exactly count => exact number_head count
  | atLeast least => exact number_head least
  | between least => exact number_head least

theorem reads_leaf {start : Position} {step : Builder.Step} (blanks : Spacing before after) (solid : Solid after) :
    Reads (leaf start step) before (fun _ => True) after :=
  reads_built (reads_here fun _ => (reads_built (reads_build _)).bind fun _ _ => reads_spacing blanks solid)

theorem reads_suffix (start : Position) (suffixed : Suffix before after) (clear : Clear after) (bare : Bare after) :
    Reads (suffix start) before (fun _ => True) after := by
  cases suffixed with
  | none =>
    refine reads_peek ?_
    cases before with
    | nil => exact reads_pure trivial
    | cons c s =>
      obtain ⟨none, other⟩ := bare c rfl
      rw [List.head?_cons]
      dsimp only
      rw [none]
      dsimp only
      rw [if_neg other]
      exact reads_pure trivial
  | quantifier known blanks =>
    obtain ⟨quantifier, found⟩ := Option.isSome_iff_exists.mp (quantifier_known.mpr known)
    refine reads_peek ?_
    rw [List.head?_cons]
    dsimp only
    rw [found]
    exact (reads_skip 1).bind fun _ _ => reads_leaf blanks clear.toSolid
  | bounds blanks numbers ordered positive blanks' =>
    obtain ⟨first, rest, rfl, digit⟩ := bounds_head numbers
    refine reads_peek (reads_here fun opening => (reads_skip 1).bind fun _ _ => ?_)
    refine (reads_spacing blanks (solid_digit digit rest)).bind fun _ _ => ?_
    refine (reads_boundNumbers numbers).bind ?_
    rintro _ rfl
    refine (reads_eat "\x7d" _).bind ?_
    rintro _ rfl
    refine reads_here fun stop => ?_
    rw [if_pos ⟨ordered, positive⟩]
    exact reads_built ((reads_built (reads_build _)).bind fun _ _ => reads_spacing blanks' clear.toSolid)

theorem clear_suffix (suffixed : Suffix before after) (clear : Clear after) : Clear before := by
  cases suffixed with
  | none => exact clear
  | quantifier known =>
    rcases known with rfl | rfl | rfl
    all_goals exact clear_cons (solid_sign (by decide) (by decide) _) (by decide)
  | bounds => exact clear_cons (solid_sign (by decide) (by decide) _) (by decide)

variable {expression : Read Bool}

theorem reads_string (start : Position) (known : IsQuote quote) (quoted : Quoted quote before middle)
    (blanks : Spacing middle after) (clear : Clear after) : Reads (do
      let image ← quotedText quote
      leaf start (.terminal (.token (String.ofList image) (quote == '\'')))) before (fun _ => True) after := by
  obtain ⟨items⟩ := quoted
  exact (reads_quotedText quote known items).bind fun _ _ => reads_leaf blanks clear.toSolid

/-- A string is not the beginning of an interval if no minus sign is behind it. -/
theorem reads_token (known : IsQuote quote) (quoted : Quoted quote before middle) (blanks : Spacing middle after)
    (clear : Clear after) : Reads (token quote) before (fun _ => True) after := by
  refine reads_here fun start => ?_
  split
  · next same =>
    subst same
    refine (reads_quietInterval_none fun upper interval => ?_).bind ?_
    · obtain ⟨lower, behind, _, lo, blanks', -⟩ := interval
      obtain rfl := quoted_unique known quoted (quoted_of_single lo)
      have minus := spacing_unique blanks clear.toSolid blanks' (solid_minus behind)
      exact clear.interval (minus ▸ rfl)
    · rintro _ rfl
      exact reads_string start known quoted blanks clear
  · exact reads_string start known quoted blanks clear

theorem reads_token_interval {upper : List Char} (interval : IsInterval before upper) (blanks : Spacing upper after)
    (solid : Solid after) : Reads (token '\'') before (fun _ => True) after := by
  refine reads_here fun start => (reads_quietInterval interval).bind fun found some => ?_
  obtain ⟨⟨lo, hi⟩, rfl⟩ := Option.isSome_iff_exists.mp some
  exact reads_leaf blanks solid

theorem solid_name (name : Name before after) : Solid before :=
  (opens_named name).unary.clear.1.toSolid

theorem reads_charClass (blanks : Spacing before middle) (name : Name middle named)
    (blanks' : Spacing named ('>' :: behind)) (blanks'' : Spacing behind after) (solid : Solid after) :
    Reads charClass ('<' :: before) (fun found => found = true) after := by
  have named : Reads className ('<' :: before) (fun found => found.isSome) behind := by
    refine Reads.attempt ?_ fun _ some => some
    refine (reads_skip 1).bind fun _ _ => (reads_skipSpacing false blanks (solid_name name)).bind fun _ _ => ?_
    refine (reads_identifier name).bind fun found some => ?_
    obtain ⟨found, rfl⟩ := Option.isSome_iff_exists.mp some
    refine (reads_skipSpacing false blanks' (solid_sign (by decide) (by decide) _)).bind fun _ _ => ?_
    refine (reads_eat ">" behind).bind ?_
    rintro _ rfl
    exact reads_pure rfl
  refine reads_here fun start => named.bind fun found some => ?_
  obtain ⟨found, rfl⟩ := Option.isSome_iff_exists.mp some
  exact (reads_leaf blanks'' solid).bind fun _ _ => reads_pure rfl

/-- A name with nothing behind it that makes it the beginning of a production. -/
theorem not_atHead (name : Name before named) (blanks : Spacing named after) (clear : Clear after) :
    ¬ AtHead before := by
  rintro ⟨named', sign, behind, name', known, blanks'⟩
  obtain rfl := name_unique name name'
  obtain rfl := spacing_unique blanks clear.toSolid blanks' (solid_assignment known behind)
  exact clear.assigned sign known (List.prefix_append sign behind)

theorem reads_reference {s : List Char} (other : ¬ AtHead s)
    (found : Reads referenceName s (fun found => found.isSome) named) (blanks : Spacing named after)
    (solid : Solid after) : Reads reference s (fun found => found = true) after := by
  refine (reads_atProductionHead s).bind fun head iff => ?_
  cases head with
  | true => exact absurd (iff.mp rfl) other
  | false =>
    refine reads_here fun start => found.bind fun found some => ?_
    obtain ⟨⟨name, memo⟩, rfl⟩ := Option.isSome_iff_exists.mp some
    exact (reads_leaf blanks solid).bind fun _ _ => reads_pure rfl

theorem reads_referenceName (name : Name before named) :
    Reads referenceName before (fun found => found.isSome) named := by
  refine Reads.attempt ?_ fun _ some => some
  refine (reads_eat_none (headed_apart (d := '@') rfl ?_)).bind fun memo _ => ?_
  · obtain ⟨first, rest, rfl, start⟩ := name_head name
    rintro ⟨⟩
    cases (not_nameStart_sign (by decide)).symm.trans start
  · refine (reads_identifier name).bind fun found some => reads_pure ?_
    rw [Option.isSome_map]
    exact some

theorem reads_referenceName_memo (name : Name before named) :
    Reads referenceName ('@' :: before) (fun found => found.isSome) named := by
  refine Reads.attempt ((reads_eat "@" before).bind fun memo _ => ?_) fun _ some => some
  refine (reads_identifier name).bind fun found some => reads_pure ?_
  rw [Option.isSome_map]
  exact some

theorem reads_closeParenthesis (behind : List Char) :
    Reads closeParenthesis (')' :: behind) (fun _ => True) behind := by
  refine (reads_eat ")" behind).bind ?_
  rintro _ rfl
  exact reads_pure trivial

theorem reads_grouping (body : Reads expression middle (fun found => found = true) (')' :: behind))
    (blanks : Spacing before middle) (solid : Solid middle) (blanks' : Spacing behind after) (solid' : Solid after) :
    Reads (grouping expression) ('(' :: before) (fun found => found = true) after := by
  have inside : Reads (Read.attempt id do
      skip 1
      spacing
      expression) ('(' :: before) (fun found => found = true) (')' :: behind) :=
    Reads.attempt ((reads_skip 1).bind fun _ _ => (reads_spacing blanks solid).bind fun _ _ => body) fun _ some => some
  refine inside.bind ?_
  rintro _ rfl
  refine (reads_closeParenthesis behind).bind fun _ _ => (reads_spacing blanks' solid').bind fun _ _ => ?_
  exact reads_pure rfl

theorem reads_action {opened : List Char} (name : Name before named) (blanks : Spacing named ('(' :: opened))
    (blanks' : Spacing opened middle) (solid : Solid middle)
    (body : Reads expression middle (fun _ => True) (')' :: behind)) (blanks'' : Spacing behind after)
    (solid' : Solid after) : Reads (action expression) ('$' :: before) (fun found => found = true) after := by
  have headed : Reads actionHead ('$' :: before) (fun found => found.isSome) opened := by
    refine Reads.attempt ?_ fun _ some => some
    refine (reads_skip 1).bind fun _ _ => (reads_identifier name).bind fun found some => ?_
    obtain ⟨found, rfl⟩ := Option.isSome_iff_exists.mp some
    refine (reads_skipSpacing false blanks (solid_sign (by decide) (by decide) _)).bind fun _ _ => ?_
    refine (reads_eat "(" opened).bind ?_
    rintro _ rfl
    exact reads_pure rfl
  refine reads_here fun start => headed.bind fun found some => ?_
  obtain ⟨found, rfl⟩ := Option.isSome_iff_exists.mp some
  refine (reads_spacing blanks' solid).bind fun _ _ => reads_built (body.bind fun _ _ => ?_)
  refine (reads_closeParenthesis behind).bind fun _ _ => reads_here fun stop => reads_built ?_
  refine (reads_built (reads_build _)).bind fun _ _ => reads_built ?_
  exact (reads_spacing blanks'' solid').bind fun _ _ => reads_pure rfl

/-- Without one of the signs that operands begin with, an operand is a name or nothing. -/
theorem reads_operand_plain {first : Char} {rest : List Char} {A : Bool → Prop}
    (other : first ∉ "'\"[<.($@".toList)
    (read : Reads (if isNameStart first then reference else pure false) (first :: rest) A after) :
    Reads (operand expression) (first :: rest) A after := by
  have apart {c : Char} (member : c ∈ "'\"[<.($@".toList) (same : some first = some c) : False := by
    cases same
    exact other member
  refine reads_here fun _ => reads_peek ?_
  rw [List.head?_cons]
  split
  · next same => exact (apart (by decide) same).elim
  · next same => exact (apart (by decide) same).elim
  · next same => exact (apart (by decide) same).elim
  · next same => exact (apart (by decide) same).elim
  · next same => exact (apart (by decide) same).elim
  · next same => exact (apart (by decide) same).elim
  · next same => exact (apart (by decide) same).elim
  · next same => exact (apart (by decide) same).elim
  · next same =>
    cases same
    exact read
  · next same => cases same

/-- No operand begins with a sign that ends a sequence. -/
theorem reads_operand_none {s : List Char} (stop : Stop s) :
    Reads (operand expression) s (fun found => found = false) s := by
  obtain ⟨c, known, first⟩ := stop.ended
  obtain ⟨rest, rfl⟩ := List.head?_eq_some_iff.mp first
  have ends : ∀ c ∈ ['/', '|', ')', ';'], c ∈ signs ∧ c ∉ "'\"[<.($@".toList :=
    forall_of_all (by decide)
  obtain ⟨sign, other⟩ := ends c known
  apply reads_operand_plain other
  rw [not_nameStart_sign sign, if_neg Bool.false_ne_true]
  exact reads_pure rfl

theorem reads_operand_name (name : Name before named) {A : Bool → Prop} (read : Reads reference before A after) :
    Reads (operand expression) before A after := by
  obtain ⟨first, rest, rfl, start⟩ := name_head name
  have signs : ∀ c ∈ "'\"[<.($@".toList, c ∈ signs := forall_of_all (by decide)
  apply reads_operand_plain
  · intro member
    cases (not_nameStart_sign (signs first member)).symm.trans start
  · rw [if_pos start]
    exact read

theorem reads_lookaheadSign (sign : Sign before middle) (opens : Opens opensOperand middle) :
    Reads lookaheadSign before (fun _ => True) middle := by
  have solid := opens.unary.clear.1.toSolid
  cases sign with
  | none =>
    refine (reads_eat_none (headed_apart (d := '!') rfl (opens.head_ne (by decide +kernel)))).bind ?_
    rintro _ rfl
    refine (reads_eat_none (headed_apart (d := '&') rfl (opens.head_ne (by decide +kernel)))).bind ?_
    rintro _ rfl
    exact reads_pure trivial
  | lookahead known blanks =>
    rcases known with rfl | rfl
    · refine (reads_eat "!" _).bind ?_
      rintro _ rfl
      exact (reads_spacing blanks solid).bind fun _ _ => reads_pure trivial
    · refine (reads_eat_none (headed_apart (d := '!') rfl (by simp))).bind ?_
      rintro _ rfl
      refine (reads_eat "&" _).bind ?_
      rintro _ rfl
      exact (reads_spacing blanks solid).bind fun _ _ => reads_pure trivial

theorem reads_unary (sign : Sign before middle) (opens : Opens opensOperand middle)
    (operand : Reads (operand expression) middle (fun found => found = true) behind) (suffixed : Suffix behind after)
    (clear : Clear after) (bare : Bare after) : Reads (unary expression) before (fun found => found = true) after := by
  have signed : Reads (signedOperand expression) before (fun found => found.isSome) behind := by
    refine Reads.attempt ((reads_lookaheadSign sign opens).bind fun sign _ => operand.bind ?_) fun _ some => some
    rintro _ rfl
    exact reads_pure rfl
  have quantified (start : Position) : Reads (do
      suffix start
      return true) behind (fun found => found = true) after :=
    (reads_suffix start suffixed clear bare).bind fun _ _ => reads_pure rfl
  refine reads_here fun start => signed.bind fun found some => ?_
  obtain ⟨sign, rfl⟩ := Option.isSome_iff_exists.mp some
  cases sign with
  | none => exact quantified start
  | some sign =>
    exact reads_built (reads_tokenEnd fun _ => (reads_built (reads_build _)).bind fun _ _ => quantified start)

theorem reads_unary_none {s : List Char} (stop : Stop s) :
    Reads (unary expression) s (fun found => found = false) s := by
  obtain ⟨c, known, first⟩ := stop.ended
  have other {e : Char} (apart : e ∉ ['/', '|', ')', ';']) : s.head? ≠ some e := by
    rw [first]
    rintro ⟨⟩
    exact apart known
  have unsigned : Reads lookaheadSign s (fun _ => True) s := by
    refine (reads_eat_none (headed_apart (d := '!') rfl (other (by decide)))).bind ?_
    rintro _ rfl
    refine (reads_eat_none (headed_apart (d := '&') rfl (other (by decide)))).bind ?_
    rintro _ rfl
    exact reads_pure trivial
  have signed : Reads (signedOperand expression) s (fun found => found = none) s := by
    have inside : Reads (do
        let sign ← lookaheadSign
        if ← operand expression then return some sign else return none) s (fun found => found = none) s := by
      refine unsigned.bind fun sign _ => (reads_operand_none stop).bind ?_
      rintro _ rfl
      exact reads_pure rfl
    exact Reads.attempt_failed inside fun _ same => same ▸ rfl
  refine reads_here fun start => signed.bind ?_
  rintro _ rfl
  exact reads_pure rfl

theorem reads_sequence
    (unaries : ∀ limit, Reads (countWhile (unary expression) limit) before (fun count => 0 < count) after) :
    Reads (sequence expression) before (fun found => found = true) after := by
  refine reads_here fun start => reads_built (reads_steps fun limit => (unaries limit).bind fun count some => ?_)
  rw [if_neg (Nat.ne_of_gt some)]
  refine reads_built (reads_tokenEnd fun _ => (reads_built (reads_build _)).bind fun _ _ => reads_built ?_)
  exact reads_pure rfl

theorem reads_countWhile_none {step : Read Bool} {s : List Char} (failed : Reads step s (fun more => more = false) s)
    (limit : Nat) : Reads (countWhile step limit) s (fun count => count = 0) s := by
  cases limit with
  | zero => exact reads_throw _
  | succ limit =>
    refine failed.bind ?_
    rintro _ rfl
    exact reads_pure rfl

theorem reads_countWhile_more {step : Read Bool} (first : Reads step before (fun more => more = true) middle)
    {A : Nat → Prop} (rest : ∀ limit, Reads (countWhile step limit) middle A after) (limit : Nat) :
    Reads (countWhile step limit) before (fun count => ∃ others, A others ∧ count = others + 1) after := by
  cases limit with
  | zero => exact reads_throw _
  | succ limit =>
    refine first.bind ?_
    rintro _ rfl
    exact (rest limit).bind fun others holds => reads_pure ⟨others, holds, rfl⟩

theorem reads_sequence_none {s : List Char} (stop : Stop s) :
    Reads (sequence expression) s (fun found => found = false) s := by
  refine reads_here fun start => reads_built (reads_steps fun limit => ?_)
  refine (reads_countWhile_none (reads_unary_none stop) limit).bind ?_
  rintro _ rfl
  exact reads_built (reads_pure rfl)

theorem reads_expression_none {s : List Char} (stop : Stop s) (depth : Nat) :
    Reads (Read.expression depth) s (fun found => found = false) s := by
  cases depth with
  | zero => exact reads_throw _
  | succ depth =>
    refine reads_here fun start => reads_built ((reads_sequence_none stop).bind ?_)
    rintro _ rfl
    exact reads_built (reads_pure rfl)

theorem reads_alternative {sign : Char} (known : sign = '/' ∨ sign = '|') (blanks : Spacing behind middle)
    (solid : Solid middle) (sequence : Reads (sequence expression) middle (fun found => found = true) after) :
    Reads (alternative expression) (sign :: behind) (fun found => found = true) after := by
  have rest : Reads (do
      spacing
      if ← Read.sequence expression then return true
      let place ← here
      report .syntaxError place place "expecting an alternative after `/`"
      return false) behind (fun found => found = true) after := by
    refine (reads_spacing blanks solid).bind fun _ _ => sequence.bind ?_
    rintro _ rfl
    exact reads_pure rfl
  rcases known with rfl | rfl
  · refine (reads_eat "/" behind).bind ?_
    rintro _ rfl
    exact rest
  · refine (reads_eat_none (headed_apart (d := '/') rfl (by simp))).bind ?_
    rintro _ rfl
    refine (reads_eat "|" behind).bind ?_
    rintro _ rfl
    exact rest

theorem reads_alternative_none {s : List Char} (closes : Close s) :
    Reads (alternative expression) s (fun found => found = false) s := by
  have other {c : Char} (apart : c ∉ [')', ';']) : s.head? ≠ some c := by
    obtain ⟨rest, rfl | rfl⟩ := closes
    · rintro ⟨⟩
      exact apart (by decide)
    · rintro ⟨⟩
      exact apart (by decide)
  refine (reads_eat_none (headed_apart (d := '/') rfl (other (by decide)))).bind ?_
  rintro _ rfl
  refine (reads_eat_none (headed_apart (d := '|') rfl (other (by decide)))).bind ?_
  rintro _ rfl
  exact reads_pure rfl

/-- How the parts of an expression are read, if what stands behind them does not continue them. -/
def ReadsPart (category : Category) (before after : List Char) : Prop :=
  match category with
  | .operand => Clear after → ∀ depth, Reads (operand (Read.expression depth)) before (fun found => found = true) after
  | .unary => Clear after → Bare after →
      ∀ depth, Reads (unary (Read.expression depth)) before (fun found => found = true) after
  | .sequence => Stop after → ∀ depth limit,
      Reads (countWhile (unary (Read.expression depth)) limit) before (fun count => 0 < count) after
  | .alternatives => Close after → Stop before ∧ ∀ depth limit,
      Reads (countWhile (alternative (Read.expression depth)) limit) before (fun _ => True) after
  | .expression => Close after → ∀ depth, Reads (Read.expression depth) before (fun found => found = true) after

/-- A slash between alternatives is not the beginning of a comment. -/
theorem solid_separator (uncommented : Uncommented behind) (blanks : Spacing behind middle)
    (opens : Opens opensUnary middle) : Solid ('/' :: behind) := by
  apply solid_slash
  cases blanks with
  | none =>
    have other {c : Char} (sign : opensUnary c = false) (tail : List Char) : middle ≠ c :: tail := by
      rintro rfl
      exact opens.head_ne sign rfl
    exact fun tail => ⟨other (by decide +kernel) tail, other (by decide +kernel) tail⟩
  | more first rest =>
    cases first with
    | blank white =>
      intro tail
      constructor
      · rintro ⟨⟩
        exact not_blank_sign (by decide) white
      · rintro ⟨⟩
        exact not_blank_sign (by decide) white
    | line | lastLine => exact absurd ⟨_, .inl rfl⟩ uncommented
    | block => exact absurd ⟨_, .inr rfl⟩ uncommented

theorem solid_part (derived : Part d category before after) (proper : category ≠ .alternatives) : Solid before := by
  have opens := opens_part derived
  cases category with
  | operand => exact (Opens.unary opens).clear.1.toSolid
  | alternatives => exact absurd rfl proper
  | unary | sequence | expression => exact (Opens.clear opens).1.toSolid

theorem reads_part (conservative : d.Conservative) (derived : Part d category before after) :
    ReadsPart category before after := by
  induction derived with
  | text known quoted blanks =>
    intro clear depth
    have read := reads_token known quoted blanks clear
    obtain ⟨items⟩ := quoted
    rcases known with rfl | rfl
    · exact reads_here fun _ => reads_peek (read.bind fun _ _ => reads_pure rfl)
    · exact reads_here fun _ => reads_peek (read.bind fun _ _ => reads_pure rfl)
  | interval lo blanks blanks' hi blanks'' =>
    intro clear depth
    have read := reads_token_interval ⟨_, _, _, lo, blanks, blanks', hi⟩ blanks'' clear.toSolid
    obtain ⟨inner, rfl⟩ := single_head lo
    exact reads_here fun _ => reads_peek (read.bind fun _ _ => reads_pure rfl)
  | set set blanks =>
    intro clear depth
    have read := reads_charset conservative.closed set
    obtain ⟨first, rest, rfl, -, bracket⟩ := inSet_head set
    obtain rfl := bracket rfl
    refine reads_here fun _ => reads_peek (read.bind fun _ _ => ?_)
    exact (reads_leaf blanks clear.toSolid).bind fun _ _ => reads_pure rfl
  | charClass blanks name blanks' blanks'' =>
    intro clear depth
    exact reads_here fun _ => reads_peek (reads_charClass blanks name blanks' blanks'' clear.toSolid)
  | any blanks =>
    intro clear depth
    refine reads_here fun _ => reads_peek ((reads_skip 1).bind fun _ _ => ?_)
    exact (reads_leaf blanks clear.toSolid).bind fun _ _ => reads_pure rfl
  | reference name blanks =>
    intro clear depth
    apply reads_operand_name name
    exact reads_reference (not_atHead name blanks clear) (reads_referenceName name) blanks clear.toSolid
  | remembered name blanks =>
    intro clear depth
    refine reads_here fun _ => reads_peek ?_
    refine reads_reference ?_ (reads_referenceName_memo name) blanks clear.toSolid
    rintro ⟨named, sign, behind, sign', -⟩
    obtain ⟨_, _, same, start⟩ := name_head sign'
    cases same
    cases (not_nameStart_sign (by decide)).symm.trans start
  | group blanks body blanks' ih =>
    intro clear depth
    have read := ih ⟨_, .inl rfl⟩ depth
    exact reads_here fun _ => reads_peek
      (reads_grouping read blanks (solid_part body nofun) blanks' clear.toSolid)
  | action name blanks blanks' body blanks'' ih =>
    intro clear depth
    have read := (ih ⟨_, .inl rfl⟩ depth).mono fun _ _ => trivial
    exact reads_here fun _ => reads_peek
      (reads_action name blanks blanks' (solid_part body nofun) read blanks'' clear.toSolid)
  | @emptyAction _ _ _ behind _ name blanks blanks' blanks'' =>
    intro clear depth
    have stop : Stop (')' :: behind) := Close.stop ⟨behind, .inl rfl⟩
    have read := (reads_expression_none stop depth).mono (B := fun _ => True) fun _ _ => trivial
    exact reads_here fun _ => reads_peek
      (reads_action name blanks blanks' stop.toSolid read blanks'' clear.toSolid)
  | unary sign operand suffixed ih =>
    intro clear bare depth
    exact reads_unary sign (opens_part operand) (ih (clear_suffix suffixed clear) depth) suffixed clear bare
  | lastUnary unary ih =>
    intro stop depth limit
    have first := ih stop.clear.1 stop.clear.2 depth
    refine (reads_countWhile_more first (reads_countWhile_none (reads_unary_none stop)) limit).mono ?_
    rintro _ ⟨_, _, rfl⟩
    exact Nat.succ_pos _
  | moreUnaries unary rest ih ih' =>
    intro stop depth limit
    have clear := Opens.clear (opens_part rest)
    refine (reads_countWhile_more (ih clear.1 clear.2 depth) (ih' stop depth) limit).mono ?_
    rintro _ ⟨_, _, rfl⟩
    exact Nat.succ_pos _
  | noAlternative s =>
    intro closes
    refine ⟨closes.stop, fun depth limit => ?_⟩
    exact (reads_countWhile_none (reads_alternative_none closes) limit).mono fun _ _ => trivial
  | alternative known separated blanks sequence rest ih ih' =>
    intro closes
    obtain ⟨stop, others⟩ := ih' closes
    constructor
    · rcases known with rfl | rfl
      · have uncommented := conservative.separates _ (separated rfl)
        exact ⟨solid_separator uncommented blanks (opens_part sequence), '/', by decide, rfl⟩
      · exact ⟨solid_sign (by decide) (by decide) _, '|', by decide, rfl⟩
    · intro depth limit
      have first := reads_alternative known blanks (solid_part sequence nofun) (reads_sequence (ih stop depth))
      exact (reads_countWhile_more first (others depth) limit).mono fun _ _ => trivial
  | expression sequence rest ih ih' =>
    intro closes depth
    obtain ⟨stop, others⟩ := ih' closes
    cases depth with
    | zero => exact reads_throw _
    | succ depth =>
      refine reads_here fun start => reads_built ((reads_sequence (ih stop depth)).bind ?_)
      rintro _ rfl
      refine reads_steps fun limit => (others depth limit).bind fun _ _ => reads_built (reads_tokenEnd fun _ => ?_)
      exact (reads_built (reads_build _)).bind fun _ _ => reads_built (reads_pure rfl)

theorem reads_terminate (behind : List Char) : Reads terminate (';' :: behind) (fun _ => True) behind := by
  refine (reads_eat ";" behind).bind ?_
  rintro _ rfl
  exact reads_pure trivial

theorem atHead_production (produced : Documented.Production d before after) : AtHead before := by
  obtain ⟨name, known, blanks, -, -⟩ := produced
  exact ⟨_, _, _, name, known, blanks⟩

theorem solid_productions (produced : Productions d before) : Solid before := by
  cases produced with
  | last production | more production =>
    obtain ⟨_, _, _, name, -⟩ := atHead_production production
    exact solid_name name

/-- No colon begins an expression, so none is taken for a part of the assignment sign. -/
theorem not_colon (blanks : Spacing before middle) (body : Part d .expression middle after) :
    ∀ c ∈ before.head?, c ≠ ':' := by
  rintro c next rfl
  have opens : Opens opensUnary middle := opens_part body
  exact spacing_head_ne (by decide) (by decide) blanks (opens.head_ne (by decide +kernel)) next

theorem reads_production (conservative : d.Conservative) (produced : Documented.Production d before after) :
    Reads production before (fun _ => True) after := by
  obtain ⟨name, known, blanks, blanks', body⟩ := produced
  obtain ⟨rest, assigned, same⟩ := reads_assignment known _
  obtain rfl := same (not_colon blanks' body)
  refine reads_here fun start => (reads_identifier name).bind fun found _ => ?_
  refine (reads_spacing blanks (solid_assignment known _)).bind fun _ _ => assigned.bind fun _ _ => ?_
  refine (reads_spacing blanks' (solid_part body nofun)).bind fun _ _ => reads_built (reads_steps fun limit => ?_)
  refine (reads_part conservative body ⟨after, .inr rfl⟩ limit).bind ?_
  rintro _ rfl
  refine reads_peek ((reads_terminate after).bind fun _ _ => reads_here fun _ => reads_built ?_)
  exact (reads_build _).mono fun _ _ => trivial

theorem reads_productions_nil (limit : Nat) : Reads (productions limit) [] (fun count => count = 0) [] := by
  cases limit with
  | zero => exact reads_throw _
  | succ limit => exact reads_atEnd (reads_pure rfl)

theorem reads_productions_more (conservative : d.Conservative) (produced : Documented.Production d before behind)
    (blanks : Spacing behind middle) (solid : Solid middle) {A : Nat → Prop}
    (rest : ∀ limit, Reads (productions limit) middle A []) (limit : Nat) :
    Reads (productions limit) before (fun count => count ≠ 0) [] := by
  cases limit with
  | zero => exact reads_throw _
  | succ limit =>
    have head := atHead_production produced
    have some : before ≠ [] := by
      obtain ⟨_, _, _, name, -⟩ := head
      obtain ⟨_, _, rfl, -⟩ := name_head name
      exact List.cons_ne_nil _ _
    refine reads_atEnd ?_
    rw [List.isEmpty_eq_false_iff.mpr some]
    refine (reads_atProductionHead before).bind fun found iff => ?_
    rw [if_pos (iff.mpr head)]
    refine (reads_production conservative produced).bind fun _ _ => (reads_spacing blanks solid).bind fun _ _ => ?_
    exact (rest limit).bind fun count _ => reads_pure (Nat.succ_ne_zero count)

theorem reads_productions (conservative : d.Conservative) (produced : Productions d before) (limit : Nat) :
    Reads (productions limit) before (fun count => count ≠ 0) [] := by
  induction produced generalizing limit with
  | last production blanks =>
    exact reads_productions_more conservative production blanks solid_nil reads_productions_nil limit
  | more production blanks rest ih =>
    exact reads_productions_more conservative production blanks (solid_productions rest) ih limit

/-- Whatever is documented is read without a problem. -/
theorem reads_grammar (conservative : d.Conservative) (text : Documented.Text d before) :
    Reads grammar before (fun _ => True) [] := by
  obtain ⟨blanks, produced⟩ := text
  refine (reads_spacing blanks (solid_productions produced)).bind fun _ _ => reads_steps fun limit => ?_
  refine (reads_productions conservative produced limit).bind fun count some => ?_
  rw [if_neg some]
  exact reads_pure trivial

end Read

end Packrat
