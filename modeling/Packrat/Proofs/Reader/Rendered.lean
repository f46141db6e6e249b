import Packrat.Proofs.Grammar.Rendering
import Packrat.Proofs.Reader.Expression
import Packrat.Proofs.Reader.Spelling

/-! # Reading rendered expressions

The text of a phrase is read as its normal form. Each reader stops where its own text ends, because of what stands
behind it: an operand is not continued by a name or a minus sign, an operand with its signs is followed by something
that is not a quantifier, and behind a sequence or an expression is a sign that cannot begin the next operand.
-/

namespace Packrat

namespace Read

variable {α : Type} {c c' c'' : Cursor} {p q : Phrase} {ps qs : List Phrase} {s before middle behind : List Char}

/-- A text that does not continue a name, and where the first sign is a `stop`, which begins neither a comment nor an
assignment. -/
structure Behind (stop : Char → Bool) (s : List Char) : Prop where
  name : ∀ d ∈ s.head?, isNamePart d = false
  next : ∀ d ∈ (settle s).head?, stop d = true
  calm : Calm s
  arrow : ∀ rest, settle s ≠ '<' :: '-' :: rest

def endsOperand (d : Char) : Bool := d ∉ "-:=".toList

def endsSequence (d : Char) : Bool := d ∈ "/);".toList

def endsExpression (d : Char) : Bool := d ∈ ");".toList

variable {stop stop' : Char → Bool}

theorem Behind.mono (ends : Behind stop s) (weaker : ∀ d, stop d = true → stop' d = true) : Behind stop' s :=
  { ends with next := fun d member => weaker d (ends.next d member) }

theorem endsOperand_of_unary (d : Char) (ends : endsUnary d = true) : endsOperand d = true := by
  rw [endsUnary, decide_eq_true_eq] at ends
  rw [endsOperand, decide_eq_true_eq]
  have all : ∀ d ∈ "-:=".toList, d ∈ "-:=?*+\x7b".toList := forall_of_all (by decide)
  exact fun member => ends (all d member)

theorem endsUnary_of_sequence (d : Char) (ends : endsSequence d = true) : endsUnary d = true := by
  rw [endsSequence, decide_eq_true_eq] at ends
  have all : ∀ d ∈ "/);".toList, endsUnary d = true := forall_of_all (by decide)
  exact all d ends

theorem endsSequence_of_expression (d : Char) (ends : endsExpression d = true) : endsSequence d = true := by
  rw [endsExpression, decide_eq_true_eq] at ends
  have all : ∀ d ∈ ");".toList, endsSequence d = true := forall_of_all (by decide)
  exact all d ends

/-- A sign right behind. -/
theorem behind_sign {sign : Char} (member : sign ∈ signs) (ends : stop sign = true) (slash : sign ≠ '/')
    (less : sign ≠ '<') : Behind stop (sign :: s) where
  name := by
    rintro _ ⟨⟩
    exact isNamePart_of_sign sign member
  next := by
    rw [settle_sign member]
    rintro _ ⟨⟩
    exact ends
  calm := calm_sign member slash
  arrow rest same := by
    rw [settle_sign member] at same
    exact less (List.cons.inj same).1

/-- `c'` is `c` with the phrases pushed and `behind` ahead, and nothing was reported. -/
structure Pushed (c c' : Cursor) (ps : List Phrase) (behind : List Char) : Prop where
  grows : Grows c c' ps
  rest : c'.rest = behind
  problems : c'.problems = c.problems

theorem Passed.pushed (passed : Passed c c' behind) (opened : c.builder.Open) : Pushed c c' [] behind where
  grows := ⟨passed.marks, passed.builder ▸ opened.balanced, passed.builder ▸ .refl _, List.forall_mem_nil _⟩
  rest := passed.rest
  problems := passed.problems

theorem Pushed.passed (pushed : Pushed c c' ps middle) (passed : Passed c' c'' behind) : Pushed c c'' ps behind where
  grows := { pushed.grows with
    marks := passed.marks.trans pushed.grows.marks
    balanced := passed.builder ▸ pushed.grows.balanced
    ext := passed.builder ▸ pushed.grows.ext }
  rest := passed.rest
  problems := passed.problems.trans pushed.problems

theorem Pushed.trans (first : Pushed c c' ps middle) (second : Pushed c' c'' qs behind) :
    Pushed c c'' (ps ++ qs) behind where
  grows := first.grows.trans second.grows
  rest := second.rest
  problems := second.problems.trans first.problems

/-- A builder's operation reports nothing. -/
private theorem Ends.quiet {step : Builder.Step} {Q : Unit → Cursor → Prop} (ends : Ends (build step) c Q) :
    Ends (build step) c fun a c' => Q a c' ∧ c'.problems = c.problems := by
  cases applied : c.builder.apply step with
  | ok builder =>
    rw [ends_last, ends_build applied, ends_pure] at ends ⊢
    exact ⟨ends, rfl⟩
  | error error =>
    rw [Read.build, ends_get, applied] at ends
    obtain ⟨_, _, ran, -⟩ := ends
    cases ran

theorem Pushed.build {step : Builder.Step} (pushed : Pushed c c' ps behind)
    (accepted : ∃ builder, c'.builder.apply step = .ok builder ∧ c.builder.Extends builder qs)
    (balances : step.balances c'.builder = true) (writable : ∀ q ∈ qs, q.Writable) :
    Ends (Read.build step) c' fun _ c'' => Pushed c c'' qs behind :=
  (pushed.grows.build accepted balances writable).quiet.mono fun _ _ ⟨⟨grows, same⟩, quiet⟩ =>
    ⟨grows, same.trans pushed.rest, quiet.trans pushed.problems⟩

theorem Pushed.locate (pushed : Pushed c c' ps behind) (opened : c.builder.Open) (start stop : Position) :
    Ends (Read.locate start stop) c' fun _ c'' => Pushed c c'' ps behind := by
  have writable := pushed.grows.writable
  refine (pushed.build (pushed.grows.ext.setStart opened start) rfl writable).bind fun _ next pushed => ?_
  exact pushed.build (pushed.grows.ext.setStop opened stop) rfl writable

/-- An operation with a place for what it pushes, and the blanks behind it. -/
theorem Pushed.leaf {step : Builder.Step} (pushed : Pushed c c' ps behind) (opened : c.builder.Open)
    (accepted : ∃ builder, c'.builder.apply step = .ok builder ∧ c.builder.Extends builder qs)
    (balances : step.balances c'.builder = true) (writable : ∀ q ∈ qs, q.Writable) (calm : Calm behind)
    (start : Position) : Ends (Read.leaf start step) c' fun _ c'' => Pushed c c'' qs (settle behind) := by
  refine (pushed.build accepted balances writable).bind fun _ next pushed => ?_
  rw [ends_here]
  refine (pushed.locate opened start next.position).bind fun _ next' pushed => ?_
  exact (takes_spacing calm next' pushed.rest).mono fun _ last ⟨_, passed⟩ => pushed.passed passed

/-- The reader finds the phrase at the beginning of the text ahead, if that is shorter than `bound`. -/
def Finds (bound : Nat) (step : Read Bool) (before : List Char) (p : Phrase) (behind : List Char) : Prop :=
  ∀ c : Cursor, c.builder.Open → c.rest = before → before.length < bound →
    Ends step c fun found c' => found = true ∧ Pushed c c' [p] behind

theorem Behind.alone (ends : Behind endsOperand s) : "-".toList.isPrefixOf (settle s) = false := by
  cases same : settle s with
  | nil => rfl
  | cons d rest =>
    refine Bool.and_eq_false_imp.mpr fun equal => absurd (ends.next d (by rw [same]; rfl)) ?_
    rw [← beq_iff_eq.mp equal]
    decide

/-- A terminal behind the text that spells it. -/
private theorem ends_leaf_passed {t : Terminal} (opened : c.builder.Open) (passed : Passed c c' s) (writable : t.Writable)
    (calm : Calm s) (start : Position) :
    Ends (leaf start (.terminal t)) c' fun _ c'' => Pushed c c'' [.terminal t] (settle s) := by
  have pushed := passed.pushed opened
  refine pushed.leaf opened (pushed.grows.ext.terminal opened t) rfl ?_ calm start
  intro p member
  rw [List.mem_singleton.mp member]
  exact .terminal writable

private theorem ends_token_image {image : List Char} (opened : c.builder.Open)
    (here : c.rest = quotation '\'' image ++ s) (ends : Behind endsOperand s) : Ends (token '\'') c fun _ c' =>
      Pushed c c' [.terminal (.token (String.ofList image) true)] (settle s) := by
  rw [token, ends_here, if_pos rfl]
  refine (takes_quietInterval_none image ends.calm ends.alone c here).bind fun _ c₁ holds => ?_
  obtain ⟨same, passed⟩ := holds
  subst same
  refine (takes_quotedText (.inl rfl) image s c₁ passed.rest).bind fun _ c₂ holds => ?_
  obtain ⟨same, passed'⟩ := holds
  subst same
  refine ends_leaf_passed opened (passed.trans passed') ?_ ends.calm c.position
  trivial

private theorem ends_token_folded {image : List Char} (opened : c.builder.Open)
    (here : c.rest = quotation '"' image ++ s) (calm : Calm s) : Ends (token '"') c fun _ c' =>
      Pushed c c' [.terminal (.token (String.ofList image) false)] (settle s) := by
  rw [token, ends_here, if_neg (by decide), pure_bind]
  refine (takes_quotedText (.inr rfl) image s c here).bind fun _ c₁ holds => ?_
  obtain ⟨same, passed⟩ := holds
  subst same
  refine ends_leaf_passed opened passed ?_ calm c.position
  trivial

private theorem ends_token_interval {i : Interval} (ordered : i.Ordered) (opened : c.builder.Open)
    (here : c.rest = quotation '\'' [i.lo] ++ '-' :: (quotation '\'' [i.hi] ++ s)) (calm : Calm s) :
    Ends (token '\'') c fun _ c' => Pushed c c' [.terminal (.interval i)] (settle s) := by
  rw [token, ends_here, if_pos rfl]
  refine (takes_quietInterval i.lo i.hi s c here).bind fun _ c₁ holds => ?_
  obtain ⟨same, passed⟩ := holds
  subst same
  dsimp only
  rw [Interval.between_of_le ordered]
  refine ends_leaf_passed opened passed ?_ calm c.position
  exact ordered

private theorem takes_className {name : String} (named : IsName name) (behind : List Char) :
    Takes className ('<' :: (name.toList ++ '>' :: behind)) (some name) behind := by
  have greater : '>' ∈ signs := by decide
  obtain ⟨first, rest, same, start, -⟩ := id named
  have solid := solid_of_nameStart start
  have slash : first ≠ '/' := ne_sign_of_nameStart start (by decide)
  refine Takes.attempt ((takes_skip 1 _).bind ?_) rfl
  have calm : Calm (name.toList ++ '>' :: behind) := by
    rw [same]
    exact calm_cons solid slash
  have settled : settle (name.toList ++ '>' :: behind) = name.toList ++ '>' :: behind := by
    rw [same]
    exact settle_cons_of_not_blank solid
  refine (takes_skipSpacing false calm).bind ?_
  rw [settled]
  refine (takes_identifier named ?_).bind ((takes_skipSpacing false (calm_sign greater (by decide))).bind ?_)
  · rintro _ ⟨⟩
    exact isNamePart_of_sign _ greater
  · rw [settle_sign greater]
    exact (takes_eat ">" behind).bind (takes_pure _ _)

theorem toList_tokenText (image : String) (caseSensitive : Bool) :
    (Terminal.token image caseSensitive).text.toList =
      quotation (if caseSensitive then '\'' else '"') image.toList := by
  cases caseSensitive <;> simp [Terminal.text, Escape.text, quotation]

/-- The text of a terminal is read as its normal form. -/
theorem finds_operand_terminal {t : Terminal} {expression : Read Bool} {bound : Nat} (writable : t.Writable)
    (ends : Behind endsOperand s) :
    Finds bound (operand expression) (t.text.toList ++ s) (.terminal t.normal) (settle s) := by
  intro c opened here _
  rw [operand, ends_here, ends_peek]
  cases t with
  | nil =>
    have text : Terminal.nil.text.toList ++ s = quotation '\'' [] ++ s := rfl
    rw [text] at here
    have read := ends_token_image opened here ends
    rw [here]
    exact read.bind fun _ c' pushed => (ends_pure _).mpr ⟨rfl, pushed⟩
  | any =>
    rw [here]
    have passed : Passed c (c.forward 1) s := by
      refine ⟨?_, rfl, rfl, rfl⟩
      rw [Cursor.rest_forward, here]
      rfl
    have read : Ends (leaf c.position (.terminal .any)) (c.forward 1) fun _ c' =>
        Pushed c c' [.terminal .any] (settle s) := ends_leaf_passed opened passed writable ends.calm c.position
    exact ends_skip.mpr (read.bind fun _ c' pushed => (ends_pure _).mpr ⟨rfl, pushed⟩)
  | token image caseSensitive =>
    rw [toList_tokenText] at here
    cases caseSensitive with
    | true =>
      have read := ends_token_image opened here ends
      rw [here]
      rw [String.ofList_toList] at read
      exact read.bind fun _ c' pushed => (ends_pure _).mpr ⟨rfl, pushed⟩
    | false =>
      have read := ends_token_folded opened here ends.calm
      rw [here]
      rw [String.ofList_toList] at read
      exact read.bind fun _ c' pushed => (ends_pure _).mpr ⟨rfl, pushed⟩
  | interval i =>
    rw [Terminal.text, toList_intervalText] at here
    rw [Terminal.normal]
    split at here
    · next single =>
      have read := ends_token_image opened here ends
      rw [here, if_pos single]
      exact read.bind fun _ c' pushed => (ends_pure _).mpr ⟨rfl, pushed⟩
    · next several =>
      rw [List.append_assoc, List.cons_append] at here
      have read := ends_token_interval writable opened here ends.calm
      rw [here, if_neg several]
      exact read.bind fun _ c' pushed => (ends_pure _).mpr ⟨rfl, pushed⟩
  | set members =>
    obtain ⟨rest, begins⟩ : ∃ rest, members.text.toList = '[' :: rest := by
      rcases toList_charsetText members with same | same <;> exact ⟨_, same⟩
    have read := takes_charset writable s c here
    rw [here, Terminal.text, begins]
    refine read.bind fun _ c₁ holds => ?_
    obtain ⟨same, passed⟩ := holds
    subst same
    refine (ends_leaf_passed opened passed writable ends.calm c.position).bind fun _ c' pushed => ?_
    exact (ends_pure _).mpr ⟨rfl, pushed⟩
  | charClass k =>
    obtain ⟨named, same⟩ := id writable
    have text : (Terminal.charClass k).text.toList ++ s = '<' :: (k.name.toList ++ '>' :: s) := by
      simp [Terminal.text]
    rw [text] at here
    have read := takes_className named s c here
    rw [here]
    refine ends_here.mpr (read.bind fun _ c₁ holds => ?_)
    obtain ⟨found, passed⟩ := holds
    subst found
    dsimp only
    rw [same]
    refine (ends_leaf_passed opened passed writable ends.calm c.position).bind fun _ c' pushed => ?_
    exact (ends_pure _).mpr ⟨rfl, pushed⟩

/-- A text that begins in another way is not eaten. -/
private theorem takes_eat_other (text : String) {first : Char} {rest : List Char} (spelled : text.toList = first :: rest)
    (other : ∀ d ∈ s.head?, d ≠ first) : Takes (eat text) s false s := by
  refine takes_eat_none ?_
  rw [spelled]
  cases s with
  | nil => rfl
  | cons d rest => exact Bool.and_eq_false_imp.mpr fun equal => absurd (beq_iff_eq.mp equal).symm (other d rfl)

private theorem takes_assignment_none (ends : Behind endsOperand s) : Takes assignment (settle s) false (settle s) := by
  have other {first : Char} (sign : endsOperand first = false) : ∀ d ∈ (settle s).head?, d ≠ first := by
    rintro d member rfl
    rw [ends.next d member] at sign
    cases sign
  have arrow : "<-".toList.isPrefixOf (settle s) = false := by
    refine Bool.eq_false_iff.mpr fun found => ?_
    obtain ⟨rest, same⟩ := List.isPrefixOf_iff_prefix.mp found
    exact ends.arrow rest same.symm
  refine (takes_eat_other "::=" rfl (other (by decide))).bind ?_
  refine (takes_eat_other ":" rfl (other (by decide))).bind ?_
  exact (takes_eat_other "=" rfl (other (by decide))).bind (takes_eat_none arrow)

/-- A name begins a production only if an assignment is behind it. -/
private theorem takes_atProductionHead_none {name : String} (named : IsName name) (ends : Behind endsOperand s) :
    Takes atProductionHead (name.toList ++ s) false (name.toList ++ s) :=
  Takes.ahead ((takes_identifier named ends.name).bind
    ((takes_skipSpacing false ends.calm).bind (takes_assignment_none ends)))

private theorem takes_referenceName {name : String} {memo : Bool} (named : IsName name) (ends : Behind endsOperand s) :
    Takes referenceName ((if memo then ['@'] else []) ++ name.toList ++ s) (some (name, memo)) s := by
  refine Takes.attempt ?_ rfl
  cases memo with
  | true => exact (takes_eat "@" _).bind ((takes_identifier named ends.name).bind (takes_pure _ _))
  | false =>
    obtain ⟨first, rest, same, start, -⟩ := id named
    refine (takes_eat_other "@" rfl ?_).bind ((takes_identifier named ends.name).bind (takes_pure _ _))
    rw [if_neg Bool.false_ne_true, List.nil_append, same]
    rintro d ⟨⟩
    exact ne_sign_of_nameStart start (by decide)

theorem finds_operand_reference {name : String} {memo : Bool} {expression : Read Bool} {bound : Nat}
    (named : IsName name) (ends : Behind endsOperand s) :
    Finds bound (operand expression) ((Phrase.reference name memo).chars ++ s) (.reference name memo) (settle s) := by
  intro c opened here _
  rw [Phrase.chars] at here
  obtain ⟨first, rest, same, start, -⟩ := id named
  have head : Takes atProductionHead c.rest false c.rest := by
    rw [here]
    cases memo with
    | true =>
      refine Takes.ahead ((takes_identifier_none ?_).bind (takes_pure _ _))
      rintro _ ⟨⟩
      exact isNameStart_of_sign (by decide)
    | false => exact takes_atProductionHead_none named ends
  have read : Ends reference c fun found c' => found = true ∧ Pushed c c' [.reference name memo] (settle s) := by
    refine (head c rfl).bind fun _ c₁ holds => ?_
    obtain ⟨found, passed⟩ := holds
    subst found
    rw [if_neg Bool.false_ne_true, ends_here]
    refine (takes_referenceName named ends c₁ (passed.rest.trans here)).bind fun _ c₂ holds => ?_
    obtain ⟨found, passed'⟩ := holds
    subst found
    have pushed := (passed.trans passed').pushed opened
    refine (pushed.leaf opened (pushed.grows.ext.reference opened name memo) rfl ?_ ends.calm c₁.position).bind
      fun _ c' pushed => (ends_pure _).mpr ⟨rfl, pushed⟩
    intro p member
    rw [List.mem_singleton.mp member]
    exact .reference named
  rw [operand, ends_here, ends_peek, here]
  cases memo with
  | true => exact read
  | false =>
    rw [if_neg Bool.false_ne_true, List.nil_append, same, List.cons_append, List.head?_cons]
    have other {sign : Char} (member : sign ∈ signs) : some first ≠ some sign :=
      fun begins => ne_sign_of_nameStart start member (Option.some.inj begins)
    split
    · next begins => exact absurd begins (other (by decide))
    · next begins => exact absurd begins (other (by decide))
    · next begins => exact absurd begins (other (by decide))
    · next begins => exact absurd begins (other (by decide))
    · next begins => exact absurd begins (other (by decide))
    · next begins => exact absurd begins (other (by decide))
    · next begins => exact absurd begins (other (by decide))
    · next begins => exact absurd begins (other (by decide))
    · next begins =>
      rw [← Option.some.inj begins, if_pos start]
      exact read
    · next begins => cases begins

variable {start : Char → Bool} {text : List Char}

theorem Opens.append (opens : Opens start text) (s : List Char) : Opens start (text ++ s) := by
  obtain ⟨first, rest, rfl, begins, arrow⟩ := opens
  refine ⟨first, rest ++ s, rfl, begins, fun less => ?_⟩
  obtain ⟨d, more, rfl, other⟩ := arrow less
  exact ⟨d, more ++ s, rfl, other⟩

theorem Opens.settled (opens : Opens opensUnary text) : settle text = text := by
  obtain ⟨first, rest, rfl, begins, -⟩ := opens
  exact settle_cons_of_not_blank (opensUnary_spec begins).1

theorem Opens.calm (opens : Opens opensUnary text) : Calm text := by
  obtain ⟨first, rest, rfl, begins, -⟩ := opens
  obtain ⟨solid, slash, -⟩ := opensUnary_spec begins
  exact calm_cons solid slash

/-- An operand may stand behind another one with its signs. -/
theorem Opens.ends_unary (opens : Opens opensUnary text) : Behind endsUnary (' ' :: text) where
  name := by
    rintro _ ⟨⟩
    exact isNamePart_blank
  next := by
    rw [settle_blank, opens.settled]
    obtain ⟨first, rest, rfl, begins, -⟩ := opens
    rintro _ ⟨⟩
    exact (opensUnary_spec begins).2.2
  calm := calm_blank opens.calm
  arrow rest same := by
    rw [settle_blank, opens.settled] at same
    obtain ⟨first, more, rfl, -, arrow⟩ := opens
    obtain ⟨less, same⟩ := List.cons.inj same
    obtain ⟨d, more, rfl, other⟩ := arrow less
    exact other (List.cons.inj same).1

theorem Passed.trans_pushed (passed : Passed c c' middle) (opened : c.builder.Open) (pushed : Pushed c' c'' ps behind) :
    Pushed c c'' ps behind := (passed.pushed opened).trans pushed

theorem Pushed.attempt {a : α} {succeeds : α → Bool} {step : Read α} (success : succeeds a = true)
    (tried : Ends step { c with marks := c.toPlace :: c.marks } fun a' c' =>
      a' = a ∧ Pushed { c with marks := c.toPlace :: c.marks } c' ps behind) :
    Ends (Read.attempt succeeds step) c fun a' c' => a' = a ∧ Pushed c c' ps behind := by
  refine Ends.mono (Ends.attempt (tried.mono fun a' c' holds => ⟨holds.2.grows.marks, holds⟩)) ?_
  rintro _ c' ⟨marked, ⟨rfl, pushed⟩, rfl⟩
  rw [if_pos success]
  exact ⟨rfl, ⟨rfl, pushed.grows.balanced, pushed.grows.ext, pushed.grows.writable⟩, pushed.rest, pushed.problems⟩

private theorem takes_closeParenthesis (behind : List Char) : Takes closeParenthesis (')' :: behind) () behind :=
  (takes_eat ")" behind).bind (takes_pure () behind)

section

variable {expression : Read Bool} {bound : Nat}

theorem finds_operand_group (opens : Opens opensUnary text) (inner : Finds bound expression (text ++ ')' :: s) p (')' :: s))
    (calm : Calm s) : Finds (bound + 1) (operand expression) ('(' :: (text ++ ')' :: s)) p (settle s) := by
  intro c opened here within
  have found : Ends (Read.attempt id do skip 1; spacing; expression) c fun found c' =>
      found = true ∧ Pushed c c' [p] (')' :: s) := by
    refine Pushed.attempt rfl ?_
    refine Ends.bind (takes_skip 1 _ _ here) fun _ c₁ ⟨_, passed⟩ => ?_
    refine (takes_spacing (opens.append (')' :: s)).calm c₁ passed.rest).bind fun _ c₂ ⟨_, passed'⟩ => ?_
    rw [(opens.append _).settled] at passed'
    have passed := passed.trans passed'
    refine (inner c₂ (passed.builder ▸ opened) passed.rest (Nat.lt_of_succ_lt_succ within)).mono
      fun found c₃ ⟨same, pushed⟩ => ⟨same, passed.trans_pushed opened pushed⟩
  have read : Ends (grouping expression) c fun found c' => found = true ∧ Pushed c c' [p] (settle s) := by
    refine found.bind fun _ c₁ ⟨same, pushed⟩ => ?_
    subst same
    rw [if_pos rfl]
    refine (takes_closeParenthesis s c₁ pushed.rest).bind fun _ c₂ ⟨_, passed⟩ => ?_
    refine (takes_spacing calm c₂ passed.rest).bind fun _ c₃ ⟨_, passed'⟩ => ?_
    exact (ends_pure _).mpr ⟨rfl, pushed.passed (passed.trans passed')⟩
  rw [operand, ends_here, ends_peek, here]
  exact read

theorem Pushed.release (pushed : Pushed { c with builder := c.builder.mark } c' ps behind) (opened : c.builder.Open) :
    Ends (Read.build .release) c' fun _ c'' => Pushed c c'' ps behind :=
  (pushed.grows.release opened).quiet.mono fun _ _ ⟨⟨grows, same⟩, quiet⟩ =>
    ⟨grows, same.trans pushed.rest, quiet.trans pushed.problems⟩

theorem Pushed.reset (pushed : Pushed { c with builder := c.builder.mark } c' ps behind) (opened : c.builder.Open) :
    Ends (Read.build .reset) c' fun _ c'' => Pushed c c'' [] behind :=
  (pushed.grows.reset opened).quiet.mono fun _ _ ⟨⟨grows, same⟩, quiet⟩ =>
    ⟨grows, same.trans pushed.rest, quiet.trans pushed.problems⟩

private theorem takes_actionHead {name : String} (named : IsName name) (behind : List Char) :
    Takes actionHead ('$' :: (name.toList ++ '(' :: behind)) (some name) behind := by
  have opening : '(' ∈ signs := by decide
  refine Takes.attempt ((takes_skip 1 _).bind ((takes_identifier named ?_).bind ?_)) rfl
  · rintro _ ⟨⟩
    exact isNamePart_of_sign _ opening
  · refine (takes_skipSpacing false (calm_sign opening (by decide))).bind ?_
    rw [settle_sign opening]
    exact (takes_eat "(" behind).bind (takes_pure _ _)

/-- An action over what is pushed between its parentheses, or the empty text. -/
theorem finds_operand_action {name : String} (named : IsName name) (few : ps.length ≤ 1)
    (settled : settle (text ++ ')' :: s) = text ++ ')' :: s) (calm : Calm (text ++ ')' :: s)) (calm' : Calm s)
    (inner : ∀ c : Cursor, c.builder.Open → c.rest = text ++ ')' :: s → (text ++ ')' :: s).length < bound →
      Ends expression c fun _ c' => Pushed c c' ps (')' :: s)) :
    Finds (bound + 1) (operand expression) ('$' :: (name.toList ++ '(' :: (text ++ ')' :: s)))
      (.action name (ps.headD (.terminal .nil))) (settle s) := by
  intro c opened here within
  have room : (text ++ ')' :: s).length < bound := by
    rw [List.length_cons, List.length_append, List.length_cons] at within
    omega
  have read : Ends (action expression) c fun found c' =>
      found = true ∧ Pushed c c' [.action name (ps.headD (.terminal .nil))] (settle s) := by
    rw [action, ends_here]
    refine (takes_actionHead named _ c here).bind fun _ c₁ holds => ?_
    obtain ⟨same, passed⟩ := holds
    subst same
    refine (takes_spacing calm c₁ passed.rest).bind fun _ c₂ holds => ?_
    obtain ⟨_, passed'⟩ := holds
    rw [settled] at passed'
    have passed := passed.trans passed'
    have opened₂ : c₂.builder.Open := passed.builder ▸ opened
    rw [ends_build (show c₂.builder.apply .mark = .ok c₂.builder.mark from rfl)]
    refine (inner { c₂ with builder := c₂.builder.mark } opened₂.mark passed.rest room).bind fun _ c₃ pushed => ?_
    refine (takes_closeParenthesis s c₃ pushed.rest).bind fun _ c₄ holds => ?_
    obtain ⟨_, closed⟩ := holds
    have pushed := pushed.passed closed
    rw [ends_here]
    refine (pushed.build (pushed.grows.ext.action opened₂ few name) rfl ?_).bind fun _ c₅ pushed => ?_
    · intro q member
      rw [List.mem_singleton.mp member]
      refine .action named ?_
      rcases ps with _ | ⟨p, rest⟩
      · exact .terminal trivial
      · exact pushed.grows.writable p (List.mem_cons_self ..)
    refine (pushed.locate opened₂.mark c.position c₄.position).bind fun _ c₆ pushed => ?_
    refine (pushed.release opened₂).bind fun _ c₇ pushed => ?_
    refine (takes_spacing calm' c₇ pushed.rest).bind fun _ c₈ holds => ?_
    obtain ⟨_, passed''⟩ := holds
    exact (ends_pure _).mpr ⟨rfl, passed.trans_pushed opened (pushed.passed passed'')⟩
  rw [operand, ends_here, ends_peek, here]
  exact read

end

/-- Nothing is repeated without a quantifier. -/
theorem Pushed.suffix_none (pushed : Pushed c c' ps s) (plain : ∀ d ∈ s.head?, endsUnary d = true) (start : Position) :
    Ends (Read.suffix start) c' fun _ c'' => Pushed c c'' ps s := by
  rw [Read.suffix, ends_peek, pushed.rest]
  cases s with
  | nil => exact (ends_pure _).mpr pushed
  | cons d rest =>
    have ends := plain d rfl
    have none : quantifier? d = none := by
      unfold quantifier?
      split
      · cases ends
      · cases ends
      · cases ends
      · rfl
    have brace : d ≠ '\x7b' := by
      rintro rfl
      cases ends
    rw [List.head?_cons]
    dsimp only
    rw [none]
    dsimp only
    rw [if_neg brace, ends_pure]
    exact pushed

/-- The bounds behind an expression repeat it. -/
theorem Pushed.suffix_bounds {min max : Nat} (pushed : Pushed c c' [p] ((Tree.boundsText min max).toList ++ s))
    (opened : c.builder.Open) (ordered : min ≤ max) (positive : 0 < max) (bounded : max ≤ unbounded) (calm : Calm s)
    (start : Position) :
    Ends (Read.suffix start) c' fun _ c'' => Pushed c c'' [.repetition min max p] (settle s) := by
  have writable : ∀ q ∈ [Phrase.repetition min max p], q.Writable := by
    intro q member
    rw [List.mem_singleton.mp member]
    exact .repetition ordered positive bounded (pushed.grows.writable p (List.mem_singleton_self _))
  have accepted {c'' : Cursor} {s' : List Char} (pushed : Pushed c c'' [p] s') :=
    @Builder.Extends.repetition _ _ p [] min max pushed.grows.ext opened ordered positive
  rw [Read.suffix, ends_peek, pushed.rest]
  rcases boundsText_eq min max with ⟨quantifier, symbol, same⟩ | ⟨numbers, text, begins, reads⟩
  · rw [symbol] at pushed ⊢
    have passed : Passed c' (c'.forward 1) s := by
      refine ⟨?_, rfl, rfl, rfl⟩
      rw [Cursor.rest_forward, pushed.rest]
      cases quantifier <;> rfl
    have repeated : Ends (Read.leaf start (.repetition quantifier.bounds.1 quantifier.bounds.2)) (c'.forward 1) fun _ c'' =>
        Pushed c c'' [.repetition min max p] (settle s) := by
      rw [same]
      have pushed := pushed.passed passed
      exact pushed.leaf opened (accepted pushed) rfl writable calm start
    cases quantifier <;> exact ends_skip.mpr repeated
  · rw [text, List.cons_append, List.append_assoc, List.singleton_append] at pushed ⊢
    obtain ⟨settled, calm'⟩ := begins ('\x7d' :: s)
    have read : Ends (Read.bounds start) c' fun _ c'' => Pushed c c'' [.repetition min max p] (settle s) := by
      rw [Read.bounds, ends_here]
      refine (takes_skip 1 _ c' pushed.rest).bind fun _ c₁ holds => ?_
      obtain ⟨_, passed₁⟩ := holds
      refine (takes_spacing calm' c₁ passed₁.rest).bind fun _ c₂ holds => ?_
      obtain ⟨_, passed₂⟩ := holds
      rw [settled] at passed₂
      refine (reads ordered bounded s c₂ passed₂.rest).bind fun _ c₃ holds => ?_
      obtain ⟨same, passed₃⟩ := holds
      subst same
      rw [Option.isSome_some, if_pos rfl]
      refine (takes_eat "\x7d" s c₃ passed₃.rest).bind fun _ c₄ holds => ?_
      obtain ⟨same, passed₄⟩ := holds
      subst same
      have pushed := pushed.passed (passed₁.trans (passed₂.trans (passed₃.trans passed₄)))
      dsimp only
      rw [ends_here, if_pos ⟨ordered, positive⟩]
      refine (pushed.build (accepted pushed) rfl writable).bind fun _ c₅ pushed => ?_
      refine (pushed.locate opened start c₄.position).bind fun _ c₆ pushed => ?_
      exact (takes_spacing calm c₆ pushed.rest).mono fun _ c₇ holds => pushed.passed holds.2
    exact read

/-- The phrase with the sign before it. -/
def signed : Option Lookahead → Phrase → Phrase
  | none, p => p
  | some sign, p => .lookahead sign p

private theorem Opens.unsigned (opens : Opens opensOperand text) : Takes lookaheadSign text none text := by
  obtain ⟨first, rest, rfl, begins, -⟩ := opens
  have apart : ∀ d ∈ "!&".toList, opensOperand d = false := forall_of_all (by decide +kernel)
  have other {sign : Char} (member : sign ∈ "!&".toList) : ∀ d ∈ (first :: rest).head?, d ≠ sign := by
    rintro d ⟨⟩ rfl
    rw [apart _ member] at begins
    cases begins
  refine (takes_eat_other "!" rfl (other (by decide))).bind ?_
  exact (takes_eat_other "&" rfl (other (by decide))).bind (takes_pure none _)

private theorem takes_lookaheadSign (sign : Lookahead) (opens : Opens opensUnary text) :
    Takes lookaheadSign (sign.symbol.toList ++ text) (some sign) text := by
  have blanks := takes_spacing opens.calm
  rw [opens.settled] at blanks
  cases sign with
  | absent => exact (takes_eat "!" text).bind (blanks.bind (takes_pure _ _))
  | present =>
    refine (takes_eat_none rfl).bind ?_
    exact (takes_eat "&" text).bind (blanks.bind (takes_pure _ _))

section

variable {expression : Read Bool} {bound : Nat}

/-- The reader finds the phrase as an operand with the sign before it. -/
def FindsSigned (bound : Nat) (expression : Read Bool) (before : List Char) (p : Phrase) (behind : List Char) : Prop :=
  ∃ sign q, p = signed sign q ∧ ∀ c : Cursor, c.builder.Open → c.rest = before → before.length < bound →
    Ends (signedOperand expression) c fun found c' => found = some sign ∧ Pushed c c' [q] behind

private theorem ends_signedOperand_of {sign : Option Lookahead} (taken : Takes lookaheadSign before sign text)
    (inner : Finds bound (operand expression) text q behind) (opened : c.builder.Open) (here : c.rest = before)
    (within : text.length < bound) : Ends (signedOperand expression) c fun found c' =>
      found = some sign ∧ Pushed c c' [q] behind := by
  refine Pushed.attempt rfl ?_
  refine (taken { c with marks := c.toPlace :: c.marks } here).bind fun _ c₁ ⟨same, passed⟩ => ?_
  subst same
  refine (inner c₁ (passed.builder ▸ opened) passed.rest within).bind fun _ c₂ ⟨found, pushed⟩ => ?_
  rw [found, if_pos rfl, ends_pure]
  exact ⟨rfl, passed.trans_pushed opened pushed⟩

theorem Finds.unsigned (inner : Finds bound (operand expression) text p behind) (opens : Opens opensOperand text) :
    FindsSigned bound expression text p behind :=
  ⟨none, p, rfl, fun _ opened here within => ends_signedOperand_of opens.unsigned inner opened here within⟩

theorem Finds.signed (inner : Finds bound (operand expression) text p behind) (opens : Opens opensOperand text)
    (sign : Lookahead) : FindsSigned bound expression (sign.symbol.toList ++ text) (.lookahead sign p) behind := by
  refine ⟨some sign, p, rfl, fun c opened here within => ?_⟩
  rw [List.length_append] at within
  exact ends_signedOperand_of (takes_lookaheadSign sign opens.unary) inner opened here (by omega)

theorem FindsSigned.unary (inner : FindsSigned bound expression before q middle)
    (suffixed : ∀ {c c' : Cursor}, c.builder.Open → Pushed c c' [q] middle →
      Ends (suffix c.position) c' fun _ c'' => Pushed c c'' [p] behind) :
    Finds bound (Read.unary expression) before p behind := by
  obtain ⟨sign, q, rfl, inner⟩ := inner
  intro c opened here within
  rw [Read.unary, ends_here]
  refine (inner c opened here within).bind fun _ c₁ holds => ?_
  obtain ⟨same, pushed⟩ := holds
  subst same
  cases sign with
  | none =>
    refine (suffixed opened pushed).bind fun _ c₂ pushed => ?_
    exact (ends_pure _).mpr ⟨rfl, pushed⟩
  | some sign =>
    have accepted := @Builder.Extends.lookahead _ _ q [] pushed.grows.ext opened sign
    refine (pushed.build accepted rfl ?_).bind fun _ c₂ pushed => ?_
    · intro p member
      rw [List.mem_singleton.mp member]
      exact .lookahead (pushed.grows.writable q (List.mem_singleton_self _))
    rw [ends_tokenEnd]
    refine (pushed.locate opened c.position c₂.tokenEnd).bind fun _ c₃ pushed => ?_
    refine (suffixed opened pushed).bind fun _ c₄ pushed => ?_
    exact (ends_pure _).mpr ⟨rfl, pushed⟩

/-- A sign that ends a sequence is no operand. -/
private theorem takes_unary_none (ends : Behind endsSequence s) :
    Takes (Read.unary expression) (settle s) false (settle s) := by
  have member : ∀ d ∈ (settle s).head?, d ∈ "/);".toList := by
    intro d head
    have stop := ends.next d head
    rwa [endsSequence, decide_eq_true_eq] at stop
  have other {sign : Char} (apart : sign ∉ "/);".toList) : ∀ d ∈ (settle s).head?, d ≠ sign := by
    rintro d head rfl
    exact apart (member d head)
  have sign : Takes lookaheadSign (settle s) none (settle s) :=
    (takes_eat_other "!" rfl (other (by decide))).bind
      ((takes_eat_other "&" rfl (other (by decide))).bind (takes_pure none _))
  have operand : Takes (Read.operand expression) (settle s) false (settle s) := by
    refine takes_here fun _ => takes_peek ?_
    cases same : (settle s).head? with
    | none => exact takes_pure _ _
    | some d =>
      have all : ∀ d ∈ "/);".toList, d ∈ signs := forall_of_all (by decide)
      have member := member d same
      have start := isNameStart_of_sign (all d member)
      have cases : d = '/' ∨ d = ')' ∨ d = ';' := by simpa using member
      have refused : Takes (if isNameStart d then reference else return false) (settle s) false (settle s) := by
        rw [start, if_neg Bool.false_ne_true]
        exact takes_pure _ _
      rcases cases with rfl | rfl | rfl
      · exact refused
      · exact refused
      · exact refused
  have tried : Takes (do
      let sign ← lookaheadSign
      if ← Read.operand expression then return some sign else return none) (settle s) none (settle s) :=
    sign.bind (operand.bind (takes_pure none _))
  have failed : Takes (signedOperand expression) (settle s) none (settle s) :=
    takes_attempt_failed rfl fun c here => (tried c here).mono fun _ c' ⟨same, passed⟩ => ⟨same, passed.rest ▸ passed⟩
  exact takes_here fun _ => failed.bind (takes_pure false _)

/-- What was pushed behind a mark becomes one phrase. -/
private theorem Pushed.join {step : Builder.Step} {make : List Phrase → Phrase}
    (pushed : Pushed { c with builder := c.builder.mark } c' ps behind) (opened : c.builder.Open) (nonempty : ps ≠ [])
    (accepted : ∃ builder, c'.builder.apply step = .ok builder ∧
      c.builder.mark.Extends builder [Builder.joined make ps]) (balances : step.balances c'.builder = true)
    (made : 2 ≤ ps.length → (make ps).Writable) (start : Position) :
    Ends (do Read.build step; Read.locate start (← Read.tokenEnd); Read.build .release; return true) c'
      fun found c'' => found = true ∧ Pushed c c'' [Builder.joined make ps] behind := by
  refine (pushed.build accepted balances ?_).bind fun _ c₁ pushed => ?_
  · intro p member
    rw [List.mem_singleton.mp member]
    exact Phrase.writable_joined nonempty pushed.grows.writable made
  rw [ends_tokenEnd]
  refine (pushed.locate opened.mark start c₁.tokenEnd).bind fun _ c₂ pushed => ?_
  exact (pushed.release opened).bind fun _ c₃ pushed => (ends_pure _).mpr ⟨rfl, pushed⟩

/-- A text for each phrase, all with the same text before them. -/
def listed (sep : List Char) (items : List (List Char × Phrase)) : List Char := items.flatMap fun item => sep ++ item.1

variable {items : List (List Char × Phrase)}

private theorem behind_items (each : ∀ item ∈ items, Opens opensUnary item.1) (ends : Behind endsSequence s) :
    Behind endsUnary (listed [' '] items ++ s) := by
  cases items with
  | nil => exact ends.mono endsUnary_of_sequence
  | cons item rest =>
    have opens := each item (List.mem_cons_self ..)
    rw [listed, List.flatMap_cons, List.append_assoc, List.append_assoc]
    exact (opens.append _).ends_unary

/-- The items of a sequence are pushed one after the other. -/
private theorem ends_items {limit : Nat} (opens : ∀ item ∈ items, Opens opensUnary item.1)
    (each : ∀ item ∈ items, ∀ {s}, Behind endsUnary s →
      Finds bound (Read.unary expression) (item.1 ++ s) item.2 (settle s))
    (ends : Behind endsSequence s) (opened : c.builder.Open) (here : c.rest = settle (listed [' '] items ++ s))
    (within : c.rest.length < bound) (enough : c.rest.length < limit) :
    Ends (countWhile (Read.unary expression) limit) c fun count c' =>
      count = items.length ∧ Pushed c c' (items.map Prod.snd) (settle s) := by
  obtain ⟨limit, rfl⟩ := Nat.exists_eq_add_one_of_ne_zero (Nat.ne_zero_of_lt enough)
  induction items generalizing c limit with
  | nil =>
    refine (takes_unary_none ends c here).bind fun _ c₁ holds => ?_
    obtain ⟨same, passed⟩ := holds
    subst same
    exact (ends_pure _).mpr ⟨rfl, passed.pushed opened⟩
  | cons item rest ih =>
    have first := opens item (List.mem_cons_self ..)
    have others : ∀ item ∈ rest, Opens opensUnary item.1 := fun item member => opens item (List.mem_cons_of_mem _ member)
    rw [listed, List.flatMap_cons, List.append_assoc, List.append_assoc, List.singleton_append, settle_blank,
      (first.append _).settled] at here
    have found := each item (List.mem_cons_self ..) (behind_items others ends)
    refine (found c opened here (here ▸ within)).bind fun _ c₁ holds => ?_
    obtain ⟨same, pushed⟩ := holds
    subst same
    have shorter : c₁.rest.length < c.rest.length := by
      obtain ⟨d, more, begins, -⟩ := first
      have := (List.dropWhile_sublist isBlank (l := listed [' '] rest ++ s)).length_le
      rw [pushed.rest, here, begins, settle, List.cons_append, List.length_cons, List.length_append]
      rw [listed] at this ⊢
      omega
    obtain ⟨limit, rfl⟩ := Nat.exists_eq_add_one_of_ne_zero (show limit ≠ 0 by omega)
    rw [if_pos rfl]
    refine (ih others (fun item member => each item (List.mem_cons_of_mem _ member)) (pushed.grows.opened opened)
      pushed.rest (by omega) limit (by omega)).bind fun _ c₂ holds => ?_
    obtain ⟨same, pushed'⟩ := holds
    rw [same, ends_pure]
    exact ⟨rfl, pushed.trans pushed'⟩

theorem finds_sequence (nonempty : items ≠ []) (opens : ∀ item ∈ items, Opens opensUnary item.1)
    (each : ∀ item ∈ items, ∀ {s}, Behind endsUnary s →
      Finds bound (Read.unary expression) (item.1 ++ s) item.2 (settle s)) (ends : Behind endsSequence s) :
    Finds bound (Read.sequence expression) (settle (listed [' '] items ++ s))
      (Builder.joined .sequence (items.map Prod.snd)) (settle s) := by
  intro c opened here within
  rw [Read.sequence, ends_here, ends_build (show c.builder.apply .mark = .ok c.builder.mark from rfl), ends_steps]
  refine (ends_items (c := { c with builder := c.builder.mark }) opens each ends opened.mark here (here ▸ within)
    (Nat.lt_succ_self _)).bind fun count c₁ holds => ?_
  obtain ⟨same, pushed⟩ := holds
  have several : items.map Prod.snd ≠ [] := by simpa using nonempty
  rw [same, if_neg (by simpa using nonempty)]
  exact pushed.join opened several (pushed.grows.ext.sequence opened several) rfl
    (fun several => .sequence several pushed.grows.writable) c.position

private theorem takes_alternative_none (ends : Behind endsExpression s) :
    Takes (alternative expression) (settle s) false (settle s) := by
  have other {sign : Char} (apart : endsExpression sign = false) : ∀ d ∈ (settle s).head?, d ≠ sign := by
    rintro d head rfl
    rw [ends.next d head] at apart
    cases apart
  refine (takes_eat_other "/" rfl (other (by decide))).bind ?_
  exact (takes_eat_other "|" rfl (other (by decide))).bind (takes_pure false _)

private theorem behind_alternatives (items : List (List Char × Phrase)) (ends : Behind endsExpression s) :
    Behind endsSequence (listed [' ', '/', ' '] items ++ s) := by
  cases items with
  | nil => exact ends.mono endsSequence_of_expression
  | cons item rest =>
    have slash : '/' ∈ signs := by decide
    have settled (s : List Char) : settle (' ' :: '/' :: ' ' :: s) = '/' :: ' ' :: s := by
      rw [settle_blank, settle_sign slash]
    rw [listed, List.flatMap_cons, List.append_assoc, List.append_assoc]
    refine ⟨?_, ?_, fun rest => ?_, fun rest same => ?_⟩
    · rintro _ ⟨⟩
      exact isNamePart_blank
    · rw [show settle ([' ', '/', ' '] ++ _) = _ from settled _]
      rintro _ ⟨⟩
      decide
    · rw [show settle ([' ', '/', ' '] ++ _) = _ from settled _]
      constructor
      · rintro ⟨⟩
      · rintro ⟨⟩
    · rw [show settle ([' ', '/', ' '] ++ _) = _ from settled _] at same
      cases same

/-- The alternatives behind the first one are pushed one after the other. -/
private theorem ends_alternatives {limit : Nat} (opens : ∀ item ∈ items, Opens opensUnary item.1)
    (each : ∀ item ∈ items, ∀ {s}, Behind endsSequence s →
      Finds bound (Read.sequence expression) (item.1 ++ s) item.2 (settle s))
    (ends : Behind endsExpression s) (opened : c.builder.Open)
    (here : c.rest = settle (listed [' ', '/', ' '] items ++ s)) (within : c.rest.length < bound)
    (enough : c.rest.length < limit) :
    Ends (countWhile (alternative expression) limit) c fun _ c' => Pushed c c' (items.map Prod.snd) (settle s) := by
  obtain ⟨limit, rfl⟩ := Nat.exists_eq_add_one_of_ne_zero (Nat.ne_zero_of_lt enough)
  induction items generalizing c limit with
  | nil =>
    refine (takes_alternative_none ends c here).bind fun _ c₁ ⟨same, passed⟩ => ?_
    subst same
    exact (ends_pure _).mpr (passed.pushed opened)
  | cons item rest ih =>
    have slash : '/' ∈ signs := by decide
    have first := (opens item (List.mem_cons_self ..)).append (listed [' ', '/', ' '] rest ++ s)
    have found := each item (List.mem_cons_self ..) (behind_alternatives rest ends)
    have separated : c.rest = '/' :: ' ' :: (item.1 ++ (listed [' ', '/', ' '] rest ++ s)) := by
      rw [here, listed, List.flatMap_cons, List.append_assoc, List.append_assoc]
      exact (settle_blank _).trans (settle_sign slash)
    have long := congrArg List.length separated
    rw [List.length_cons, List.length_cons] at long
    have next : Ends (alternative expression) c fun found c' =>
        found = true ∧ Pushed c c' [item.2] (settle (listed [' ', '/', ' '] rest ++ s)) := by
      refine (takes_eat "/" _ c separated).bind fun _ c₁ ⟨same, passed⟩ => ?_
      subst same
      dsimp only
      rw [if_pos rfl, pure_bind, Bool.not_true, if_neg Bool.false_ne_true]
      refine (takes_spacing (calm_blank first.calm) c₁ passed.rest).bind fun _ c₂ ⟨_, passed'⟩ => ?_
      rw [settle_blank, first.settled] at passed'
      have passed := passed.trans passed'
      refine (found c₂ (passed.builder ▸ opened) passed.rest (by omega)).bind fun _ c₃ ⟨same, pushed⟩ => ?_
      subst same
      exact (ends_pure _).mpr ⟨rfl, passed.trans_pushed opened pushed⟩
    refine next.bind fun _ c₁ ⟨same, pushed⟩ => ?_
    subst same
    have shorter : c₁.rest.length < c.rest.length := by
      have := (List.dropWhile_sublist isBlank (l := listed [' ', '/', ' '] rest ++ s)).length_le
      rw [pushed.rest, long, settle, List.length_append]
      omega
    obtain ⟨limit, rfl⟩ := Nat.exists_eq_add_one_of_ne_zero (show limit ≠ 0 by omega)
    rw [if_pos rfl]
    refine (ih (fun item member => opens item (List.mem_cons_of_mem _ member))
      (fun item member => each item (List.mem_cons_of_mem _ member)) (pushed.grows.opened opened)
      pushed.rest (by omega) limit (by omega)).bind fun _ c₂ pushed' => ?_
    exact (ends_pure _).mpr (pushed.trans pushed')

end

theorem finds_expression {depth : Nat} {items : List (List Char × Phrase)} (first : List Char × Phrase)
    (opens : ∀ item ∈ items, Opens opensUnary item.1)
    (each : ∀ item ∈ first :: items, ∀ {s}, Behind endsSequence s →
      Finds (depth + 1) (Read.sequence (expression depth)) (item.1 ++ s) item.2 (settle s))
    (ends : Behind endsExpression s) :
    Finds (depth + 1) (expression (depth + 1)) (first.1 ++ (listed [' ', '/', ' '] items ++ s))
      (Builder.joined .choice (first.2 :: items.map Prod.snd)) (settle s) := by
  intro c opened here within
  rw [expression, ends_here, ends_build (show c.builder.apply .mark = .ok c.builder.mark from rfl)]
  have found := each first (List.mem_cons_self ..) (behind_alternatives items ends)
  refine (found { c with builder := c.builder.mark } opened.mark here within).bind fun _ c₁ holds => ?_
  obtain ⟨same, pushed⟩ := holds
  subst same
  have shorter : c₁.rest.length ≤ c.rest.length := by
    have := (List.dropWhile_sublist isBlank (l := listed [' ', '/', ' '] items ++ s)).length_le
    rw [pushed.rest, here, settle, List.length_append]
    omega
  rw [Bool.not_true, if_neg Bool.false_ne_true, ends_steps]
  refine (ends_alternatives opens (fun item member => each item (List.mem_cons_of_mem _ member)) ends
    (pushed.grows.opened opened.mark) pushed.rest (by rw [← here] at within; omega) (Nat.lt_succ_self _)).bind
      fun _ c₂ pushed' => ?_
  have pushed := pushed.trans pushed'
  exact pushed.join opened (List.cons_ne_nil _ _) (pushed.grows.ext.choice opened (List.cons_ne_nil _ _)) rfl
    (fun several => .choice several pushed.grows.writable) c.position

/-- In front of a closing parenthesis is no expression. -/
theorem misses_expression {depth : Nat} (opened : c.builder.Open) (here : c.rest = ')' :: s) :
    Ends (expression (depth + 1)) c fun found c' => found = false ∧ Pushed c c' [] (')' :: s) := by
  have closing : ')' ∈ signs := by decide
  have ends : Behind endsSequence (')' :: s) := behind_sign closing (by decide) (by decide) (by decide)
  have nothing : Ends (Read.sequence (expression depth)) { c with builder := c.builder.mark } fun found c' =>
      found = false ∧ Pushed { c with builder := c.builder.mark } c' [] (')' :: s) := by
    rw [Read.sequence, ends_here, ends_build (show c.builder.mark.apply .mark = .ok c.builder.mark.mark from rfl),
      ends_steps]
    have here : c.rest = settle (listed [' '] [] ++ ')' :: s) := here.trans (settle_sign closing).symm
    refine (ends_items (c := { c with builder := c.builder.mark.mark }) (List.forall_mem_nil _)
      (List.forall_mem_nil _) ends opened.mark.mark here (Nat.lt_succ_self _) (Nat.lt_succ_self _)).bind
        fun _ c₁ holds => ?_
    obtain ⟨same, pushed⟩ := holds
    rw [settle_sign closing] at pushed
    rw [same, List.length_nil, if_pos rfl]
    exact (pushed.reset opened.mark).bind fun _ c₂ pushed => (ends_pure _).mpr ⟨rfl, pushed⟩
  rw [expression, ends_here, ends_build (show c.builder.apply .mark = .ok c.builder.mark from rfl)]
  refine nothing.bind fun _ c₁ holds => ?_
  obtain ⟨same, pushed⟩ := holds
  subst same
  exact (pushed.reset opened).bind fun _ c₂ pushed => (ends_pure _).mpr ⟨rfl, pushed⟩

/-- Each reader that can meet the text of the phrase finds its normal form there. -/
structure Regained (p : Phrase) : Prop where
  opens : Opens opensUnary p.chars
  atom : p.isAtom = true → Opens opensOperand p.chars ∧ ∀ {depth s}, Behind endsOperand s →
    Finds (depth + 1) (operand (expression depth)) (p.chars ++ s) p.normal (settle s)
  signed : (!p.isAtom && !p.isLookahead) = false → ∀ {depth s}, Behind endsOperand s →
    FindsSigned (depth + 1) (expression depth) (p.chars ++ s) p.normal (settle s)
  unary : (p.isSequence || p.isChoice) = false → ∀ {depth s}, Behind endsUnary s →
    Finds (depth + 1) (unary (expression depth)) (p.chars ++ s) p.normal (settle s)
  sequence : p.isChoice = false → ∀ {depth s}, Behind endsSequence s →
    Finds (depth + 1) (Read.sequence (expression depth)) (p.chars ++ s) p.normal (settle s)
  expression : ∀ {depth s}, Behind endsExpression s →
    Finds depth (expression depth) (p.chars ++ s) p.normal (settle s)

-- A reader without parts of its own passes on what the one below it finds.
section

variable {depth : Nat}

theorem FindsSigned.plain (inner : FindsSigned (depth + 1) (expression depth) before p (settle s))
    (ends : Behind endsUnary s) : Finds (depth + 1) (Read.unary (expression depth)) before p (settle s) :=
  FindsSigned.unary inner fun _ pushed => pushed.suffix_none ends.next _

theorem sequence_of_unary (opens : Opens opensUnary text) (inner : ∀ {s}, Behind endsUnary s →
      Finds (depth + 1) (unary (expression depth)) (text ++ s) p (settle s)) (ends : Behind endsSequence s) :
    Finds (depth + 1) (Read.sequence (expression depth)) (text ++ s) p (settle s) := by
  have found := finds_sequence (List.cons_ne_nil (text, p) []) (List.forall_mem_singleton.mpr opens)
    (List.forall_mem_singleton.mpr inner) ends
  have same : settle (listed [' '] [(text, p)] ++ s) = text ++ s := by
    rw [listed, List.flatMap_singleton, List.append_assoc, List.singleton_append, settle_blank,
      (opens.append s).settled]
  rw [same] at found
  exact found

theorem expression_of_sequence (inner : ∀ {depth s}, Behind endsSequence s →
      Finds (depth + 1) (Read.sequence (expression depth)) (text ++ s) p (settle s)) (ends : Behind endsExpression s) :
    Finds depth (expression depth) (text ++ s) p (settle s) := by
  cases depth with
  | zero =>
    intro c _ _ within
    exact absurd within (Nat.not_lt_zero _)
  | succ depth =>
    exact finds_expression (text, p) (List.forall_mem_nil _) (List.forall_mem_singleton.mpr inner) ends

end

namespace Regained

variable {depth : Nat}

theorem of_unary (opens : Opens opensUnary p.chars)
    (atom : p.isAtom = true → Opens opensOperand p.chars ∧ ∀ {depth s}, Behind endsOperand s →
      Finds (depth + 1) (operand (Read.expression depth)) (p.chars ++ s) p.normal (settle s))
    (signed : (!p.isAtom && !p.isLookahead) = false → ∀ {depth s}, Behind endsOperand s →
      FindsSigned (depth + 1) (Read.expression depth) (p.chars ++ s) p.normal (settle s))
    (unary : ∀ {depth s}, Behind endsUnary s →
      Finds (depth + 1) (Read.unary (Read.expression depth)) (p.chars ++ s) p.normal (settle s)) : Regained p where
  opens := opens
  atom := atom
  signed := signed
  unary _ := unary
  sequence _ _ _ ends := sequence_of_unary opens unary ends
  expression ends := expression_of_sequence (fun ends => sequence_of_unary opens unary ends) ends

theorem of_signed (opens : Opens opensUnary p.chars)
    (atom : p.isAtom = true → Opens opensOperand p.chars ∧ ∀ {depth s}, Behind endsOperand s →
      Finds (depth + 1) (operand (Read.expression depth)) (p.chars ++ s) p.normal (settle s))
    (signed : ∀ {depth s}, Behind endsOperand s →
      FindsSigned (depth + 1) (Read.expression depth) (p.chars ++ s) p.normal (settle s)) : Regained p :=
  of_unary opens atom (fun _ => signed) fun ends => (signed (ends.mono endsOperand_of_unary)).plain ends

theorem of_operand (opens : Opens opensOperand p.chars) (operand : ∀ {depth s}, Behind endsOperand s →
    Finds (depth + 1) (Read.operand (Read.expression depth)) (p.chars ++ s) p.normal (settle s)) : Regained p :=
  of_signed opens.unary (fun _ => ⟨opens, operand⟩) fun ends => (operand ends).unsigned (opens.append _)

theorem opens_grouped (regained : Regained p) (needed : Bool) : Opens opensUnary (Phrase.grouped needed p.chars) := by
  cases needed with
  | true => exact opens_sign (by decide) (by decide) _
  | false => exact regained.opens

private theorem group (regained : Regained p) (ends : Behind endsOperand s) :
    Finds (depth + 1) (operand (Read.expression depth)) (Phrase.grouped true p.chars ++ s) p.normal (settle s) := by
  have closing : ')' ∈ signs := by decide
  have inner := @Regained.expression _ regained depth (')' :: s)
    (behind_sign closing (by decide) (by decide) (by decide))
  rw [settle_sign closing] at inner
  rw [Phrase.grouped, if_pos rfl, List.cons_append, List.append_assoc, List.singleton_append]
  exact finds_operand_group regained.opens inner ends.calm

private theorem opens_group (p : Phrase) (s : List Char) : Opens opensOperand (Phrase.grouped true p.chars ++ s) :=
  opens_sign (by decide) (by decide) _

theorem asOperand (regained : Regained p) : Opens opensOperand (Phrase.grouped (!p.isAtom) p.chars) ∧
    ∀ {depth s}, Behind endsOperand s → Finds (depth + 1) (operand (Read.expression depth))
      (Phrase.grouped (!p.isAtom) p.chars ++ s) p.normal (settle s) := by
  cases atom : p.isAtom with
  | true => exact regained.atom atom
  | false => exact ⟨opens_sign (by decide) (by decide) _, regained.group⟩

theorem asSigned (regained : Regained p) (ends : Behind endsOperand s) : FindsSigned (depth + 1) (Read.expression depth)
    (Phrase.grouped (!p.isAtom && !p.isLookahead) p.chars ++ s) p.normal (settle s) := by
  cases needed : !p.isAtom && !p.isLookahead with
  | true => exact (regained.group ends).unsigned (opens_group p s)
  | false => exact regained.signed needed ends

theorem asItem (regained : Regained p) (ends : Behind endsUnary s) :
    Finds (depth + 1) (Read.unary (Read.expression depth)) (Phrase.grouped (p.isSequence || p.isChoice) p.chars ++ s)
      p.normal (settle s) := by
  cases needed : p.isSequence || p.isChoice with
  | true => exact ((regained.group (ends.mono endsOperand_of_unary)).unsigned (opens_group p s)).plain ends
  | false => exact regained.unary needed ends

theorem asAlternative (regained : Regained p) (ends : Behind endsSequence s) :
    Finds (depth + 1) (Read.sequence (Read.expression depth)) (Phrase.grouped p.isChoice p.chars ++ s) p.normal
      (settle s) := by
  cases needed : p.isChoice with
  | true =>
    refine sequence_of_unary (regained.opens_grouped true) (fun {s} ends => ?_) ends
    exact ((regained.group (ends.mono endsOperand_of_unary)).unsigned (opens_group p s)).plain ends
  | false => exact regained.sequence needed ends

end Regained

private theorem opens_name {name : String} (named : IsName name) : Opens opensOperand name.toList := by
  obtain ⟨first, rest, same, start, -⟩ := named
  exact ⟨first, rest, same, (Bool.or_eq_true ..).mpr (.inr start),
    fun less => absurd less (ne_sign_of_nameStart start (by decide))⟩

private theorem opens_terminal {t : Terminal} (writable : t.Writable) : Opens opensOperand t.text.toList := by
  have quote (s : List Char) : Opens opensOperand ('\'' :: s) := opens_sign (by decide) (by decide) s
  cases t with
  | nil => exact quote _
  | any => exact opens_sign (by decide) (by decide) _
  | token image caseSensitive =>
    rw [toList_tokenText]
    cases caseSensitive with
    | true => exact quote _
    | false => exact opens_sign (by decide) (by decide) _
  | interval i =>
    obtain ⟨s, same⟩ := exists_intervalText i
    rw [Terminal.text, same]
    exact quote s
  | set members =>
    rw [Terminal.text]
    rcases toList_charsetText members with same | same
    · rw [same]
      exact opens_sign (by decide) (by decide) _
    · rw [same]
      exact opens_sign (by decide) (by decide) _
  | charClass k =>
    obtain ⟨first, rest, same, start, -⟩ := writable.1
    have text : (Terminal.charClass k).text.toList = '<' :: (k.name.toList ++ ['>']) := by simp [Terminal.text]
    rw [text, same]
    exact ⟨'<', _, rfl, by decide, fun _ => ⟨first, rest ++ ['>'], rfl, ne_sign_of_nameStart start (by decide)⟩⟩

private theorem joined_of_several {make : List Phrase → Phrase} (several : 2 ≤ ps.length) :
    Builder.joined make ps = make ps := by
  rcases ps with _ | ⟨p, _ | ⟨q, rest⟩⟩
  · exact absurd several (Nat.not_succ_le_zero 1)
  · exact absurd several (Nat.not_succ_le_self 1)
  · rfl

/-- Texts with others between them are a first text and the others with a text before them. -/
private theorem intercalate_eq_listed (sep : List Char) (first : List Char × Phrase) (items : List (List Char × Phrase)) :
    sep.intercalate ((first :: items).map Prod.fst) = first.1 ++ listed sep items := by
  induction items generalizing first with
  | nil => rw [listed, List.flatMap_nil, List.append_nil, List.map_singleton, List.intercalate_singleton]
  | cons item rest ih =>
    have others := ih item
    rw [List.map_cons] at others
    rw [List.map_cons, List.map_cons, List.intercalate_cons_cons, others, listed, listed, List.flatMap_cons,
      List.append_assoc, List.append_assoc]

/-- The text and the normal form of each item. -/
private def spellings (needed : Phrase → Bool) (items : List Phrase) : List (List Char × Phrase) :=
  items.map fun p => (Phrase.grouped (needed p) p.chars, p.normal)

private theorem map_fst_spellings (needed : Phrase → Bool) (items : List Phrase) :
    (spellings needed items).map Prod.fst = Phrase.itemChars needed items := by
  rw [spellings, List.map_map, Phrase.itemChars_eq_map]
  rfl

private theorem map_snd_spellings (needed : Phrase → Bool) (items : List Phrase) :
    (spellings needed items).map Prod.snd = Phrase.normals items := by
  rw [spellings, List.map_map, Phrase.normals_eq_map]
  rfl

private theorem forall_spellings {needed : Phrase → Bool} {items : List Phrase} {P : List Char × Phrase → Prop}
    (each : ∀ p ∈ items, P (Phrase.grouped (needed p) p.chars, p.normal)) : ∀ item ∈ spellings needed items, P item := by
  intro item listed
  obtain ⟨p, member, rfl⟩ := List.mem_map.mp listed
  exact each p member

/-- What the readers of items find in the texts of several phrases. -/
private theorem exists_spellings {needed : Phrase → Bool} (sep : List Char) {items : List Phrase}
    (several : 2 ≤ items.length) (inner : ∀ p ∈ items, Regained p) : ∃ first rest,
      first :: rest = spellings needed items ∧
      sep.intercalate (Phrase.itemChars needed items) = first.1 ++ listed sep rest ∧
      (first :: rest).map Prod.snd = Phrase.normals items ∧
      ∀ item ∈ first :: rest, Opens opensUnary item.1 := by
  have opens : ∀ item ∈ spellings needed items, Opens opensUnary item.1 :=
    forall_spellings fun p member => (inner p member).opens_grouped _
  have texts := map_fst_spellings needed items
  have normals := map_snd_spellings needed items
  cases same : spellings needed items with
  | nil =>
    rw [List.map_eq_nil_iff.mp same] at several
    exact absurd several (Nat.not_succ_le_zero 1)
  | cons first rest =>
    rw [same] at opens texts normals
    exact ⟨first, rest, rfl, by rw [← texts, intercalate_eq_listed], normals, opens⟩

private theorem joined_normals {make : List Phrase → Phrase} {items : List Phrase} (several : 2 ≤ items.length) :
    Builder.joined make (Phrase.normals items) = make (Phrase.normals items) := by
  refine joined_of_several ?_
  rwa [Phrase.normals_eq_map, List.length_map]

private theorem regained_sequence {items : List Phrase} (several : 2 ≤ items.length)
    (inner : ∀ p ∈ items, Regained p) : Regained (.sequence items) := by
  obtain ⟨first, rest, same, chars, normals, opens⟩ :=
    @exists_spellings (fun p => p.isSequence || p.isChoice) [' '] items several inner
  have each (depth : Nat) : ∀ item ∈ first :: rest, ∀ {s}, Behind endsUnary s →
      Finds (depth + 1) (unary (expression depth)) (item.1 ++ s) item.2 (settle s) :=
    same ▸ forall_spellings fun p member _ ends => (inner p member).asItem ends
  have begins := opens first (List.mem_cons_self ..)
  have sequence {depth : Nat} {s : List Char} (ends : Behind endsSequence s) : Finds (depth + 1)
      (Read.sequence (expression depth)) ((Phrase.sequence items).chars ++ s) (Phrase.sequence items).normal (settle s) := by
    have found := finds_sequence (List.cons_ne_nil first rest) opens (each depth) ends
    have settled : settle (listed [' '] (first :: rest) ++ s) = (Phrase.sequence items).chars ++ s := by
      have same : listed [' '] (first :: rest) = ' ' :: (first.1 ++ listed [' '] rest) := rfl
      rw [same, List.cons_append, settle_blank, List.append_assoc, (begins.append _).settled, Phrase.chars, chars,
        List.append_assoc]
    rw [settled, normals, joined_normals several] at found
    exact found
  refine ⟨?_, Bool.noConfusion, Bool.noConfusion, Bool.noConfusion, fun _ => sequence, fun ends => expression_of_sequence sequence ends⟩
  rw [Phrase.chars, chars]
  exact begins.append _

private theorem regained_choice {items : List Phrase} (several : 2 ≤ items.length)
    (inner : ∀ p ∈ items, Regained p) : Regained (.choice items) := by
  obtain ⟨first, rest, same, chars, normals, opens⟩ := @exists_spellings Phrase.isChoice [' ', '/', ' '] items several inner
  have each (depth : Nat) : ∀ item ∈ first :: rest, ∀ {s}, Behind endsSequence s →
      Finds (depth + 1) (Read.sequence (expression depth)) (item.1 ++ s) item.2 (settle s) :=
    same ▸ forall_spellings fun p member _ ends => (inner p member).asAlternative ends
  refine ⟨?_, Bool.noConfusion, Bool.noConfusion, Bool.noConfusion, Bool.noConfusion, fun {depth s} ends => ?_⟩
  · rw [Phrase.chars, chars]
    exact (opens first (List.mem_cons_self ..)).append _
  · cases depth with
    | zero =>
      intro c _ _ within
      exact absurd within (Nat.not_lt_zero _)
    | succ depth =>
      have found := finds_expression first (fun item member => opens item (List.mem_cons_of_mem _ member)) (each depth) ends
      rw [← List.map_cons (f := Prod.snd), normals, joined_normals several] at found
      rw [Phrase.chars, chars, List.append_assoc]
      exact found

/-- The bounds of a repetition are not part of the operand before them. -/
private theorem behind_bounds (min max : Nat) (s : List Char) :
    Behind endsOperand ((Tree.boundsText min max).toList ++ s) ∧
      settle ((Tree.boundsText min max).toList ++ s) = (Tree.boundsText min max).toList ++ s := by
  have sign {d : Char} (member : d ∈ "?*+\x7b".toList) (s : List Char) :
      Behind endsOperand (d :: s) ∧ settle (d :: s) = d :: s := by
    have all : ∀ d ∈ "?*+\x7b".toList, d ∈ signs ∧ endsOperand d = true ∧ d ≠ '/' ∧ d ≠ '<' := forall_of_all (by decide)
    obtain ⟨listed, ends, slash, less⟩ := all d member
    exact ⟨behind_sign listed ends slash less, settle_sign listed⟩
  rcases boundsText_eq min max with ⟨quantifier, symbol, -⟩ | ⟨numbers, text, -⟩
  · rw [symbol]
    cases quantifier with
    | optional => exact sign (by decide) s
    | zeroOrMore => exact sign (by decide) s
    | oneOrMore => exact sign (by decide) s
  · rw [text]
    exact sign (by decide) _

/-- The text of every phrase that can be written is read as its normal form. -/
theorem regained (writable : p.Writable) : Regained p := by
  induction writable with
  | @terminal t writable =>
    exact .of_operand (opens_terminal writable) fun ends => finds_operand_terminal writable ends
  | @reference name memo named =>
    refine .of_operand ?_ fun ends => finds_operand_reference named ends
    cases memo with
    | true => exact opens_sign (by decide) (by decide) _
    | false => exact opens_name named
  | @action name body named _ inner =>
    have closing : ')' ∈ signs := by decide
    refine .of_operand (opens_sign (by decide) (by decide) _) fun {depth s} ends => ?_
    have text (inside : List Char) : '$' :: (name.toList ++ '(' :: (inside ++ [')'])) ++ s =
        '$' :: (name.toList ++ '(' :: (inside ++ ')' :: s)) := by
      simp only [List.cons_append, List.append_assoc, List.nil_append]
    rw [Phrase.chars, Phrase.normal, text]
    cases given : body.isNil with
    | true =>
      obtain rfl : body = .terminal .nil := by
        unfold Phrase.isNil at given
        split at given
        · rfl
        · cases given
      refine @finds_operand_action [] s [] _ _ _ named (Nat.zero_le _) (settle_sign closing)
        (calm_sign closing (by decide)) ends.calm fun c opened here within => ?_
      obtain ⟨depth, rfl⟩ := Nat.exists_eq_add_one_of_ne_zero (Nat.ne_zero_of_lt within)
      exact (misses_expression opened here).mono fun _ _ holds => holds.2
    | false =>
      have found := @Regained.expression _ inner depth (')' :: s) (behind_sign closing (by decide) (by decide) (by decide))
      rw [settle_sign closing] at found
      have opens := inner.opens.append (')' :: s)
      exact @finds_operand_action [body.normal] s body.chars _ _ _ named (Nat.le_refl _) opens.settled opens.calm ends.calm
        fun c opened here within => (found c opened here within).mono fun _ _ holds => holds.2
  | @sequence items several _ inner => exact regained_sequence several inner
  | @choice items several _ inner => exact regained_choice several inner
  | @repetition min max body ordered positive bounded _ inner =>
    refine .of_unary ((inner.opens_grouped _).append _) Bool.noConfusion Bool.noConfusion fun {depth s} ends => ?_
    obtain ⟨bounds, settled⟩ := behind_bounds min max s
    rw [Phrase.chars, Phrase.normal, List.append_assoc]
    refine (inner.asSigned bounds).unary fun opened pushed => ?_
    rw [settled] at pushed
    exact pushed.suffix_bounds opened ordered positive bounded ends.calm _
  | @lookahead sign body _ inner =>
    obtain ⟨opens, operand⟩ := inner.asOperand
    refine .of_signed ?_ Bool.noConfusion fun {depth s} ends => ?_
    · rw [Phrase.chars]
      cases sign with
      | present => exact opens_sign (by decide) (by decide) _
      | absent => exact opens_sign (by decide) (by decide) _
    · rw [Phrase.chars, Phrase.normal, List.append_assoc]
      exact (operand ends).signed (opens.append s) sign

end Read

end Packrat
