import Packrat.Proofs.Builder.Outlined
import Packrat.Proofs.Reader.Rendered
import Packrat.Proofs.Reader.Totality
import Packrat.Proofs.Text.Reading

/-! # Reading undoes rendering

The text of a grammar has a line for each definition, and no carriage returns. So it is read line by line as it stands:
each line is a production with the name and the right-hand side of its definition, in normal form, and nothing is
reported. What is read has the same text again. Names are those of the grammar language, and terminals are what they are
written as.
-/

namespace Packrat

private theorem mem_of_mem_intercalate {d : Char} {sep : List Char} {parts : List (List Char)}
    (member : d ∈ sep.intercalate parts) : d ∈ sep ∨ ∃ part ∈ parts, d ∈ part := by
  induction parts with
  | nil => cases member
  | cons part rest ih =>
    cases rest with
    | nil =>
      rw [List.intercalate_singleton] at member
      exact .inr ⟨part, List.mem_singleton_self _, member⟩
    | cons next rest =>
      rw [List.intercalate_cons_cons, List.mem_append, List.mem_append] at member
      rcases member with (member | member) | member
      · exact .inr ⟨part, List.mem_cons_self .., member⟩
      · exact .inl member
      · exact (ih member).imp_right fun ⟨part, listed, inside⟩ => ⟨part, List.mem_cons_of_mem _ listed, inside⟩

namespace Read

theorem IsName.no_return {name : String} (named : IsName name) : '\r' ∉ name.toList := by
  obtain ⟨first, rest, same, start, parts⟩ := named
  have none : isNamePart '\r' = false := by decide +kernel
  intro member
  rw [same] at member
  rcases List.mem_cons.mp member with rfl | member
  · rw [isNamePart_of_start start] at none
    cases none
  · rw [parts _ member] at none
    cases none

private theorem escape_no_return (quote c : Char) : '\r' ∉ Escape.char quote c := by
  have digits : ∀ n < 16, '\r' ≠ Escape.upperDigit n := by decide
  have digit (n : Nat) : '\r' ≠ Escape.upperDigit (n % 16) := digits _ (Nat.mod_lt _ (by decide))
  fun_cases Escape.char quote c with
  | case7 _ _ return' | case9 _ _ return' => simp [Ne.symm return']
  | case8 => simp [Escape.fourDigits, digit]
  | _ => decide

theorem quotation_no_return {quote : Char} (quoted : quote = '\'' ∨ quote = '"') (image : List Char) :
    '\r' ∉ quotation quote image := by
  have other : quote ≠ '\r' := by
    rcases quoted with rfl | rfl <;> decide
  intro member
  simp only [quotation, List.mem_cons, List.mem_append, List.mem_flatMap, List.not_mem_nil, or_false] at member
  rcases member with same | ⟨c, -, inside⟩ | same
  · exact other same.symm
  · exact escape_no_return quote c inside
  · exact other same.symm

theorem interval_no_return (i : Interval) : '\r' ∉ i.text.toList := by
  have quoted := @quotation_no_return '\'' (.inl rfl)
  rw [toList_intervalText]
  split
  · exact quoted _
  · simp [quoted]

theorem listing_no_return (set : Charset) : '\r' ∉ listing set := by
  intro member
  simp only [listing, List.mem_cons, List.mem_append, List.not_mem_nil, or_false] at member
  rcases member with same | member | same
  · exact absurd same (by decide)
  · rcases mem_of_mem_intercalate member with member | ⟨part, listed, inside⟩
    · exact absurd member (by decide)
    · obtain ⟨i, -, rfl⟩ := List.mem_map.mp listed
      exact interval_no_return i inside
  · exact absurd same (by decide)

end Read

open Read

theorem Terminal.Writable.no_return {t : Terminal} (writable : t.Writable) : '\r' ∉ t.text.toList := by
  cases t with
  | nil => decide
  | any => decide
  | token image caseSensitive =>
    rw [toList_tokenText]
    refine quotation_no_return ?_ _
    cases caseSensitive with
    | true => exact .inl rfl
    | false => exact .inr rfl
  | interval i => exact interval_no_return i
  | set members =>
    rw [Terminal.text]
    rcases toList_charsetText members with same | same
    · simp [same, listing_no_return]
    · rw [same]
      exact listing_no_return members
  | charClass k =>
    have name := writable.1.no_return
    simp [Terminal.text, name]

namespace Phrase

private theorem grouped_no_return {needed : Bool} {text : List Char} (plain : '\r' ∉ text) : '\r' ∉ grouped needed text := by
  unfold grouped
  split
  · simp [plain]
  · exact plain

private theorem items_no_return {needed : Phrase → Bool} {sep : List Char} {items : List Phrase} (solid : '\r' ∉ sep)
    (each : ∀ p ∈ items, '\r' ∉ p.chars) : '\r' ∉ sep.intercalate (itemChars needed items) := by
  intro member
  rw [itemChars_eq_map] at member
  rcases mem_of_mem_intercalate member with member | ⟨part, listed, inside⟩
  · exact solid member
  · obtain ⟨p, member, rfl⟩ := List.mem_map.mp listed
    exact grouped_no_return (each p member) inside

private theorem bounds_no_return (min max : Nat) : '\r' ∉ (Tree.boundsText min max).toList := by
  have digits (n : Nat) : '\r' ∉ Nat.toDigits 10 n := by
    intro member
    have digit := Nat.isDigit_of_mem_toDigits (by decide) (by decide) member
    revert digit
    decide
  unfold Tree.boundsText
  split
  · next quantifier _ => cases quantifier <;> decide
  · split_ifs <;> simp [digits]

theorem Writable.no_return {p : Phrase} (writable : p.Writable) : '\r' ∉ p.chars := by
  induction writable with
  | terminal writable => exact writable.no_return
  | @reference name memo named =>
    have name := named.no_return
    cases memo <;> simp [chars, name]
  | @action name body named _ inner =>
    have name := named.no_return
    rw [chars]
    split <;> simp [name, inner]
  | sequence _ _ inner => exact items_no_return (by decide) inner
  | choice _ _ inner => exact items_no_return (by decide) inner
  | repetition _ _ _ _ inner =>
    rw [chars, List.mem_append]
    exact not_or.mpr ⟨grouped_no_return inner, bounds_no_return _ _⟩
  | @lookahead sign _ _ inner =>
    rw [chars, List.mem_append]
    refine not_or.mpr ⟨?_, grouped_no_return inner⟩
    cases sign <;> decide

end Phrase

section Lines

namespace Read

variable {c c' : Cursor} {definitions rest : List (String × Phrase)} {d : String × Phrase} {s : List Char}

/-- A name with the sign behind it begins a production. -/
private theorem takes_assignment (s : List Char) : Takes assignment (':' :: ' ' :: s) true (' ' :: s) := by
  refine (takes_eat_none rfl).bind ?_
  exact (takes_eat ":" (' ' :: s)).bind (takes_pure _ _)

private theorem name_ends (s : List Char) : ∀ d ∈ (' ' :: ':' :: s).head?, isNamePart d = false := by
  rintro _ ⟨⟩
  exact isNamePart_blank

private theorem settle_colon (s : List Char) : Calm (' ' :: ':' :: s) ∧ settle (' ' :: ':' :: s) = ':' :: s := by
  have colon : ':' ∈ signs := by decide
  exact ⟨calm_blank (calm_sign colon (by decide)), by rw [settle_blank, settle_sign colon]⟩

private theorem takes_atProductionHead {name : String} (named : IsName name) (s : List Char) :
    Takes atProductionHead (name.toList ++ ' ' :: ':' :: ' ' :: s) true (name.toList ++ ' ' :: ':' :: ' ' :: s) := by
  obtain ⟨calm, settled⟩ := settle_colon (' ' :: s)
  have sign := takes_assignment s
  rw [← settled] at sign
  exact Takes.ahead ((takes_identifier named (name_ends _)).bind ((takes_skipSpacing false calm).bind sign))

private theorem behind_semicolon (s : List Char) :
    Behind endsExpression (" ;\n".toList ++ s) ∧ settle (" ;\n".toList ++ s) = ';' :: '\n' :: s := by
  have semicolon : ';' ∈ signs := by decide
  have settled : settle (' ' :: ';' :: '\n' :: s) = ';' :: '\n' :: s := by rw [settle_blank, settle_sign semicolon]
  refine ⟨⟨?_, ?_, calm_blank (calm_sign semicolon (by decide)), ?_⟩, settled⟩
  · rintro _ ⟨⟩
    exact isNamePart_blank
  · intro d member
    change d ∈ (settle (' ' :: ';' :: '\n' :: s)).head? at member
    rw [settled] at member
    cases member
    decide
  · intro rest same
    cases settled.symm.trans same

/-- The line of a definition is read as a production, up to the end of the line. -/
theorem ends_production_line (outlines : c.builder.Outlines definitions) (named : IsName d.1) (writable : d.2.Writable)
    (here : c.rest = Grammar.definitionLine d ++ s) : Ends production c fun _ c' =>
      c'.rest = '\n' :: s ∧ c'.marks = c.marks ∧ c'.problems = c.problems ∧
        c'.builder.Outlines (definitions ++ [(d.1, d.2.normal)]) := by
  have read := regained writable
  obtain ⟨ends, semicolon⟩ := behind_semicolon s
  have opens := read.opens.append (" ;\n".toList ++ s)
  have text : c.rest = d.1.toList ++ ' ' :: ':' :: ' ' :: (d.2.chars ++ (" ;\n".toList ++ s)) := by
    rw [here, Grammar.definitionLine]
    simp only [List.append_assoc, List.cons_append]
  obtain ⟨calm, settled⟩ := settle_colon (' ' :: (d.2.chars ++ (" ;\n".toList ++ s)))
  rw [production, ends_here]
  refine (takes_identifier named (name_ends _) c text).bind fun _ c₁ holds => ?_
  obtain ⟨same, passed₁⟩ := holds
  subst same
  refine (takes_spacing calm c₁ passed₁.rest).bind fun _ c₂ holds => ?_
  obtain ⟨_, passed₂⟩ := holds
  rw [settled] at passed₂
  refine (takes_assignment _ c₂ passed₂.rest).bind fun _ c₃ holds => ?_
  obtain ⟨_, passed₃⟩ := holds
  refine (takes_spacing (calm_blank opens.calm) c₃ passed₃.rest).bind fun _ c₄ holds => ?_
  obtain ⟨_, passed₄⟩ := holds
  rw [settle_blank, opens.settled] at passed₄
  have passed := ((passed₁.trans passed₂).trans passed₃).trans passed₄
  obtain ⟨b, started, begun⟩ := outlines.begin d.1
  rw [← passed.builder] at started
  rw [Option.getD_some, ends_build started, ends_steps]
  have found := @Regained.expression _ read (c₄.rest.length + 1) _ ends { c₄ with builder := b } begun.opened passed.rest
    (by rw [← passed.rest]; exact Nat.lt_succ_self _)
  rw [semicolon] at found
  refine found.bind fun found c₅ holds => ?_
  obtain ⟨same, pushed⟩ := holds
  subst same
  rw [ends_peek, Bool.not_true, Bool.false_and, if_neg Bool.false_ne_true]
  have terminated : Takes terminate (';' :: '\n' :: s) () ('\n' :: s) := (takes_eat ";" _).bind (takes_pure _ _)
  refine (terminated c₅ pushed.rest).bind fun _ c₆ holds => ?_
  obtain ⟨_, passed₆⟩ := holds
  have pushed := pushed.passed passed₆
  rw [ends_here]
  refine (pushed.build (pushed.grows.ext.setProductionSpan begun.opened _) rfl pushed.grows.writable).bind
    fun _ c₇ pushed => ?_
  obtain ⟨b', ended, outlines'⟩ := outlines.finish begun pushed.grows.ext pushed.grows.balanced
  rw [ends_last, ends_build ended, ends_pure]
  exact ⟨pushed.rest, pushed.grows.marks.trans passed.marks, pushed.problems.trans passed.problems, outlines'⟩

/-- The text of definitions begins with a name, if it is not empty. -/
private theorem settle_lines (writable : AllWritable rest) :
    Calm (rest.flatMap Grammar.definitionLine) ∧
      settle (rest.flatMap Grammar.definitionLine) = rest.flatMap Grammar.definitionLine := by
  cases rest with
  | nil => exact ⟨fun _ => ⟨nofun, nofun⟩, rfl⟩
  | cons d rest =>
    obtain ⟨first, more, same, start, -⟩ := (writable d (List.mem_cons_self ..)).1
    have solid := solid_of_nameStart start
    have slash : first ≠ '/' := ne_sign_of_nameStart start (by decide)
    rw [List.flatMap_cons, Grammar.definitionLine, same]
    exact ⟨calm_cons solid slash, settle_cons_of_not_blank solid⟩

/-- The lines of several definitions are read one by one, and nothing is reported. -/
theorem ends_production_lines {limit : Nat} (enough : c.rest.length < limit) (outlines : c.builder.Outlines definitions)
    (writable : AllWritable rest) (here : c.rest = rest.flatMap Grammar.definitionLine) :
    Ends (productions limit) c fun count c' => count = rest.length ∧ c'.problems = c.problems ∧
      c'.builder.Outlines (definitions ++ rest.map (Prod.map id Phrase.normal)) := by
  induction rest generalizing c definitions limit with
  | nil =>
    obtain ⟨limit, rfl⟩ := Nat.exists_eq_add_one_of_ne_zero (Nat.ne_zero_of_lt enough)
    rw [productions, ends_atEnd, here, List.flatMap_nil, List.isEmpty_nil, if_pos rfl, ends_pure]
    exact ⟨rfl, rfl, by rwa [List.map_nil, List.append_nil]⟩
  | cons d rest ih =>
    obtain ⟨limit, rfl⟩ := Nat.exists_eq_add_one_of_ne_zero (Nat.ne_zero_of_lt enough)
    obtain ⟨named, writable'⟩ := writable d (List.mem_cons_self ..)
    have later : AllWritable rest := fun d member => writable d (List.mem_cons_of_mem _ member)
    obtain ⟨calm, settled⟩ := settle_lines later
    rw [List.flatMap_cons] at here
    have head : c.rest = d.1.toList ++ ' ' :: ':' :: ' ' :: (d.2.chars ++ (" ;\n".toList ++
        rest.flatMap Grammar.definitionLine)) := by
      rw [here, Grammar.definitionLine]
      simp only [List.append_assoc, List.cons_append]
    have more : c.rest.isEmpty = false := by
      rw [head, List.isEmpty_eq_false_iff]
      simp
    rw [productions, ends_atEnd, more, if_neg Bool.false_ne_true]
    refine (takes_atProductionHead named _ c head).bind fun _ c₁ holds => ?_
    obtain ⟨same, passed⟩ := holds
    subst same
    rw [← head] at passed
    rw [if_pos rfl]
    refine (ends_production_line (passed.builder ▸ outlines) named writable' (passed.rest.trans here)).bind
      fun _ c₂ holds => ?_
    obtain ⟨rest₂, _, problems, outlines'⟩ := holds
    have newline : isBlank '\n' = true := by decide +kernel
    have calm' : Calm ('\n' :: rest.flatMap Grammar.definitionLine) := by
      intro behind
      rw [settle_cons_of_blank newline]
      exact calm behind
    refine (takes_spacing calm' c₂ rest₂).bind fun _ c₃ holds => ?_
    obtain ⟨_, passed'⟩ := holds
    rw [settle_cons_of_blank newline, settled] at passed'
    have shorter : c₃.rest.length < limit := by
      rw [passed'.rest]
      rw [here, List.length_append] at enough
      simp only [Grammar.definitionLine, List.length_append, List.length_cons] at enough
      omega
    refine (ih shorter (passed'.builder ▸ outlines') later passed'.rest).bind fun count c₄ holds => ?_
    obtain ⟨counted, quiet, outlines'⟩ := holds
    rw [ends_pure]
    refine ⟨by rw [counted, List.length_cons], ?_, ?_⟩
    · rw [quiet, passed'.problems, problems, passed.problems]
    · rwa [List.append_assoc, List.singleton_append] at outlines'

/-- The lines are read to the end. Only a text without any is a problem. -/
theorem ends_grammar_lines (outlines : c.builder.Outlines []) (quiet : c.problems = []) (writable : AllWritable rest)
    (here : c.rest = rest.flatMap Grammar.definitionLine) : Ends grammar c fun _ c' =>
      c'.problems.map Problem.kind = (if rest = [] then [.emptyGrammar] else []) ∧
        c'.builder.Outlines (rest.map (Prod.map id Phrase.normal)) := by
  obtain ⟨calm, settled⟩ := settle_lines writable
  rw [grammar]
  refine (takes_spacing (here ▸ calm) c rfl).bind fun _ c₁ ⟨_, passed⟩ => ?_
  rw [ends_steps]
  have here₁ : c₁.rest = rest.flatMap Grammar.definitionLine := by rw [passed.rest, here, settled]
  refine (ends_production_lines (Nat.lt_succ_self _) (passed.builder ▸ outlines) writable here₁).bind
    fun count c₂ ⟨counted, quiet', outlines'⟩ => ?_
  have silent : c₂.problems = [] := quiet'.trans (passed.problems.trans quiet)
  rw [List.nil_append] at outlines'
  cases rest with
  | nil =>
    rw [counted, List.length_nil, if_pos rfl, if_pos rfl, ends_here, ends_report_last]
    exact ⟨by rw [silent]; rfl, outlines'⟩
  | cons d rest =>
    rw [counted, List.length_cons, if_neg (Nat.succ_ne_zero _), if_neg (List.cons_ne_nil _ _), ends_pure]
    exact ⟨by rw [silent]; rfl, outlines'⟩

end Read

end Lines

section Grammars

namespace Grammar

variable {g : Grammar} {problems : Problems} {definitions : List (String × Phrase)}

/-- Productions, actions and classes that are not defined have names of the grammar language, and bounds are no higher
than they can be. -/
structure Nameable (g : Grammar) : Prop where
  production : ∀ {k : Nat} {p}, g.productions[k]? = some p → IsName p.name
  action : ∀ {i child name bound}, g.expr? i = some (.action child name bound) → IsName name
  undefinedClass : ∀ {i name}, g.expr? i = some (.terminal (.charClass (.undefined name))) → IsName name
  bound : ∀ {i child min max}, g.expr? i = some (.repetition child min max) → max ≤ unbounded

/-- Terminals are what they are written as. No class of a known name counts as undefined, and the bounds of intervals are
in order, also of those that sets are made of. -/
structure Literal (g : Grammar) : Prop where
  undefinedClass : ∀ {i name}, g.expr? i = some (.terminal (.charClass (.undefined name))) →
    CharClass.named name = .undefined name
  interval : ∀ {i bounds}, g.expr? i = some (.terminal (.interval bounds)) → bounds.Ordered
  set : ∀ {i members}, g.expr? i = some (.terminal (.set members)) → members.Normal

private theorem Nameable.terminal {i : Nat} {t : Terminal} (nameable : g.Nameable) (literal : g.Literal)
    (present : g.expr? i = some (.terminal t)) : t.Writable := by
  cases t with
  | interval => exact literal.interval present
  | set => exact literal.set present
  | charClass k =>
    cases k with
    | undefined name => exact ⟨nameable.undefinedClass present, literal.undefinedClass present⟩
    | _ => exact ⟨by decide +kernel, CharClass.named_name rfl⟩
  | _ => trivial

/-- What a tree says can be written. -/
theorem WellFormed.writable (wellFormed : g.WellFormed) (regular : g.Regular) (nameable : g.Nameable)
    (literal : g.Literal) {i : Nat} {t : Tree} (rooted : g.Rooted i) (shown : g.tree? i = some t) :
    (t.phrase g.name).Writable := by
  refine wellFormed.tree_induction (motive := fun _ t => (t.phrase g.name).Writable) ?_ rooted shown
  intro i e t rooted present layer
  have each {children : List Nat} {items : List Tree} (parts : List.Forall₂ (fun child body => g.tree? child = some body ∧
      (body.phrase g.name).Writable) children items) (several : 2 ≤ children.length) :
      2 ≤ (Tree.phrases g.name items).length ∧ ∀ p ∈ Tree.phrases g.name items, p.Writable := by
    rw [Tree.phrases_eq_map, List.length_map, ← parts.length_eq]
    refine ⟨several, fun p member => ?_⟩
    obtain ⟨body, listed, rfl⟩ := List.mem_map.mp member
    obtain ⟨child, -, -, writable⟩ := Tree.exists_related parts.flip listed
    exact writable
  cases layer with
  | terminal => exact .terminal (nameable.terminal literal present)
  | @reference target memo =>
    have found := Array.getElem?_eq_getElem (wellFormed.target present)
    refine .reference ?_
    rw [name, found]
    exact nameable.production found
  | action part => exact .action (nameable.action present) part.2
  | undo part => exact part.2
  | sequence parts =>
    obtain ⟨several, all⟩ := each parts (regular present fun _ => Expr.noConfusion)
    exact .sequence several all
  | choice parts =>
    obtain ⟨several, all⟩ := each parts (regular present fun _ => Expr.noConfusion)
    exact .choice several all
  | repetition part =>
    obtain ⟨ordered, positive⟩ := regular present fun _ => Expr.noConfusion
    exact .repetition ordered positive (nameable.bound present) part.2
  | lookahead part => exact .lookahead part.2

theorem WellFormed.allWritable (wellFormed : g.WellFormed) (regular : g.Regular) (nameable : g.Nameable)
    (literal : g.Literal) (outlined : g.outline = definitions.map (Prod.map id some)) : AllWritable definitions := by
  rintro ⟨name, q⟩ member
  have listed : (name, some q) ∈ g.outline := outlined ▸ List.mem_map_of_mem (f := Prod.map id some) member
  obtain ⟨p, defined, same⟩ := List.mem_map.mp listed
  obtain ⟨k, found⟩ := List.mem_iff_getElem?.mp (List.mem_filter.mp defined).1
  rw [Array.getElem?_toList] at found
  obtain ⟨rfl, said⟩ := Prod.ext_iff.mp same
  obtain ⟨t, shown, rfl⟩ := Option.map_eq_some_iff.mp said
  exact ⟨nameable.production found, wellFormed.writable regular nameable literal (rooted_root found) shown⟩

/-- Problems are part neither of the outline nor of the text. -/
theorem outline_with_problems : { g with problems }.outline = g.outline := by
  simp only [outline, phrase?, tree?, unfold_with_problems]
  rfl

theorem text_with_problems : { g with problems }.text = g.text := by
  simp only [text, productionText, exprText, tree?, unfold_with_problems]
  rfl

/-- The outline of a builder is that of its grammar, and the text of the grammar lists it line by line. -/
theorem listed_of_outlines {b : Builder} (outlines : b.Outlines definitions) (problems : Problems) :
    { b.assembled.injectUndo.2 with problems }.outline = definitions.map (Prod.map id some) ∧
      { b.assembled.injectUndo.2 with problems }.text.toList = definitions.flatMap definitionLine := by
  obtain ⟨outlined, filled, -⟩ := outlines.built
  have wellFormed := (outlines.balanced.built (outlines.balanced.sound.build_eq outlines.idle)).1
  refine ⟨outline_with_problems.trans outlined, ?_⟩
  rw [text_with_problems]
  exact wellFormed.text_eq filled outlined

/-- Built in balanced use with names of the grammar language and terminals that are what they are written as, or read
from a text. -/
inductive Spellable (g : Grammar) : Prop
  | built {b : Builder} (balanced : b.Balanced) (built : b.build = .ok g) (nameable : g.Nameable) (literal : g.Literal)
  | read {text : String} {actions : List String} (read : readText text actions = .ok g)

/-- A spellable grammar has an outline that can be written, and the text of it. -/
theorem Spellable.outlined (spellable : g.Spellable) : ∃ definitions, AllWritable definitions ∧
    g.outline = definitions.map (Prod.map id some) ∧ g.text.toList = definitions.flatMap definitionLine := by
  cases spellable with
  | @built b balanced built nameable literal =>
    have wellFormed := (balanced.built built).1
    obtain ⟨idle, rfl⟩ := Builder.eq_of_built built
    obtain ⟨definitions, outlines⟩ := balanced.exists_outlines idle
    obtain ⟨outlined, filled, regular⟩ := outlines.built
    exact ⟨definitions, wellFormed.allWritable regular nameable literal outlined, outlined,
      wellFormed.text_eq filled outlined⟩
  | @read text actions read =>
    obtain ⟨b, definitions, problems, outlines, writable, read'⟩ := exists_readText text actions
    obtain rfl := Except.ok.inj (read'.symm.trans read)
    exact ⟨definitions, writable, listed_of_outlines outlines problems⟩

end Grammar

/-- The text of definitions is read as their normal forms. -/
theorem exists_readText_lines {definitions : List (String × Phrase)} (writable : Read.AllWritable definitions)
    {text : String} (lines : text.toList = definitions.flatMap Grammar.definitionLine) (actions : List String) :
    ∃ g, readText text actions = .ok g ∧
      g.problems.map Problem.kind = (if definitions = [] then [.emptyGrammar] else []) ∧
      g.outline = (definitions.map (Prod.map id Phrase.normal)).map (Prod.map id some) ∧ g.text = text := by
  have plain : '\r' ∉ text.toList := by
    rw [lines, List.mem_flatMap]
    rintro ⟨d, member, inside⟩
    obtain ⟨named, writable⟩ := writable d member
    simp [Grammar.definitionLine, named.no_return, writable.no_return] at inside
  have start : (Cursor.ofString text ((Builder.empty.withActions actions).setSource text)).rest =
      definitions.flatMap Grammar.definitionLine := (Newline.normalize_of_not_mem plain).trans lines
  obtain ⟨_, c, ran, problems, outlines⟩ :=
    Read.ends_grammar_lines (Builder.outlines_empty actions text) rfl writable start
  obtain ⟨outlined, listed⟩ := Grammar.listed_of_outlines outlines (Problems.sort c.problems)
  have sorted : Problems.sort c.problems = c.problems := by
    by_cases nothing : definitions = []
    · rw [if_pos nothing] at problems
      obtain ⟨problem, same, -⟩ := List.map_eq_singleton_iff.mp problems
      rw [same]
      exact List.mergeSort_singleton problem
    · rw [if_neg nothing, List.map_eq_nil_iff] at problems
      rw [problems]
      exact List.mergeSort_nil
  refine ⟨_, readText_eq ran outlines, ?_, outlined, ?_⟩
  · change (Problems.sort c.problems).map Problem.kind = _
    rw [sorted, problems]
  · rw [← String.toList_inj, listed, lines, List.flatMap_map]
    refine List.flatMap_congr fun d _ => ?_
    rw [Grammar.definitionLine, Grammar.definitionLine, Prod.map_snd, Phrase.chars_normal]
    rfl

/-- Reading the text of a grammar gives its definitions in normal form, in the same order, and reports nothing but that
there are none. What is read has the same text. -/
theorem readText_text {g : Grammar} (spellable : g.Spellable) (actions : List String) :
    ∃ g', readText g.text actions = .ok g' ∧
      g'.problems.map Problem.kind = (if g.outline = [] then [.emptyGrammar] else []) ∧
      (∀ d ∈ g.outline, d.2.isSome) ∧ g'.outline = g.outline.map (Prod.map id (Option.map Phrase.normal)) ∧
      g'.text = g.text := by
  obtain ⟨definitions, writable, outlined, lines⟩ := spellable.outlined
  obtain ⟨g', read, problems, outlined', text⟩ := exists_readText_lines writable lines actions
  refine ⟨g', read, ?_, ?_, ?_, text⟩
  · rw [problems, outlined]
    exact if_congr List.map_eq_nil_iff.symm rfl rfl
  · intro d member
    rw [outlined] at member
    obtain ⟨_, -, rfl⟩ := List.mem_map.mp member
    rfl
  · rw [outlined', outlined, List.map_map, List.map_map]
    rfl

namespace Sample

/-- Definitions with an empty text, an interval of one character, an action of nothing and a class that is not
defined. -/
def oddities : String := "A : 'x'-'x' B{0,2} / !$f() '' ;\nB <- @A <odd>"

theorem oddities_regained : ∃ g g', readText oddities ["f"] = .ok g ∧
    g.text = "A : 'x' B\x7b0,2\x7d / !$f() '' ;\nB : @A <odd> ;\n" ∧ readText g.text ["f"] = .ok g' ∧ g'.problems = [] ∧
    g'.outline = g.outline.map (Prod.map id (Option.map Phrase.normal)) ∧ g'.text = g.text := by
  obtain ⟨g, read⟩ : ∃ g, readText oddities ["f"] = .ok g := by
    obtain ⟨_, _, _, -, -, read⟩ := exists_readText oddities ["f"]
    exact ⟨_, read⟩
  have rendered : (readText oddities ["f"]).toOption.map (fun g => (g.text, g.outline.isEmpty)) =
      some ("A : 'x' B\x7b0,2\x7d / !$f() '' ;\nB : @A <odd> ;\n", false) := by decide +kernel
  obtain ⟨g', read', reported, -, same, text⟩ := readText_text (.read read) ["f"]
  rw [read] at rendered
  obtain ⟨written, some⟩ := Prod.ext_iff.mp (Option.some.inj rendered)
  rw [if_neg (List.isEmpty_eq_false_iff.mp some), List.map_eq_nil_iff] at reported
  exact ⟨g, g', read, written, read', reported, same, text⟩

/-- `A : t ;` -/
def lone (t : Terminal) : Builder := .ofSteps [.startProduction "A", .terminal t, .endProduction]

def loneGrammar (t : Terminal) : Grammar := (lone t).build.toOption.getD .empty

/-- The names of `A : t ;` are those of the grammar language, but its text is not read back as its normal form. -/
def Misread (t : Terminal) : Prop :=
  (lone t).Balanced ∧ (lone t).build = .ok (loneGrammar t) ∧ (loneGrammar t).Nameable ∧
    ∃ g', readText (loneGrammar t).text [] = .ok g' ∧
      g'.outline ≠ (loneGrammar t).outline.map (Prod.map id (Option.map Phrase.normal))

/-- The right-hand sides that are a terminal. -/
def terminals (g : Grammar) : List (Option Terminal) :=
  g.outline.map fun d => match d.2 with
    | some (.terminal t) => some t
    | _ => none

theorem terminals_normal {g g' : Grammar}
    (same : g'.outline = g.outline.map (Prod.map id (Option.map Phrase.normal))) :
    terminals g' = (terminals g).map (Option.map Terminal.normal) := by
  rw [terminals, same, terminals, List.map_map, List.map_map]
  refine List.map_congr_left fun ⟨name, said⟩ _ => ?_
  rcases said with _ | p
  · rfl
  · cases p <;> rfl

/-- What is read differs from what was written if the terminal does. -/
theorem misread_of_terminal (t t' : Terminal) (built : (lone t).build.toOption.isSome = true)
    (nodes : (loneGrammar t).nodes.map Node.expr = #[.terminal t])
    (productions : (loneGrammar t).productions.map Production.name = #["A"])
    (named : ∀ {name}, t = .charClass (.undefined name) → Read.IsName name)
    (written : terminals (loneGrammar t) = [some t])
    (read : (readText (loneGrammar t).text []).toOption.map terminals = some [some t']) (differs : t' ≠ t.normal) :
    Misread t := by
  have only {i : Nat} {e : Expr} (present : (loneGrammar t).expr? i = some e) : e = .terminal t := by
    have listed : ((loneGrammar t).nodes.map Node.expr)[i]? = some e := by rwa [Array.getElem?_map]
    rw [nodes] at listed
    have member := Array.mem_of_getElem? listed
    simpa using member
  obtain ⟨g', read, said⟩ := Option.map_eq_some_iff.mp read
  refine ⟨Builder.balanced_ofSteps _, eq_ok_getD built, ⟨?_, ?_, ?_, ?_⟩, g', eq_ok_of_toOption read, fun same => ?_⟩
  · intro k p found
    have listed : ((loneGrammar t).productions.map Production.name)[k]? = some p.name := by
      rw [Array.getElem?_map, found, Option.map_some]
    rw [productions] at listed
    have member := Array.mem_of_getElem? listed
    have called : p.name = "A" := by simpa using member
    rw [called]
    decide +kernel
  · intro i child name bound present
    cases only present
  · intro i name present
    cases only present
    exact named rfl
  · intro i child min max present
    cases only present
  · have told := terminals_normal same
    rw [said, written] at told
    exact differs (by simpa using told)

/-- A class whose name is known, and intervals whose bounds are not in order, are read as what they are written as. -/
theorem lone_misreadings : Misread (.charClass (.undefined "alpha")) ∧ Misread (.interval ⟨'z', 'a'⟩) ∧
    Misread (.set (.ofIntervals [⟨'z', 'a'⟩])) := by
  refine ⟨?_, ?_, ?_⟩
  · refine misread_of_terminal _ (.charClass .alpha) ?_ ?_ ?_ ?_ ?_ ?_ ?_
    case refine_4 =>
      rintro name ⟨⟩
      decide +kernel
    all_goals decide +kernel
  · refine misread_of_terminal _ (.interval ⟨'a', 'z'⟩) ?_ ?_ ?_ nofun ?_ ?_ ?_
    all_goals decide +kernel
  · refine misread_of_terminal _ (.set ⟨#[⟨'a', 'z'⟩]⟩) ?_ ?_ ?_ nofun ?_ ?_ ?_
    all_goals decide +kernel

end Sample

end Grammars

end Packrat
