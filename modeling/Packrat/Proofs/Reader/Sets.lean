import Packrat.Proofs.Reader.Strings

/-! # Reading sets

A set is read element by element. Every element that cannot be read is reported, so where nothing is reported the
elements are as documented, but for the quote that opens the upper bound of an interval: any character is taken for it.
-/

namespace Packrat

namespace Read

open Documented

variable {d : Dialect} {part : SetPart} {before middle after behind inner : List Char}

theorem inSet_head (derived : InSet d part before after) :
    ∃ first rest, before = first :: rest ∧ first ∈ ['\'', '~', '['] ∧ (part = .set → first = '[') := by
  induction derived with
  | empty => exact ⟨_, _, rfl, by decide, fun _ => rfl⟩
  | listed => exact ⟨_, _, rfl, by decide, fun _ => rfl⟩
  | last element ih =>
    obtain ⟨first, rest, same, known, -⟩ := ih
    exact ⟨first, rest, same, known, nofun⟩
  | comma element blanks rest ih =>
    obtain ⟨first, rest, same, known, -⟩ := ih
    exact ⟨first, rest, same, known, nofun⟩
  | character single =>
    obtain ⟨inner, rfl⟩ := single_head single
    exact ⟨_, _, rfl, by decide, nofun⟩
  | interval lo =>
    obtain ⟨inner, rfl⟩ := single_head lo
    exact ⟨_, _, rfl, by decide, nofun⟩
  | complement => exact ⟨_, _, rfl, by decide, nofun⟩
  | nested set blanks ih =>
    obtain ⟨first, rest, same, known, -⟩ := ih
    exact ⟨first, rest, same, known, nofun⟩

theorem solid_inSet (derived : InSet d part before after) : Solid before := by
  obtain ⟨first, rest, rfl, known, -⟩ := inSet_head derived
  have leading : ∀ c ∈ ['\'', '~', '['], c ∈ signs ∧ c ≠ '/' := forall_of_all (by decide)
  obtain ⟨sign, slash⟩ := leading first known
  exact solid_sign sign slash rest

/-- The opening quote of a character is not looked at. -/
theorem silently_setChar : Silently setChar fun found before after => found.isSome ∧ Solid after ∧
    ∃ middle, Single (fun _ => True) before middle ∧ Spacing middle after := by
  refine silently_here fun start => (silently_quotedText '\'').bind fun text => silently_here fun stop => ?_
  refine silently_spacing.bind fun _ => ?_
  split
  · next c =>
    refine silently_pure ?_
    rintro after middle ⟨blanks, solid⟩ before ⟨opening, inner, rfl, -, single⟩
    exact ⟨rfl, solid, middle, .single trivial (single c rfl), blanks⟩
  · exact silently_reported (silently_pure fun _ => trivial)

theorem single_mono {opens opens' : Char → Prop} (single : Single opens before after)
    (wider : ∀ first ∈ before.head?, opens' first) : Single opens' before after := by
  obtain ⟨-, item⟩ := single
  exact .single (wider _ rfl) item

theorem single_closed {opens : Char → Prop} (closed : ∀ c, opens c → c = '\'') (single : Single opens before after) :
    Single Apostrophe before after := by
  obtain ⟨opened, item⟩ := single
  exact .single (closed _ opened) item

theorem silently_setInterval (opens : ∀ c, d.opens c) : Silently setInterval fun found before after =>
    before.head? = some '\'' → found.isSome ∧ Solid after ∧ InSet d .element before after := by
  refine silently_setChar.bind fun lo => ?_
  cases lo with
  | none =>
    refine silently_pure ?_
    rintro after before ⟨⟨⟩, -⟩
  | some lo =>
    refine (silently_eat "-").bind fun separated => ?_
    cases separated with
    | true =>
      refine silently_spacing.bind fun _ => silently_setChar.bind fun hi => silently_pure ?_
      rintro after middle ⟨some, solid, upper, hi, blanks''⟩ behind ⟨blanks', -⟩ _ rfl before
        ⟨-, -, lower, lo, blanks⟩ quote
      have hi : Single d.opens _ _ := single_mono hi fun c _ => opens c
      rw [Option.isSome_map]
      refine ⟨some, solid, .interval (single_mono lo ?_) blanks blanks' hi blanks''⟩
      rw [quote]
      rintro _ ⟨⟩
      rfl
    | false =>
      refine silently_pure ?_
      rintro after _ ⟨rfl, -⟩ before ⟨-, solid, middle, single, blanks⟩ quote
      refine ⟨rfl, solid, .character (single_mono single ?_) blanks⟩
      rw [quote]
      rintro _ ⟨⟩
      rfl

theorem silently_skipSet : Silently skipSet fun _ _ _ => True :=
  (silently_takeWhile _).bind fun _ => (silently_eat _).bind fun _ => silently_pure fun _ _ _ _ _ => trivial

variable {element : Read (Option Charset)}

theorem silently_setElements (each : Silently element fun found before after =>
      found.isSome ∧ Solid after ∧ InSet d .element before after) (limit : Nat) (set : Charset) :
    Silently (setElements element limit set) fun _ before after => InSet d .elements before (']' :: after) := by
  induction limit generalizing set with
  | zero => exact silently_throw _
  | succ limit ih =>
    refine each.bind fun found => ?_
    cases found with
    | none =>
      refine silently_skipSet.bind fun _ => silently_pure ?_
      rintro _ _ _ _ ⟨⟨⟩, -⟩
    | some more =>
      refine (silently_eat ",").bind fun separated => ?_
      cases separated with
      | true =>
        refine silently_spacing.bind fun _ => (ih _).mono ?_
        rintro _ middle after rest behind ⟨blanks, -⟩ _ rfl before ⟨-, -, element⟩
        exact .comma element blanks rest
      | false =>
        refine (silently_eat "]").bind fun closed => ?_
        cases closed with
        | true =>
          refine silently_pure ?_
          rintro after _ rfl _ ⟨rfl, -⟩ before ⟨-, -, element⟩
          exact .last element
        | false =>
          refine silently_here fun place => silently_reported ?_
          exact silently_skipSet.bind fun _ => silently_pure fun _ _ _ => trivial

theorem silently_bracketSet (each : Silently element fun found before after =>
      found.isSome ∧ Solid after ∧ InSet d .element before after) :
    Silently (bracketSet element) fun _ before after => before.head? = some '[' → InSet d .set before after := by
  refine (silently_skip 1).bind fun _ => silently_spacing.bind fun _ => (silently_eat "]").bind fun closed => ?_
  cases closed with
  | true =>
    refine silently_pure ?_
    rintro after _ rfl _ ⟨blanks, -⟩ before rfl first
    obtain ⟨inner, rfl⟩ := List.head?_eq_some_iff.mp first
    exact .empty blanks
  | false =>
    refine silently_steps fun limit => (silently_setElements each limit .empty).mono ?_
    rintro set middle after elements _ ⟨rfl, -⟩ _ ⟨blanks, -⟩ before rfl first
    obtain ⟨inner, rfl⟩ := List.head?_eq_some_iff.mp first
    exact .listed blanks elements

theorem silently_setElement (opens : ∀ c, d.opens c) (depth : Nat) :
    Silently (setElement depth) fun found before after =>
      found.isSome ∧ Solid after ∧ InSet d .element before after := by
  induction depth with
  | zero => exact silently_throw _
  | succ depth ih =>
    refine silently_peek fun next => ?_
    split
    · refine (silently_skip 1).bind fun _ => silently_spacing.bind fun _ => ih.bind fun found => silently_pure ?_
      rintro after middle ⟨some, solid, element⟩ _ ⟨blanks, -⟩ before rfl first
      obtain ⟨inner, rfl⟩ := List.head?_eq_some_iff.mp first
      rw [Option.isSome_map]
      exact ⟨some, solid, .complement blanks element⟩
    · refine (silently_bracketSet ih).bind fun set => silently_spacing.bind fun _ => silently_pure ?_
      rintro after middle ⟨blanks, solid⟩ before set first
      exact ⟨rfl, solid, .nested (set first) blanks⟩
    · exact silently_setInterval opens
    · exact silently_here fun place => silently_reported (silently_pure fun _ => trivial)

theorem silently_charset (opens : ∀ c, d.opens c) : Silently charset fun _ before after =>
    before.head? = some '[' → InSet d .set before after :=
  silently_steps fun limit => silently_bracketSet (silently_setElement opens limit)

theorem reads_setChar {opening : Char} (item : Item '\'' inner ('\'' :: middle)) (blanks : Spacing middle after)
    (solid : Solid after) : Reads setChar (opening :: inner) (fun found => found.isSome) after := by
  refine reads_here fun start => (reads_quotedText_single opening (.inl rfl) item).bind ?_
  rintro _ ⟨c, rfl⟩
  exact reads_here fun stop => (reads_spacing blanks solid).bind fun _ _ => reads_pure rfl

/-- What stands behind an element of a set. -/
def Listed (s : List Char) : Prop := ∃ rest, s = ',' :: rest ∨ s = ']' :: rest

theorem Listed.solid (listed : Listed after) : Solid after := by
  obtain ⟨rest, rfl | rfl⟩ := listed
  · exact solid_sign (by decide) (by decide) rest
  · exact solid_sign (by decide) (by decide) rest

theorem reads_setInterval_single (single : Single Apostrophe before middle) (blanks : Spacing middle after)
    (listed : Listed after) : Reads setInterval before (fun found => found.isSome) after := by
  obtain ⟨-, item⟩ := single
  refine (reads_setChar item blanks listed.solid).bind fun found some => ?_
  obtain ⟨lo, rfl⟩ := Option.isSome_iff_exists.mp some
  refine (reads_eat_none (headed_apart (d := '-') rfl ?_)).bind ?_
  · obtain ⟨rest, rfl | rfl⟩ := listed <;> simp
  rintro _ rfl
  exact reads_pure rfl

theorem reads_setInterval_bounds {lower upper : List Char} (lo : Single Apostrophe before lower)
    (blanks : Spacing lower ('-' :: behind)) (blanks' : Spacing behind middle) (hi : Single Apostrophe middle upper)
    (blanks'' : Spacing upper after) (listed : Listed after) :
    Reads setInterval before (fun found => found.isSome) after := by
  have solid := solid_single hi
  obtain ⟨-, item⟩ := lo
  obtain ⟨-, item'⟩ := hi
  refine (reads_setChar item blanks (solid_minus behind)).bind fun found some => ?_
  obtain ⟨lo, rfl⟩ := Option.isSome_iff_exists.mp some
  refine (reads_eat "-" behind).bind ?_
  rintro _ rfl
  refine (reads_spacing blanks' solid).bind fun _ _ => ?_
  refine (reads_setChar item' blanks'' listed.solid).bind fun found some => reads_pure ?_
  rw [Option.isSome_map]
  exact some

/-- Nothing is read without any depth. -/
theorem reads_setElement {A : Option Charset → Prop}
    (read : ∀ depth, Reads (setElement (depth + 1)) before A after) (depth : Nat) :
    Reads (setElement depth) before A after := by
  cases depth with
  | zero => exact reads_throw _
  | succ depth => exact read depth

/-- How the parts of a set are read. -/
def ReadsInSet (part : SetPart) (before after : List Char) : Prop :=
  match part with
  | .set => ∀ depth, Reads (bracketSet (setElement depth)) before (fun _ => True) after
  | .elements => ∀ depth limit set rest, after = ']' :: rest →
      Reads (setElements (setElement depth) limit set) before (fun _ => True) rest
  | .element => Listed after → ∀ depth, Reads (setElement depth) before (fun found => found.isSome) after

theorem reads_inSet (closed : ∀ c, d.opens c → c = '\'') (derived : InSet d part before after) :
    ReadsInSet part before after := by
  induction derived with
  | empty blanks =>
    intro depth
    have solid := solid_sign (d := ']') (by decide) (by decide)
    refine (reads_skip 1).bind fun _ _ => (reads_spacing blanks (solid _)).bind fun _ _ => ?_
    refine (reads_eat "]" _).bind ?_
    rintro _ rfl
    exact reads_pure trivial
  | listed blanks elements ih =>
    intro depth
    refine (reads_skip 1).bind fun _ _ => (reads_spacing blanks (solid_inSet elements)).bind fun _ _ => ?_
    obtain ⟨first, rest, rfl, known, -⟩ := inSet_head elements
    refine (reads_eat_none (headed_apart (d := ']') rfl ?_)).bind ?_
    · rintro ⟨⟩
      exact absurd known (by decide)
    rintro _ rfl
    exact reads_steps fun limit => ih depth limit .empty _ rfl
  | last element ih =>
    rintro depth limit set rest rfl
    cases limit with
    | zero => exact reads_throw _
    | succ limit =>
      refine (ih ⟨rest, .inr rfl⟩ depth).bind fun found some => ?_
      obtain ⟨more, rfl⟩ := Option.isSome_iff_exists.mp some
      refine (reads_eat_none (headed_apart (d := ',') rfl (by simp))).bind ?_
      rintro _ rfl
      refine (reads_eat "]" rest).bind ?_
      rintro _ rfl
      exact reads_pure trivial
  | comma element blanks others ih ih' =>
    rintro depth limit set rest rfl
    cases limit with
    | zero => exact reads_throw _
    | succ limit =>
      refine (ih ⟨_, .inl rfl⟩ depth).bind fun found some => ?_
      obtain ⟨more, rfl⟩ := Option.isSome_iff_exists.mp some
      refine (reads_eat "," _).bind ?_
      rintro _ rfl
      refine (reads_spacing blanks (solid_inSet others)).bind fun _ _ => ?_
      exact ih' depth limit _ rest rfl
  | character single blanks =>
    intro listed
    have read := reads_setInterval_single single blanks listed
    obtain ⟨inner, rfl⟩ := single_head single
    exact reads_setElement fun depth => reads_peek read
  | interval lo blanks blanks' hi blanks'' =>
    intro listed
    have hi := single_closed closed hi
    have read := reads_setInterval_bounds lo blanks blanks' hi blanks'' listed
    obtain ⟨inner, rfl⟩ := single_head lo
    exact reads_setElement fun depth => reads_peek read
  | complement blanks element ih =>
    intro listed
    refine reads_setElement fun depth => reads_peek ((reads_skip 1).bind fun _ _ => ?_)
    refine (reads_spacing blanks (solid_inSet element)).bind fun _ _ => ?_
    refine (ih listed depth).bind fun found some => reads_pure ?_
    rw [Option.isSome_map]
    exact some
  | nested set blanks ih =>
    intro listed
    obtain ⟨first, rest, rfl, -, bracket⟩ := inSet_head set
    obtain rfl := bracket rfl
    refine reads_setElement fun depth => reads_peek ((ih depth).bind fun set _ => ?_)
    exact (reads_spacing blanks listed.solid).bind fun _ _ => reads_pure rfl

theorem reads_charset (closed : ∀ c, d.opens c → c = '\'') (set : InSet d .set before after) :
    Reads charset before (fun _ => True) after :=
  reads_steps fun limit => reads_inSet closed set limit

end Read

end Packrat
