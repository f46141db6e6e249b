import Packrat.Proofs.Reader.Derived
import Packrat.Proofs.Reader.Totality

/-! # The accepted texts

A text is read without a problem if it is written in the documented syntax, and only then, but for two things. Two
slashes begin a line comment wherever a token can begin, so no comment may stand right behind a slash between
alternatives. And the quote that opens the upper bound of an interval in a set is not told apart from other characters.
-/

namespace Packrat

namespace Documented

theorem Dialect.lenient_liberal : Dialect.lenient.Liberal where
  opens := fun _ => trivial
  separates := fun s solid comment => by
    obtain ⟨rest, rfl | rfl⟩ := comment
    · exact solid.line _ rfl
    · exact solid.line _ rfl

theorem Dialect.strict_conservative : Dialect.strict.Conservative where
  closed := fun _ opened => opened
  separates := fun _ uncommented => uncommented

end Documented

theorem Problems.sort_eq_nil {problems : Problems} : problems.sort = [] ↔ problems = [] := by
  rw [Problems.sort, ← List.length_eq_zero_iff, List.length_mergeSort, List.length_eq_zero_iff]

/-- The problems of a grammar that is read are those that the reader has reported. -/
theorem readText_problems (text : String) (actions : List String) :
    ∃ c g, Read.grammar (Cursor.ofString text ((Builder.empty.withActions actions).setSource text)) = .ok ((), c) ∧
      readText text actions = .ok g ∧ (g.problems = [] ↔ c.problems = []) := by
  obtain ⟨_, c, ran, -, definitions, outlines, -⟩ :=
    Read.ends_grammar (c := Cursor.ofString text ((Builder.empty.withActions actions).setSource text))
      (Builder.outlines_empty actions text)
  exact ⟨c, _, ran, readText_eq ran outlines, Problems.sort_eq_nil⟩

/-- A text has a grammar without problems if it is written in the documented syntax, with no comment right behind a
slash between alternatives. If its grammar has no problems, it is written in this syntax, but that any character may
have been taken for the opening quote of an upper bound in a set. -/
theorem readText_accepts (text : String) (actions : List String) :
    ∃ g, readText text actions = .ok g ∧
      (Documented.Text .strict (Newline.normalize text.toList) → g.problems = []) ∧
      (g.problems = [] → Documented.Text .lenient (Newline.normalize text.toList)) := by
  obtain ⟨c, g, ran, read, same⟩ := readText_problems text actions
  refine ⟨g, read, fun derived => ?_, fun none => ?_⟩
  · obtain ⟨-, -, -, problems⟩ := Read.reads_grammar Documented.Dialect.strict_conservative derived _ () c rfl ran
    exact same.mpr problems
  · apply (Read.silently_grammar Documented.Dialect.lenient_liberal _ () c ran).2.2
    rw [same.mp none]
    rfl

namespace Sample

open Documented

theorem one_blank (s : List Char) : Spacing (' ' :: s) s := .more (.blank (by decide +kernel) s) (.none s)

/-- `'a'` and `'b'` with a slash between them, in a production. -/
theorem two_alternatives {d : Dialect} {behind : List Char} (separated : d.separates behind)
    (blanks : Spacing behind "'b' ;".toList) : Documented.Text d ("A : 'a' /".toList ++ behind) := by
  have letter (c : Char) (plain : c ≠ '\'' ∧ c ≠ '\n' ∧ c ≠ '\\') (s : List Char) :
      Part d .sequence ('\'' :: c :: '\'' :: ' ' :: s) s := by
    have item : Item '\'' (c :: '\'' :: ' ' :: s) ('\'' :: ' ' :: s) := .plain plain.1 plain.2.1 plain.2.2 _
    have string : Quoted '\'' ('\'' :: c :: '\'' :: ' ' :: s) (' ' :: s) := .quoted (.more item (.none _))
    exact .lastUnary (.unary (.none _) (.text (.inl rfl) string (one_blank s)) (.none s))
  have expression : Part d .expression ('\'' :: 'a' :: '\'' :: ' ' :: '/' :: behind) [';'] :=
    .expression (letter 'a' (by decide) _)
      (.alternative (.inl rfl) (fun _ => separated) blanks (letter 'b' (by decide) [';']) (.noAlternative _))
  have start : Read.isNameStart 'A' = true := by decide +kernel
  have parts : ∀ c ∈ ([] : List Char), Read.isNamePart c = true := nofun
  have ends : ∀ c ∈ (" : 'a' /".toList ++ behind).head?, Read.isNamePart c = false := by
    rintro _ ⟨⟩
    decide +kernel
  have name : Name ('A' :: ([] ++ (" : 'a' /".toList ++ behind))) (" : 'a' /".toList ++ behind) :=
    .name start parts ends
  have colon : [':'] ∈ assignments := by decide
  have production : Documented.Production d ('A' :: (" : 'a' /".toList ++ behind)) [] :=
    .production name colon (one_blank _) (one_blank _) expression
  exact .text (.none _) (.last production (.none _))

theorem spaced_alternatives_accepted : Documented.Text .strict "A : 'a' / 'b' ;".toList ∧
    ∃ g, readText "A : 'a' / 'b' ;" [] = .ok g ∧ g.problems = [] ∧
      Documented.Text .lenient "A : 'a' / 'b' ;".toList := by
  have derived : Documented.Text .strict "A : 'a' / 'b' ;".toList := by
    have spaced : Spacing " 'b' ;".toList "'b' ;".toList := one_blank _
    refine two_alternatives ?_ spaced
    rintro ⟨rest, same | same⟩ <;> cases same
  obtain ⟨g, read, silent, told⟩ := readText_accepts "A : 'a' / 'b' ;" []
  exact ⟨derived, g, read, silent derived, told (silent derived)⟩

/-- A comment right behind a slash is documented, but the two slashes begin a line comment. -/
theorem commented_alternatives_rejected : ¬ ∀ (text : String) (actions : List String) (g : Grammar),
    readText text actions = .ok g →
      (g.problems = [] ↔ Documented.Text .plain (Newline.normalize text.toList)) := by
  intro claimed
  obtain ⟨c, g, -, read, -⟩ := readText_problems "A : 'a' //*c*/ 'b' ;" []
  have derived : Documented.Text .plain (Newline.normalize "A : 'a' //*c*/ 'b' ;".toList) := by
    have inside : ¬ ['*', '/'] <:+: ['c'] ++ ['*'] := by decide
    have commented : Spacing "/*c*/ 'b' ;".toList "'b' ;".toList := .more (.block inside _) (one_blank _)
    exact two_alternatives trivial commented
  have one : (readText "A : 'a' //*c*/ 'b' ;" []).toOption.map (fun g => g.problems.length) = some 1 := by
    decide +kernel
  rw [read] at one
  rw [Except.toOption, Option.map_some, (claimed _ [] g read).mpr derived] at one
  cases one

end Sample

end Packrat
