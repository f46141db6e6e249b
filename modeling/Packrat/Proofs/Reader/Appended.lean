import Packrat.Proofs.Grammar.Listed
import Packrat.Proofs.Reader.RoundTrip
import Packrat.Proofs.Reader.SurroundedProductions

/-! # Texts one after the other

A text that is read without a problem can be continued on a new line by any other text. Its productions are read as
before, and behind its last `;` only blanks are left, so the other text is read as it is read alone, on later lines.
-/

namespace Packrat

open Documented (Blank Spacing)

namespace Newline

theorem normalize_apart {c d : Char} (apart : c = '\r' → d ≠ '\n') (rest : List Char) :
    normalize (c :: d :: rest) = (if c = '\r' then '\n' else c) :: normalize (d :: rest) := by
  rw [normalize]
  intro _ ret same
  exact apart ret (List.cons.inj same).1

/-- A line feed ends a line, whatever stands in front of it. -/
theorem normalize_append_line (s t : List Char) :
    normalize (s ++ '\n' :: t) = normalize (s ++ ['\n']) ++ normalize t := by
  fun_induction normalize s with
  | case1 => simp [normalize]
  | case2 rest ih => simp [normalize, ih]
  | case3 c rest other ih =>
    cases rest with
    | nil => by_cases ret : c = '\r' <;> simp [normalize, ret]
    | cons d rest =>
      have apart : c = '\r' → d ≠ '\n' := fun ret newline => other rest ret (newline ▸ rfl)
      simp only [List.cons_append] at ih ⊢
      rw [normalize_apart apart, normalize_apart apart, ih]
      rfl

/-- A line feed behind a line end can be a part of it. -/
theorem normalize_line (s : List Char) : ∃ sep, normalize (s ++ ['\n']) = normalize s ++ sep ∧
    (sep = ['\n'] ∨ sep = [] ∧ ∃ before, normalize s = before ++ ['\n']) := by
  have longer {c : Char} {s t : List Char} (ends : ∃ sep, t = s ++ sep ∧
      (sep = ['\n'] ∨ sep = [] ∧ ∃ before, s = before ++ ['\n'])) : ∃ sep, c :: t = c :: s ++ sep ∧
      (sep = ['\n'] ∨ sep = [] ∧ ∃ before, c :: s = before ++ ['\n']) := by
    obtain ⟨sep, rfl, ends⟩ := ends
    exact ⟨sep, rfl, ends.imp_right fun ⟨bare, before, same⟩ => ⟨bare, c :: before, congrArg _ same⟩⟩
  fun_induction normalize s with
  | case1 => exact ⟨['\n'], rfl, .inl rfl⟩
  | case2 rest ih => exact longer ih
  | case3 c rest other ih =>
    cases rest with
    | nil =>
      by_cases ret : c = '\r'
      · subst ret
        exact ⟨[], rfl, .inr ⟨rfl, [], rfl⟩⟩
      · exact ⟨['\n'], by simp [normalize, ret], .inl rfl⟩
    | cons d rest =>
      have apart : c = '\r' → d ≠ '\n' := fun ret newline => other rest ret (newline ▸ rfl)
      rw [List.cons_append, List.cons_append, normalize_apart apart]
      exact longer ih

theorem exists_line (s : List Char) : ∃ before, normalize (s ++ ['\n']) = before ++ ['\n'] := by
  obtain ⟨sep, same, rfl | ⟨rfl, before, whole⟩⟩ := normalize_line s
  · exact ⟨_, same⟩
  · exact ⟨before, by rw [same, List.append_nil, whole]⟩

end Newline

/-- Blanks up to the end of a text are blanks in front of what begins on a new line. -/
theorem Documented.Spacing.line {taken tail sep : List Char} (blanks : Spacing tail [])
    (ends : sep = ['\n'] ∨ sep = [] ∧ ∃ before, taken ++ tail = before ++ ['\n']) (u : List Char) :
    Spacing (tail ++ sep ++ u) u := by
  have newline : Blank ('\n' :: u) u := .blank (by decide +kernel) u
  generalize none : ([] : List Char) = after at blanks
  induction blanks generalizing taken with
  | none s =>
    subst none
    rcases ends with rfl | ⟨rfl, -⟩
    · exact .more newline (.none u)
    · exact .none u
  | @more before middle after first rest ih =>
    subst none
    have rest (blank : List Char) (same : before = blank ++ middle) : Spacing (middle ++ sep ++ u) u := by
      rw [same, ← List.append_assoc] at ends
      exact ih ends rfl
    cases first with
    | @blank c white => exact .more (.blank white _) (rest [c] rfl)
    | @line body inside =>
      simp only [List.cons_append, List.append_assoc]
      refine .more (.line inside _) ?_
      rw [← List.append_assoc]
      exact rest ('/' :: '/' :: (body ++ ['\n'])) (by simp)
    | @lastLine body inside =>
      rcases ends with rfl | ⟨rfl, before, whole⟩
      · simp only [List.cons_append, List.append_assoc]
        exact .more (.line inside u) (.none u)
      · -- The last line would have been ended in the text.
        have last : ('/' :: '/' :: body).getLast? = some '\n' := by
          rw [← List.getLast?_append_of_ne_nil taken (List.cons_ne_nil _ _), whole, List.getLast?_concat]
        have member := List.mem_of_getLast? last
        simp [inside] at member
    | @block body inside =>
      simp only [List.cons_append, List.append_assoc]
      refine .more (.block inside _) ?_
      rw [← List.append_assoc]
      exact rest ('/' :: '*' :: (body ++ ['*', '/'])) (by simp)

namespace Problem

theorem listedBefore_shift (p q : Problem) (front : List Char) :
    (p.shift front).listedBefore (q.shift front) = p.listedBefore q := by
  rw [Bool.eq_iff_iff, listedBefore_iff, listedBefore_iff]
  unfold shift
  rcases p.span with _ | ⟨⟨o, l, c⟩, _⟩ <;> rcases q.span with _ | ⟨⟨o', l', c'⟩, _⟩
  · rfl
  · rfl
  · rfl
  · simp only [Option.map_some, Span.shift, Position.shift, Position.le_iff, Position.mk.injEq, ne_eq]
    omega

end Problem

namespace Problems

theorem sort_shift (ps : Problems) (front : List Char) :
    sort (ps.map (·.shift front)) = ps.sort.map (·.shift front) :=
  (List.map_mergeSort (f := (Problem.shift · front)) fun p _ q _ =>
    (Problem.listedBefore_shift p q front).symm).symm

end Problems

namespace Read

variable {k : Setting} {c c' d d' : Cursor}

/-- Blanks are passed one by one, also where more of them follow. -/
theorem passes_blanks {before after : List Char} (blanks : Spacing before after) {limit count : Nat}
    (ahead : c.rest = before) (ran : countWhile (skipBlank true) limit c = .ok (count, d)) :
    ∃ e limit' count', e.rest = after ∧ Advances c e ∧ e.problems = c.problems ∧ e.builder = c.builder ∧
      countWhile (skipBlank true) limit' e = .ok (count', d) := by
  induction blanks generalizing c limit count with
  | none s => exact ⟨c, limit, count, ahead, .refl c, rfl, rfl, ran⟩
  | more first rest ih =>
    cases limit with
    | zero => cases ran
    | succ limit =>
      obtain ⟨more, c₁, ran₁, ran₂⟩ := bind_eq_ok.mp ran
      obtain ⟨rfl, ahead₁, -, problems⟩ := reads_skipBlank true first c more c₁ ahead ran₁
      have advances := (agrees_skipBlank (k := ⟨[], [], []⟩) (m := .outside) true c true c₁ ran₁).1
      obtain ⟨_, _, ran₁', after, -⟩ := tries_skipBlank true c
      cases ran₁.symm.trans ran₁'
      obtain ⟨count', _, ran₂, ⟨⟩⟩ := bind_eq_ok.mp ran₂
      obtain ⟨e, limit', count', rest, advances', problems', builder, ran⟩ := ih ahead₁ ran₂
      exact ⟨e, limit', count', rest, advances.trans advances', problems'.trans problems,
        builder.trans after.onward.builder, ran⟩

/-- What stands between productions is skipped blank by blank. -/
theorem spacing_ran {limit count : Nat} (ran : (do spacing; productions limit) c = .ok (count, d)) :
    ∃ blanks, (do let _ ← countWhile (skipBlank true) blanks; productions limit) { c with tokenEnd := c.position } =
      .ok (count, d) := by
  obtain ⟨_, c₁, skipped, ran⟩ := bind_eq_ok.mp ran
  obtain ⟨_, _, ⟨⟩, skipped⟩ := bind_eq_ok.mp skipped
  obtain ⟨_, _, ⟨⟩, skipped⟩ := bind_eq_ok.mp skipped
  obtain ⟨_, _, skipped, ⟨⟩⟩ := bind_eq_ok.mp skipped
  exact ⟨_, bind_eq_ok.mpr ⟨_, c₁, skipped, ran⟩⟩

/-- Reading goes on where blanks have been passed. -/
theorem passes_gap {s : List Char} {limit count : Nat} (spaced : Spacing c.rest s)
    (ran : (do spacing; productions limit) c = .ok (count, d)) :
    ∃ e blanks, e.rest = s ∧ Advances c e ∧ e.problems = c.problems ∧ e.builder = c.builder ∧
      (do let _ ← countWhile (skipBlank true) blanks; productions limit) e = .ok (count, d) := by
  obtain ⟨_, ran⟩ := spacing_ran ran
  obtain ⟨_, c₁, skipped, ran⟩ := bind_eq_ok.mp ran
  obtain ⟨e, blanks, _, rest, ⟨marks, problems, taken⟩, same, builder, skipped⟩ :=
    passes_blanks (c := { c with tokenEnd := c.position }) spaced rfl skipped
  exact ⟨e, blanks, rest, ⟨marks, problems, taken⟩, same, builder, bind_eq_ok.mpr ⟨_, c₁, skipped, ran⟩⟩

/-- Blanks and productions are read to the end of both texts. -/
theorem agrees_last (none : k.behind = []) (limit blanks limit' : Nat) : Agrees k .outside .outside (fun _ _ => True)
    (do spacing; productions limit) (do let _ ← countWhile (skipBlank true) blanks; productions limit') := by
  intro c count d ran
  obtain ⟨skips, ran⟩ := spacing_ran ran
  have last : Agrees k .outside .outside (fun _ _ => True)
      (do let _ ← countWhile (skipBlank true) skips; productions limit)
      (do let _ ← countWhile (skipBlank true) blanks; productions limit') :=
    ((agrees_skipBlanks true skips blanks).whole none).next fun _ => agrees_productions none limit limit'
  obtain ⟨⟨marks, problems, taken⟩, follows⟩ := last _ count d ran
  refine ⟨⟨marks, problems, taken⟩, fun told c' a' d' related => follows told c' a' d' ?_⟩
  exact { related with tokenEnd := fun other => absurd rfl other }

/-- Where a text is read without a problem, its productions are read in the longer text too. Then nothing but blanks is
left of it, and the longer text is read on from there. -/
theorem passes_productions {limit limit' count count' : Nat} (related : k.Relates .outside c c')
    (ran : (do spacing; productions limit) c = .ok (count, d)) (silent : d.problems.length = c.problems.length)
    (ran' : (do spacing; productions limit') c' = .ok (count', d')) :
    ∃ e e' left more, k.Relates .outside e e' ∧ Spacing e.rest [] ∧ Advances c e ∧
      e.problems.length = c.problems.length ∧ e.builder = d.builder ∧
      (do spacing; productions left) e' = .ok (more, d') ∧ count' = count + more := by
  induction limit generalizing c c' count limit' count' with
  | zero =>
    obtain ⟨_, c₁, -, ran₂⟩ := bind_eq_ok.mp ran
    cases ran₂
  | succ limit ih =>
    have continues : Silently (do spacing; productions limit) fun _ _ _ => True :=
      silently_spacing.bind fun _ => (silently_productions Documented.Dialect.lenient_liberal limit).mono
        fun _ _ _ _ _ _ => trivial
    have spaced : Agrees k .outside .outside Stops spacing spacing := agrees_spacing (by decide)
    obtain ⟨_, c₁, ran₁, ran₂⟩ := bind_eq_ok.mp ran
    obtain ⟨advances₁, follows₁⟩ := spaced c () c₁ ran₁
    have longer₁ := advances₁.problems
    cases round_of_ran ran₂ with
    | ended nothing =>
      obtain ⟨_, _, ran₁', onward⟩ := total_spacing c
      cases ran₁.symm.trans ran₁'
      have blanks : Spacing c.rest d.rest := ((silently_spacing c () d ran₁).2.2 silent).1
      exact ⟨c, c', limit', count', related, nothing ▸ blanks, .refl c, rfl, onward.onward.builder.symm, ran',
        (Nat.zero_add _).symm⟩
    | garbage _ other rest =>
      have never : Silently (do garbage; spacing; productions limit) fun _ _ _ => False :=
        silently_garbage.bind fun _ => continues.mono fun _ _ _ _ _ never => never
      obtain ⟨-, longer, never⟩ := never c₁ count d rest
      exact (never (by omega)).elim
    | @production _ count _ c₂ _ head first rest =>
      obtain ⟨advances₂, follows₂⟩ := agrees_production (k := k) c₁ () c₂ first
      have longer₂ := advances₂.problems
      obtain ⟨-, longer, -⟩ := continues c₂ count d rest
      have stops : ';' ∈ c₁.rest := asks_production c₁ () c₂ first advances₂ (by omega) trivial
      obtain ⟨_, c₁', ran₁', ran₂'⟩ := bind_eq_ok.mp ran'
      obtain ⟨-, related₁⟩ := follows₁ (.inr ⟨by omega, stops⟩) c' () c₁' related ran₁'
      cases round_of_ran ran₂' with
      | ended nothing =>
        rw [related₁.rest, List.append_eq_nil_iff] at nothing
        rw [nothing.1] at stops
        cases stops
      | garbage _ other _ =>
        have here : AtHead c₁.rest := (reads_atProductionHead c₁.rest c₁ true c₁ rfl head).1.mp rfl
        obtain ⟨same, -⟩ := (agrees_atProductionHead c₁ true c₁ head).2 (.inr ⟨rfl, fun _ => here⟩) c₁' false c₁'
          related₁ other
        cases same
      | @production _ count' _ c₂' _ _ first' rest' =>
        obtain ⟨-, related₂⟩ := follows₂ (.inr ⟨by omega, trivial⟩) c₁' () c₂' related₁ first'
        obtain ⟨e, e', left, more, related, blanks, advances, same, builder, ran, total⟩ :=
          ih related₂ rest (by omega) rest'
        exact ⟨e, e', left, more, related, blanks, advances₁.trans (advances₂.trans advances), by omega, builder, ran,
          by omega⟩

/-- Behind the productions of a text only their absence is reported. -/
theorem grammar_ran (ran : grammar c = .ok ((), d)) :
    ∃ limit count e, (do spacing; productions limit) c = .ok (count, e) ∧ d.builder = e.builder ∧
      if count = 0 then ∃ p : Problem, p.kind = .emptyGrammar ∧ d.problems = e.problems ++ [p]
      else d.problems = e.problems := by
  obtain ⟨_, c₁, spaced, ran⟩ := bind_eq_ok.mp ran
  obtain ⟨limit, _, ⟨⟩, ran⟩ := bind_eq_ok.mp ran
  obtain ⟨count, e, read, ran⟩ := bind_eq_ok.mp ran
  refine ⟨_, count, e, bind_eq_ok.mpr ⟨_, c₁, spaced, read⟩, ?_⟩
  split at ran
  · cases ran
    exact ⟨rfl, by rw [if_pos ‹_›]; exact ⟨_, rfl, rfl⟩⟩
  · cases ran
    exact ⟨rfl, by rw [if_neg ‹_›]⟩

theorem idle_of_ran {t : String} {actions : List String} (ran : grammar (.start t actions) = .ok ((), d)) :
    d.builder.current = none := by
  obtain ⟨_, _, ran', -, _, outlines, -⟩ := ends_grammar (c := .start t actions) (Builder.outlines_empty actions t)
  cases ran.symm.trans ran'
  exact outlines.idle

/-- A text that begins like another one is read like that at first. -/
theorem relates_start {t t₁ : String} {actions : List String} {behind : List Char}
    (begins : Newline.normalize t.toList = Newline.normalize t₁.toList ++ behind) :
    (Setting.mk [] behind []).Relates .outside (.start t₁ actions) (.start t actions) where
  place := congrArg (Place.mk · .origin) begins
  marks := rfl
  problems := rfl
  nonempty := nofun
  alike := ⟨{}, Builder.holds_empty actions t₁, Builder.holds_empty actions t⟩
  tokenEnd := fun other => absurd rfl other
  current := nofun

/-- On a line of its own a text is read as it is read alone, on a later line and behind other definitions. -/
theorem relates_line {t : String} {actions : List String} {c : Cursor} {earlier : List (String × Phrase)}
    {front : List Char} (rest : c.rest = Newline.normalize t.toList)
    (position : c.position = Position.origin.advance (front ++ ['\n'])) (marks : c.marks = [])
    (problems : c.problems = []) (holds : c.builder.Holds { definitions := earlier }) :
    (Setting.mk (front ++ ['\n']) [] earlier).Relates .outside (.start t actions) c where
  place := by
    have begins : Position.origin.advance (front ++ ['\n']) = Position.origin.shift (front ++ ['\n']) := by
      rw [Position.advance_line, Position.shift, List.length_append, List.count_append]
      rfl
    have place : c.toPlace = ⟨c.rest, c.position⟩ := rfl
    rw [place, rest, position, begins, ← List.append_nil (Newline.normalize t.toList)]
    rfl
  marks := marks
  problems := problems
  nonempty := nofun
  alike := by
    refine ⟨{}, Builder.holds_empty actions t, ?_⟩
    rwa [Draft.after, List.append_nil]
  tokenEnd := fun other => absurd rfl other
  current := nofun

/-- Behind a text that is read without a problem, a text on the next line is read from its beginning on. -/
theorem reaches_line {t₁ t₂ : String} {actions : List String} {d₁ d : Cursor} {limit count : Nat}
    (ran₁ : grammar (.start t₁ actions) = .ok ((), d₁)) (silent : d₁.problems = [])
    (read : (do spacing; productions limit) (.start (t₁ ++ "\n" ++ t₂) actions) = .ok (count, d)) :
    ∃ definitions c blanks left more, d₁.builder.Outlines definitions ∧
      (Setting.mk (Newline.normalize (t₁ ++ "\n").toList) [] definitions).Relates .outside (.start t₂ actions) c ∧
      (do let _ ← countWhile (skipBlank true) blanks; productions left) c = .ok (more, d) ∧ count ≠ 0 := by
  obtain ⟨limit₁, count₁, e₁, read₁, builder₁, reported₁⟩ := grammar_ran ran₁
  have some₁ : count₁ ≠ 0 := by
    intro none
    rw [if_pos none, silent] at reported₁
    obtain ⟨p, -, same⟩ := reported₁
    exact List.append_ne_nil_of_right_ne_nil _ (List.cons_ne_nil _ _) same.symm
  rw [if_neg some₁, silent] at reported₁
  have quiet : e₁.problems.length = (Cursor.start t₁ actions).problems.length := congrArg List.length reported₁.symm
  -- The productions of the first text.
  obtain ⟨sep, line, ends⟩ := Newline.normalize_line t₁.toList
  have begins : Newline.normalize (t₁ ++ "\n" ++ t₂).toList =
      Newline.normalize t₁.toList ++ (sep ++ Newline.normalize t₂.toList) := by
    rw [← List.append_assoc, ← line, ← Newline.normalize_append_line]
    simp
  obtain ⟨e, e', left, more, related, blanks, advances, same, stayed, rest, total⟩ :=
    passes_productions (relates_start begins) read₁ quiet read
  -- The blanks between the texts.
  obtain ⟨taken, ahead, position⟩ := advances.taken
  have ahead : Newline.normalize t₁.toList = taken ++ e.rest := ahead
  rw [ahead] at ends
  have behind : e'.rest = e.rest ++ sep ++ Newline.normalize t₂.toList := by rw [related.rest, List.append_assoc]
  obtain ⟨c, skips, next, advances', problems', builder', ran⟩ := passes_gap (behind ▸ blanks.line ends _) rest
  obtain ⟨taken', ahead', position'⟩ := advances'.taken
  -- The second text.
  obtain ⟨lines, whole⟩ := Newline.exists_line t₁.toList
  have passed : taken ++ taken' = lines ++ ['\n'] := by
    rw [behind, next] at ahead'
    rw [← whole, line, ahead, ← List.append_cancel_right ahead', List.append_assoc]
  have whole : Newline.normalize (t₁ ++ "\n").toList = lines ++ ['\n'] := by rwa [String.toList_append]
  obtain ⟨draft, holds, holds'⟩ := related.alike
  have idle : e.builder.current = none := by rw [stayed, ← builder₁, idle_of_ran ran₁]
  refine ⟨draft.definitions, c, skips, left, more, ?_, whole ▸ relates_line next ?_ ?_ ?_ ?_, ran, by omega⟩
  · rw [builder₁, ← stayed]
    exact holds.outlines idle
  · rw [position', related.position, position, ← passed, Position.advance_append]
    rfl
  · rw [advances'.marks, related.marks, advances.marks]
    rfl
  · rw [problems', related.problems, List.length_eq_zero_iff.mp same]
    rfl
  · rw [builder', ← holds.idle idle]
    exact holds'

/-- A text that is read silently goes on with the text on the next line. -/
theorem grammar_append {t₁ t₂ : String} {actions : List String} {d₁ d₂ d : Cursor}
    (ran₁ : grammar (.start t₁ actions) = .ok ((), d₁)) (silent : d₁.problems = [])
    (ran₂ : grammar (.start t₂ actions) = .ok ((), d₂))
    (ran : grammar (.start (t₁ ++ "\n" ++ t₂) actions) = .ok ((), d)) :
    d.problems = (d₂.problems.filter (·.kind ≠ .emptyGrammar)).map
        (·.shift (Newline.normalize (t₁ ++ "\n").toList)) ∧
      ∃ definitions₁ definitions₂, d₁.builder.Outlines definitions₁ ∧ d₂.builder.Outlines definitions₂ ∧
        d.builder.Outlines (definitions₁ ++ definitions₂) := by
  obtain ⟨limit₂, count₂, e₂, read₂, builder₂, reported₂⟩ := grammar_ran ran₂
  obtain ⟨limit, count, e, read, builder, reported⟩ := grammar_ran ran
  obtain ⟨definitions, c, _, _, _, outlines, related, rest, some⟩ := reaches_line ran₁ silent read
  rw [if_neg some] at reported
  obtain ⟨-, after⟩ := (agrees_last rfl _ _ _ _ _ _ read₂).2 (.inl rfl) c _ _ related rest
  have kept : d₂.problems.filter (·.kind ≠ .emptyGrammar) = e₂.problems := by
    have proper : e₂.problems.filter (·.kind ≠ .emptyGrammar) = e₂.problems :=
      List.filter_eq_self.mpr fun p member => decide_eq_true (after.nonempty p member)
    split at reported₂
    · obtain ⟨p, empty, same⟩ := reported₂
      rw [same, List.filter_append, proper, List.filter_cons_of_neg, List.filter_nil, List.append_nil]
      rw [empty]
      exact Bool.false_ne_true
    · rw [reported₂, proper]
  have idle : e₂.builder.current = none := by rw [← builder₂, idle_of_ran ran₂]
  obtain ⟨definitions₂, outlines₂, outlines'⟩ := after.alike.outlines idle
  refine ⟨by rw [reported, after.problems, kept], definitions, definitions₂, outlines, ?_, ?_⟩
  · rw [builder₂]
    exact outlines₂
  · rw [builder]
    exact outlines'

end Read

/-- Reading is local to productions: a text that is read without a problem keeps its productions whatever follows on the
next line. What follows is read as it is read alone, and its problems are those of the whole, moved over the text in
front, but that a grammar with productions is not empty. -/
theorem readText_append {t₁ : String} {actions : List String} {g₁ : Grammar} (read₁ : readText t₁ actions = .ok g₁)
    (clean : g₁.problems = []) (t₂ : String) : ∃ g₂ g, readText t₂ actions = .ok g₂ ∧
      readText (t₁ ++ "\n" ++ t₂) actions = .ok g ∧ g.text = g₁.text ++ g₂.text ∧ g.outline = g₁.outline ++ g₂.outline ∧
      g.problems = (g₂.problems.filter (·.kind ≠ .emptyGrammar)).map
        (·.shift (Newline.normalize (t₁ ++ "\n").toList)) := by
  have reads (t : String) : ∃ c definitions, Read.grammar (.start t actions) = .ok ((), c) ∧
      c.builder.Outlines definitions := by
    obtain ⟨_, c, ran, -, definitions, outlines, -⟩ :=
      Read.ends_grammar (c := .start t actions) (Builder.outlines_empty actions t)
    exact ⟨c, definitions, ran, outlines⟩
  obtain ⟨c₁, _, ran₁, outlines₁⟩ := reads t₁
  obtain ⟨c₂, _, ran₂, outlines₂⟩ := reads t₂
  obtain ⟨c, _, ran, outlines⟩ := reads (t₁ ++ "\n" ++ t₂)
  obtain rfl := Except.ok.inj ((readText_eq ran₁ outlines₁).symm.trans read₁)
  have silent : c₁.problems = [] := ((List.mergeSort_perm c₁.problems _).symm.trans (.of_eq clean)).eq_nil
  obtain ⟨problems, definitions₁, definitions₂, outlines₁, outlines₂, outlines⟩ :=
    Read.grammar_append ran₁ silent ran₂ ran
  have listed₁ := Grammar.listed_of_outlines outlines₁ (Problems.sort c₁.problems)
  have listed₂ := Grammar.listed_of_outlines outlines₂ (Problems.sort c₂.problems)
  have listed := Grammar.listed_of_outlines outlines (Problems.sort c.problems)
  refine ⟨_, _, readText_eq ran₂ outlines₂, readText_eq ran outlines, ?_, ?_, ?_⟩
  · rw [← String.toList_inj, String.toList_append, listed.2, listed₁.2, listed₂.2, List.flatMap_append]
  · rw [listed.1, listed₁.1, listed₂.1, List.map_append]
  · change Problems.sort c.problems = ((Problems.sort c₂.problems).filter _).map _
    rw [problems, Problems.sort_shift, Problems.filter_sort]

/-- A production with a comment up to the end of the text. -/
def Sample.tidy : String := "A : B ; // B"

/-- A production with a group that is not closed. -/
def Sample.untidy : String := "B : ('b' ;"

theorem Sample.tidy_continued : ∃ g₁ g, readText Sample.tidy [] = .ok g₁ ∧ g₁.problems = [] ∧
    readText (Sample.tidy ++ "\n" ++ Sample.untidy) [] = .ok g ∧ g.text = "A : B ;\nB : 'b' ;\n" ∧
    g.problems.map (fun p => (p.kind, p.span)) = [(.missingParenthesis, some ⟨⟨21, 2, 9⟩, ⟨21, 2, 9⟩⟩)] := by
  obtain ⟨g₁, read₁⟩ : ∃ g, readText Sample.tidy [] = .ok g := by
    obtain ⟨_, _, _, -, -, read⟩ := exists_readText Sample.tidy []
    exact ⟨_, read⟩
  have told₁ : (readText Sample.tidy []).toOption.map (fun g => (g.text, g.problems)) = some ("A : B ;\n", []) := by
    decide +kernel
  have told₂ : (readText Sample.untidy []).toOption.map (fun g => (g.text, g.problems)) = some ("B : 'b' ;\n",
      [⟨.missingParenthesis, none, some ⟨⟨8, 1, 9⟩, ⟨8, 1, 9⟩⟩, "missing `)`"⟩]) := by decide +kernel
  rw [read₁] at told₁
  obtain ⟨text₁, clean⟩ := Prod.mk.inj (Option.some.inj told₁)
  obtain ⟨g₂, g, read₂, read, text, -, problems⟩ := readText_append read₁ clean Sample.untidy
  rw [read₂] at told₂
  obtain ⟨text₂, problems₂⟩ := Prod.mk.inj (Option.some.inj told₂)
  refine ⟨g₁, g, read₁, clean, read, ?_, ?_⟩
  · rw [text, text₁, text₂]
    rfl
  · rw [problems, problems₂]
    decide +kernel

end Packrat
