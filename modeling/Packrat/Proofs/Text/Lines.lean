import Packrat.Proofs.Text.TextCursor

/-! # Lines and positions

The lines of a text are the pieces of the normalized text between its newline characters, although `lines` never
normalizes a text. A position tells how many pieces lie before it, and how much of its own piece. The positions that a
stream gets to on a text are those of the normalized text, whatever is asked of it on the way.
-/

namespace Packrat

namespace Newline

theorem splitOn_cons (c : Char) (text : List Char) : (c :: text).splitOn '\n' =
    if c = '\n' then [] :: text.splitOn '\n' else (text.splitOn '\n').modifyHead (c :: ·) := by
  simp [List.splitOn, List.splitOnP_cons_eq_if_modifyHead]

/-- Cutting a text at its line ends gives the pieces of the normalized text. -/
theorem lines_eq_splitOn (text : List Char) : lines text = (normalize text).splitOn '\n' := by
  fun_induction lines text with
  | case1 => rfl
  | case2 rest ih => rw [normalize, splitOn_cons, if_pos rfl, ih]
  | case3 c rest apart ends ih =>
    rw [normalize, splitOn_cons, ih]
    · grind
    · exact apart
  | case4 c rest apart inside nothing ih => exact absurd (ih.symm.trans nothing) (List.splitOn_ne_nil '\n' _)
  | case5 c rest apart inside piece pieces cut ih =>
    obtain ⟨ret, newline⟩ := not_or.mp inside
    rw [normalize_cons ret, splitOn_cons, if_neg newline, ← ih, cut, List.modifyHead_cons]

/-- The text ends in the piece `last`, and the pieces `before` lie in front of it. -/
inductive Cut : List Char → List (List Char) → List Char → Prop
  | nil : Cut [] [] []
  | newline {text last : List Char} {before : List (List Char)} (rest : Cut text before last) :
    Cut ('\n' :: text) ([] :: before) last
  | last {c : Char} {text last : List Char} (inside : c ≠ '\n') (rest : Cut text [] last) :
    Cut (c :: text) [] (c :: last)
  | piece {c : Char} {text piece last : List Char} {before : List (List Char)} (inside : c ≠ '\n')
    (rest : Cut text (piece :: before) last) : Cut (c :: text) ((c :: piece) :: before) last

theorem exists_cut (text : List Char) : ∃ before last, Cut text before last := by
  induction text with
  | nil => exact ⟨_, _, .nil⟩
  | cons c text ih =>
    obtain ⟨before, last, rest⟩ := ih
    by_cases newline : c = '\n'
    · subst newline
      exact ⟨_, _, .newline rest⟩
    · cases before with
      | nil => exact ⟨_, _, .last newline rest⟩
      | cons piece before => exact ⟨_, _, .piece newline rest⟩

namespace Cut

variable {text last : List Char} {before : List (List Char)} (cut : Cut text before last)

include cut

/-- With another text behind it, the last piece goes on with the first one of that text. -/
theorem splitOn_append (more : List Char) :
    (text ++ more).splitOn '\n' = before ++ (more.splitOn '\n').modifyHead (last ++ ·) := by
  induction cut with
  | nil => cases pieces : more.splitOn '\n' <;> simp [pieces]
  | newline _ ih => rw [List.cons_append, splitOn_cons, if_pos rfl, ih, List.cons_append]
  | last inside _ ih =>
    rw [List.cons_append, splitOn_cons, if_neg inside, ih]
    simp [Function.comp_def]
  | piece inside _ ih => rw [List.cons_append, splitOn_cons, if_neg inside, ih, List.cons_append, List.modifyHead_cons,
      List.cons_append]

theorem splitOn_eq : text.splitOn '\n' = before ++ [last] := by
  simpa using cut.splitOn_append []

/-- A position counts the pieces before it as lines, and the characters of the last one as columns. -/
theorem advance (p : Position) : p.advance text = ⟨p.offset + text.length, p.line + before.length,
    if before = [] then p.column + last.length else last.length + 1⟩ := by
  induction cut generalizing p with
  | nil => rfl
  | newline _ ih =>
    rw [Position.advance_cons, ih, Position.next, if_pos rfl]
    simp
    grind
  | last inside _ ih =>
    rw [Position.advance_cons, ih, Position.next, if_neg inside]
    simp
    omega
  | piece inside _ ih =>
    rw [Position.advance_cons, ih, Position.next, if_neg inside]
    simp
    omega

end Cut

end Newline

theorem Position.offset_le_of_le {p q : Position} (ordered : p ≤ q) : p.offset ≤ q.offset := by
  obtain before | same := ordered
  · exact Nat.le_of_lt before
  · exact Nat.le_of_eq same.1

namespace Stream

/-- Operations of a stream on the text lead to the position. -/
def Reaches (text : String) (p : Position) : Prop :=
  ∃ operations answers s, Operation.runAll perform operations (ofString text) = .ok (answers, s) ∧ s.position = p

/-- The positions a stream gets to are those of the normalized text. -/
theorem reaches_iff {text : String} {p : Position} : Reaches text p ↔
    ∃ n ≤ (Newline.normalize text.toList).length, p = .after (Newline.normalize text.toList) n := by
  constructor
  · rintro ⟨operations, answers, s, ran, rfl⟩
    rcases Operation.runAll_alike TextCursor.Follows.perform (TextCursor.follows_ofSource (.ofString text)) operations with
      ⟨answers', cursor, s', left, right, follows⟩ | ⟨error, -, right⟩
    · cases ran.symm.trans right
      have same : cursor.text = Newline.normalize text.toList := TextCursor.text_runAll left
      rw [← same]
      have within := follows.reads.position.offset_le
      exact ⟨cursor.offset, follows.offset ▸ within, follows.position_eq⟩
    · cases ran.symm.trans right
  · rintro ⟨n, within, rfl⟩
    have start : (ofString text).position.offset + n = n := Nat.zero_add n
    have moved : Moved (Newline.normalize text.toList) (ofString text) ((ofString text).skip n).2 _ :=
      (over_ofSource (.ofString text)).skip (Nat.le_trans (Nat.le_of_eq start) within)
    refine ⟨[.skip n], _, ((ofString text).skip n).2, rfl, ?_⟩
    rw [moved.reads.position.eq_after, moved.offset]
    exact congrArg _ start

end Stream

end Packrat
