import Packrat.Grammar.Snippet
import Packrat.Proofs.Text.Lines

/-! # Excerpts from the source

Messages show lines and pieces of the text a grammar was read from. They are cut from the text as it was given, by lines
and columns, and yet they are what the positions of the reader say: a snippet is the normalized text between the
offsets of its ends, and the lines are the pieces of the normalized text.
-/

namespace Packrat

namespace Grammar

open Newline (Cut)

variable {g : Grammar} {span : Span}

theorem sourceLine?_succ {text : String} (held : g.source = some text) (n : Nat) :
    g.sourceLine? (n + 1) = ((Newline.normalize text.toList).splitOn '\n')[n]? := by
  simp only [sourceLine?, held, Newline.lines_eq_splitOn]

/-- Lines that follow each other, with their numbers. -/
theorem sourceLines?_eq {before lines behind : List (List Char)}
    (held : ∀ n, g.sourceLine? (n + 1) = (before ++ (lines ++ behind))[n]?) :
    g.sourceLines? (before.length + 1) lines.length =
      some ((lines.zipIdx (before.length + 1)).map fun line => (line.2, line.1)) := by
  induction lines generalizing before with
  | nil => rfl
  | cons line lines ih =>
    have first : g.sourceLine? (before.length + 1) = some line := by
      rw [held, List.getElem?_append_right (Nat.le_refl _)]
      simp
    have rest := @ih (before ++ [line]) (by simpa using held)
    rw [List.length_append, List.length_singleton] at rest
    simp [sourceLines?, first, rest]

section

variable {line offset offset' : Nat} {left piece right : List Char}

/-- A line between those of the ends is taken as a whole. -/
theorem clip_inner (below : span.start.line < line) (above : line < span.stop.line) : clip span line piece = piece := by
  rw [clip, if_neg (by omega), if_neg (by omega)]
  simp

theorem clip_first (here : span.start = ⟨offset, line, left.length + 1⟩) (above : line < span.stop.line) :
    clip span line (left ++ piece) = piece := by
  rw [clip, if_neg (Nat.ne_of_lt above), here, if_pos rfl, List.take_length]
  simp

theorem clip_last (here : span.stop = ⟨offset, line, piece.length + 1⟩) (below : span.start.line < line) :
    clip span line (piece ++ right) = piece := by
  simp [clip, here, Nat.ne_of_gt below]

theorem clip_only (first : span.start = ⟨offset, line, left.length + 1⟩)
    (last : span.stop = ⟨offset', line, left.length + 1 + piece.length⟩) :
    clip span line (left ++ (piece ++ right)) = piece := by
  have stop : left.length + 1 + piece.length - 1 = left.length + piece.length := by omega
  simp [clip, first, last, stop, List.take_append]

end

/-- What is clipped from the lines of a part of the text are the lines of that part. -/
theorem clip_lines (span : Span) {before middle : List (List Char)} {left last right : List Char}
    {offset offset' : Nat} (first : span.start = ⟨offset, before.length + 1, left.length + 1⟩)
    (stop : span.stop = ⟨offset', before.length + 1 + middle.length,
      if middle = [] then left.length + 1 + last.length else last.length + 1⟩) :
    (((middle ++ [last ++ right]).modifyHead (left ++ ·)).zipIdx (before.length + 1)).map
      (fun line => clip span line.2 line.1) = middle ++ [last] := by
  cases middle with
  | nil => simp [clip_only first stop]
  | cons piece middle =>
    have below : span.start.line = before.length + 1 := by rw [first]
    have above : span.stop.line = before.length + 1 + (middle.length + 1) := by rw [stop, List.length_cons]
    have inner : (middle.zipIdx (before.length + 1 + 1)).map (fun line => clip span line.2 line.1) = middle := by
      have whole : ∀ line ∈ middle.zipIdx (before.length + 1 + 1), clip span line.2 line.1 = line.1 := by
        intro line member
        have number := List.mem_zipIdx member
        apply clip_inner <;> omega
      rw [List.map_congr_left whole, List.zipIdx_map_fst]
    have here : span.stop = ⟨offset', before.length + 1 + 1 + middle.length, last.length + 1⟩ := by
      rw [stop, if_neg (List.cons_ne_nil _ _), List.length_cons]
      congr 1
      omega
    have ends : clip span (before.length + 1 + 1 + middle.length) (last ++ right) = last :=
      clip_last here (by omega)
    simp [List.zipIdx_append, clip_first first (by omega), inner, ends]

/-- The snippet between two places of the source is the normalized text between them. -/
theorem snippet?_between {text : String} (held : g.source = some text) {start stop : Nat} (ordered : start ≤ stop)
    (within : stop ≤ (Newline.normalize text.toList).length) :
    g.snippet? ⟨.after (Newline.normalize text.toList) start, .after (Newline.normalize text.toList) stop⟩ =
      some (String.ofList (((Newline.normalize text.toList).take stop).drop start)) := by
  have lines (n : Nat) := g.sourceLine?_succ held n
  generalize Newline.normalize text.toList = whole at within lines ⊢
  -- The text in front of the snippet, the snippet and the text behind it, with their lines.
  obtain ⟨before, left, front⟩ := Newline.exists_cut (whole.take start)
  obtain ⟨middle, last, part⟩ := Newline.exists_cut ((whole.take stop).drop start)
  obtain ⟨right, behind, others⟩ := List.exists_cons_of_ne_nil (List.splitOn_ne_nil '\n' (whole.drop stop))
  have upTo : whole.take start ++ (whole.take stop).drop start = whole.take stop := by
    have joined := List.take_append_drop start (whole.take stop)
    rwa [List.take_take, Nat.min_eq_left ordered] at joined
  have pieces : whole.splitOn '\n' =
      before ++ ((middle ++ [last ++ right]).modifyHead (left ++ ·) ++ behind) := by
    rw [← List.take_append_drop stop whole, ← upTo, List.append_assoc, front.splitOn_append, part.splitOn_append, others]
    cases middle <;> simp
  have first : Position.after whole start = ⟨start, before.length + 1, left.length + 1⟩ := by
    rw [Position.after, front.advance, List.length_take, Nat.min_eq_left (Nat.le_trans ordered within)]
    simp [Position.origin, Nat.add_comm]
  have second : Position.after whole stop = ⟨stop, before.length + 1 + middle.length,
      if middle = [] then left.length + 1 + last.length else last.length + 1⟩ := by
    rw [Position.after, ← upTo, Position.advance_append, ← Position.after, first, part.advance]
    simp
    omega
  generalize Position.after whole start = p at first
  generalize Position.after whole stop = q at second
  have taken : g.sourceLines? p.line (q.line + 1 - p.line) = some
      ((((middle ++ [last ++ right]).modifyHead (left ++ ·)).zipIdx (before.length + 1)).map
        fun line => (line.2, line.1)) := by
    rw [← sourceLines?_eq fun n => (lines n).trans (congrArg (·[n]?) pieces), first, second]
    congr 1
    simp
    omega
  have cut : (whole.take stop).drop start = ['\n'].intercalate (middle ++ [last]) := by
    rw [← part.splitOn_eq, List.intercalate_splitOn]
  have strings : (((((middle ++ [last ++ right]).modifyHead (left ++ ·)).zipIdx (before.length + 1)).map
      fun line => (line.2, line.1)).map fun line => String.ofList (clip ⟨p, q⟩ line.1 line.2)) =
      (middle ++ [last]).map String.ofList := by
    rw [← clip_lines ⟨p, q⟩ first second, List.map_map, List.map_map]
    rfl
  simp only [snippet?, taken, bind, Option.bind, strings, pure]
  rw [cut]
  congr 1
  apply String.toList_injective
  rw [String.toList_intercalate, List.map_map, String.toList_ofList]
  simp [Function.comp_def]

/-- Whatever the line ends of the source are, a snippet is the normalized text between the positions of a stream, and
the lines are the pieces of the normalized text. -/
theorem excerpts_agree {text : String} (held : g.source = some text) :
    (∀ p q, Stream.Reaches text p → Stream.Reaches text q → p ≤ q → g.snippet? ⟨p, q⟩ =
      some (String.ofList (((Newline.normalize text.toList).take q.offset).drop p.offset))) ∧
    ∀ n, g.sourceLine? n =
      if 1 ≤ n ∧ n ≤ ((Newline.normalize text.toList).splitOn '\n').length then
        ((Newline.normalize text.toList).splitOn '\n')[n - 1]? else none := by
  constructor
  · intro p q reached reached' ordered
    obtain ⟨start, below, rfl⟩ := Stream.reaches_iff.mp reached
    obtain ⟨stop, within, rfl⟩ := Stream.reaches_iff.mp reached'
    have offsets : start ≤ stop := by
      have apart := Position.offset_le_of_le ordered
      rwa [Position.offset_after_of_le below, Position.offset_after_of_le within] at apart
    rw [snippet?_between held offsets within, Position.offset_after_of_le below, Position.offset_after_of_le within]
  · intro n
    cases n with
    | zero => simp [sourceLine?, held]
    | succ n =>
      rw [g.sourceLine?_succ held]
      grind

end Grammar

namespace Sample

/-- A piece over three lines, with a character of two bytes and two kinds of line ends. -/
theorem excerpt_over_line_ends :
    Grammar.snippet? { Grammar.empty with source := some "é\r\nb\r" } ⟨⟨0, 1, 1⟩, ⟨4, 3, 1⟩⟩ = some "é\nb\n" := by
  have reached : Stream.Reaches "é\r\nb\r" ⟨4, 3, 1⟩ := Stream.reaches_iff.mpr ⟨4, by decide, by decide⟩
  have origin : Stream.Reaches "é\r\nb\r" ⟨0, 1, 1⟩ := Stream.reaches_iff.mpr ⟨0, by decide, by decide⟩
  rw [(Grammar.excerpts_agree rfl).1 _ _ origin reached (by decide)]
  decide

end Sample

end Packrat
