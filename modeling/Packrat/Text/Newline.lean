/-! # Line ends

Any of `\n`, `\r` and `\r\n` ends a line. `normalize` turns each of them into one `\n` for a text
held as a whole, `next` does the same one character at a time, and `lines` cuts a text at its line
ends without normalizing it first.
-/

namespace Packrat.Newline

/-- Every line end becomes one `\n`. -/
def normalize : List Char → List Char
  | [] => []
  | '\r' :: '\n' :: rest => '\n' :: normalize rest
  | c :: rest => (if c = '\r' then '\n' else c) :: normalize rest

/-- The next normalized character with what is left of the text. The flag tells, before and after,
whether the last character taken was a `\r`: a `\n` right behind it belongs to the same line end
and is passed over. -/
def next (afterReturn : Bool) : List Char → Option (Char × Bool × List Char)
  | [] => none
  | c :: rest =>
    if afterReturn && c == '\n' then
      match rest with
      | [] => none
      | d :: rest => some (if d = '\r' then '\n' else d, d == '\r', rest)
    else some (if c = '\r' then '\n' else c, c == '\r', rest)

/-- The pieces between the line ends, at least one. -/
def lines : List Char → List (List Char)
  | [] => [[]]
  | '\r' :: '\n' :: rest => [] :: lines rest
  | c :: rest =>
    if c = '\r' ∨ c = '\n' then [] :: lines rest
    else match lines rest with
      | [] => [[c]]
      | piece :: pieces => (c :: piece) :: pieces

end Packrat.Newline
