import Packrat.Reader.Spacing

/-! # Strings and character sets

Quoted texts with their escapes, intervals of characters, and sets in brackets. A string ends on
its line; a set with a problem is read to the end of the set or of the line.
-/

namespace Packrat.Read

/-- The value of a hexadecimal digit. -/
def hexDigit? (c : Char) : Option Nat :=
  if '0' ≤ c ∧ c ≤ '9' then some (c.toNat - 48)
  else if 'a' ≤ c ∧ c ≤ 'f' then some (c.toNat - 87)
  else if 'A' ≤ c ∧ c ≤ 'F' then some (c.toNat - 55)
  else none

/-- The digits that escapes are written with are read back. -/
theorem hexDigit?_upperDigit : ∀ n < 16, hexDigit? (Escape.upperDigit n) = some n := by
  decide

/-- The character of a code point, which a surrogate does not have. -/
def charOfCode? (code : Nat) : Option Char :=
  if code.isValidChar then some (Char.ofNat code) else none

/-- Reads the digits of an escape by code point that began at `start`. -/
def unicodeEscape (start : Position) (reporting : Bool) : Read (Option Char) := do
  let digits := ((← get).rest.take 4).takeWhile fun c => (hexDigit? c).isSome
  skip digits.length
  let code := digits.foldl (fun code c => 16 * code + (hexDigit? c).getD 0) 0
  let decoded := if digits.length = 4 then charOfCode? code else none
  if decoded.isNone && reporting then
    report .invalidCodePoint start (← here) "invalid unicode character"
  return decoded

/-- The character of an escape by letter. -/
def letterEscape? : Char → Option Char
  | 'n' => some '\n'
  | 'r' => some '\r'
  | 't' => some '\t'
  | 'f' => some '\x0c'
  | 'b' => some '\x08'
  | '\\' => some '\\'
  | '\'' => some '\''
  | '"' => some '"'
  | _ => none

/-- Reads an escape from its backslash on. -/
def escape (reporting : Bool) : Read (Option Char) := do
  let start ← here
  skip 1
  match ← peek with
  | some 'u' =>
    skip 1
    unicodeEscape start reporting
  | next =>
    match next >>= letterEscape? with
    | some c =>
      skip 1
      return some c
    | none =>
      if next != some '\n' then skip 1
      if reporting then report .invalidEscape start (← here) "invalid escape sequence"
      return none

/-- Reads a text up to `quote`, from the opening quote on, and decodes it. -/
def quotedText (quote : Char) : Read (List Char) := do
  let start ← here
  skip 1
  go start (← steps)
where
  go (start : Position) : Nat → Read (List Char)
    | 0 => throw .endless
    | limit + 1 => do
      match ← peek with
      | none =>
        report .unterminatedString start (← here) "unterminated string"
        return []
      | some c =>
        if c = '\n' then
          report .unterminatedString start (← here) "unterminated string"
          return []
        else if c = quote then
          skip 1
          return []
        else if c = '\\' then
          let decoded ← escape true
          return decoded.toList ++ (← go start limit)
        else
          skip 1
          return c :: (← go start limit)

/-- Reads a single character and the quote behind it. Nothing is reported. -/
def charInQuotes : Read (Option Char) := do
  match ← peek with
  | none => return none
  | some c =>
    if c = '\'' ∨ c = '\n' then return none
    let decoded ← if c = '\\' then escape false else do skip 1; pure (some c)
    match decoded with
    | none => return none
    | some c => if ← eat "'" then return some c else return none

/-- Reads a single character in quotes. Nothing is reported. -/
def quietChar : Read (Option Char) := do
  if ← eat "'" then charInQuotes else return none

/-- Reads `'a' - 'z'`. Nothing is reported. -/
def quietInterval : Read (Option (Char × Char)) := attempt Option.isSome do
  let first ← quietChar
  skipSpacing false
  match first with
  | none => return none
  | some lo =>
    if !(← eat "-") then return none
    skipSpacing false
    return (← quietChar).map fun hi => (lo, hi)

/-- Reads one character of a set. -/
def setChar : Read (Option Char) := do
  let start ← here
  let text ← quotedText '\''
  let stop ← here
  spacing
  match text with
  | [c] => return some c
  | _ =>
    report .syntaxError start stop "a set element is a single character"
    return none

/-- Goes behind the end of a set with a problem, not over the end of the line or production. -/
def skipSet : Read Unit := do
  let _ ← takeWhile fun c => c != ']' && c != ';' && c != '\n'
  let _ ← eat "]"

/-- Reads `'c'` or `'a'-'z'` in a set. -/
def setInterval : Read (Option Charset) := do
  match ← setChar with
  | none => return none
  | some lo =>
    if ← eat "-" then
      spacing
      return (← setChar).map fun hi => Charset.ofIntervals [.between lo hi]
    else return some (Charset.ofIntervals [.between lo lo])

/-- Reads the elements of a set and its end. Without an element, the set ends with what was read
before. -/
def setElements (element : Read (Option Charset)) : (limit : Nat) → Charset → Read Charset
  | 0, _ => throw .endless
  | limit + 1, set => do
    match ← element with
    | none =>
      skipSet
      return set
    | some more =>
      let set := set.union more
      if ← eat "," then
        spacing
        setElements element limit set
      else
        if !(← eat "]") then
          let place ← here
          report .syntaxError place place "expecting `,` or `]` in the set"
          skipSet
        return set

/-- Reads a set from its opening bracket on, with `element` for its elements. -/
def bracketSet (element : Read (Option Charset)) : Read Charset := do
  skip 1
  spacing
  if ← eat "]" then return .empty
  setElements element (← steps) .empty

/-- Reads an element of a set: a character, an interval, `~element` or a nested set, at most `depth`
levels deep. -/
def setElement : (depth : Nat) → Read (Option Charset)
  | 0 => throw .endless
  | depth + 1 => do
    match ← peek with
    | some '~' =>
      skip 1
      spacing
      return (← setElement depth).map Charset.inverse
    | some '[' =>
      let set ← bracketSet (setElement depth)
      spacing
      return some set
    | some '\'' => setInterval
    | _ =>
      let place ← here
      report .syntaxError place place "expecting a set element"
      return none

/-- Reads a set from its opening bracket on. -/
def charset : Read Charset := do
  bracketSet (setElement (← steps))

/-- Reads a decimal number below 2^32 and the blanks behind it. The digits of a number that is too
large are read too. -/
def integer : Read (Option Nat) := do
  let digits ← takeWhile Char.isDigit
  if digits.isEmpty then return none
  spacing
  let value := digits.foldl (fun value c => 10 * value + (c.toNat - 48)) 0
  return if value ≤ unbounded then some value else none

end Packrat.Read
