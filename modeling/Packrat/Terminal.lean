import Packrat.Terminal.CharClass
import Packrat.Text.Stream
import Packrat.Unicode.Case

/-! # Terminals

The leaves of a grammar. A terminal matches a fixed text or one character of a set at the current
position of a stream.
-/

namespace Packrat

inductive Terminal where
  /-- The empty text. -/
  | nil
  /-- Any character. -/
  | any
  /-- The text `image`, compared with or without regard to case. -/
  | token (image : String) (caseSensitive : Bool)
  | interval (bounds : Interval)
  | set (members : Charset)
  | charClass (named : CharClass)
deriving DecidableEq, Repr

namespace Terminal

/-- There is no character the terminal can match. -/
def isEmpty : Terminal → Bool
  | nil => true
  | token image _ => image.isEmpty
  | set s => s.isEmpty
  | _ => false

/-- The terminal matches single characters of a fixed set, so that a choice between two such
terminals is a set. -/
def isDetermined : Terminal → Bool
  | token image true => image.length == 1
  | interval _ | set _ => true
  | _ => false

/-- The text has the same upper and lower case. -/
def isCaseless (image : String) : Bool :=
  image.toList.flatMap Unicode.upper == image.toList.flatMap Unicode.lower

/-- A simpler terminal matches the same. -/
def isInefficient : Terminal → Bool
  | token image false => isCaseless image
  | interval i => i.lo == i.hi
  | set s => s.size == 1
  | _ => false

/-- The comparison of characters a token uses. -/
def sameChar (caseSensitive : Bool) (c d : Char) : Bool :=
  if caseSensitive then c == d else Unicode.foldCase c == Unicode.foldCase d

/-- Reads the next character if it has the property `p`. -/
def readIf (s : Stream) (p : Char → Bool) : Bool × Stream :=
  match s.peek with
  | (some c, s) => if p c then (true, s.read.2) else (false, s)
  | (none, s) => (false, s)

/-- Matches the terminal at the current position, which is unchanged if it fails. -/
def recognize (s : Stream) : Terminal → Bool × Stream
  | nil => (true, s)
  | any =>
    match s.read with
    | (c, s) => (c.isSome, s)
  | token image caseSensitive => s.accept (sameChar caseSensitive) image.toList
  | interval i => readIf s i.contains
  | set members => readIf s members.contains
  | charClass k => readIf s k.contains

/-- The terminal as grammar text. -/
def text : Terminal → String
  | nil => "''"
  | any => "."
  | token image true => "'" ++ Escape.text '\'' image ++ "'"
  | token image false => "\"" ++ Escape.text '"' image ++ "\""
  | interval i => i.text
  | set s => s.text
  | charClass k => "<" ++ k.name ++ ">"

end Terminal

end Packrat
