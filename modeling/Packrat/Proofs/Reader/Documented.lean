import Packrat.Reader

/-! # The documented syntax of grammars

```
Grammar    ::= Production+
Production ::= Identifier (':' / '=' / '<-' / '::=') Expression ';'
Expression ::= Sequence (('/' / '|') Sequence)*
Sequence   ::= Unary+
Unary      ::= ('!' / '&')? Operand ('?' / '*' / '+' / '{' n (',' m?)? '}')?
Operand    ::= 'text' / "text" / 'a'-'z' / set / <Class> / . / @?Name / (Expression)
             / $name(Expression?)
set        ::= '[' (element (',' element)*)? ']'
element    ::= 'c' / 'a'-'z' / '~' element / set
```

The syntax is written down as relations between the text ahead of something and the text behind it, with one
constructor for each way the thing can be written. Blanks and comments are part of the token they follow. Nothing is
said about how the text is read: where a relation can be met in several ways, a reader has to find the right one.
-/

namespace Packrat.Documented

open Read (isBlank isNameStart isNamePart hexDigit?)

/-- A blank or a comment. A line comment may be ended by the text, a block comment ends where it first can. -/
inductive Blank : List Char → List Char → Prop
  | blank {c : Char} (white : isBlank c = true) (after : List Char) : Blank (c :: after) after
  | line {body : List Char} (inside : '\n' ∉ body) (after : List Char) :
      Blank ('/' :: '/' :: (body ++ '\n' :: after)) after
  | lastLine {body : List Char} (inside : '\n' ∉ body) : Blank ('/' :: '/' :: body) []
  | block {body : List Char} (inside : ¬ ['*', '/'] <:+: body ++ ['*']) (after : List Char) :
      Blank ('/' :: '*' :: (body ++ '*' :: '/' :: after)) after

/-- What may stand between two tokens. -/
inductive Spacing : List Char → List Char → Prop
  | none (s : List Char) : Spacing s s
  | more {before middle after : List Char} (first : Blank before middle) (rest : Spacing middle after) :
      Spacing before after

/-- A name, as long as it can be. -/
inductive Name : List Char → List Char → Prop
  | name {first : Char} {rest after : List Char} (start : isNameStart first = true)
      (parts : ∀ d ∈ rest, isNamePart d = true) (ends : ∀ d ∈ after.head?, isNamePart d = false) :
      Name (first :: (rest ++ after)) after

/-- The code point that four hexadecimal digits stand for. -/
def codePoint (digits : List Char) : Nat := digits.foldl (fun code c => 16 * code + (hexDigit? c).getD 0) 0

/-- A character of a string in these quotes, or an escape for one. -/
inductive Item (quote : Char) : List Char → List Char → Prop
  | plain {c : Char} (within : c ≠ quote) (online : c ≠ '\n') (unescaped : c ≠ '\\') (after : List Char) :
      Item quote (c :: after) after
  | letter {c : Char} (known : c ∈ ['n', 'r', 't', 'f', 'b', '\\', '\'', '"']) (after : List Char) :
      Item quote ('\\' :: c :: after) after
  | code {digits : List Char} (four : digits.length = 4) (hexadecimal : ∀ d ∈ digits, (hexDigit? d).isSome = true)
      (scalar : (codePoint digits).isValidChar) (after : List Char) :
      Item quote ('\\' :: 'u' :: (digits ++ after)) after

/-- Any number of characters of a string. -/
inductive Items (quote : Char) : List Char → List Char → Prop
  | none (s : List Char) : Items quote s s
  | more {before middle after : List Char} (first : Item quote before middle) (rest : Items quote middle after) :
      Items quote before after

/-- A string with its quotes. -/
inductive Quoted (quote : Char) : List Char → List Char → Prop
  | quoted {before after : List Char} (items : Items quote before (quote :: after)) :
      Quoted quote (quote :: before) after

/-- A single character in quotes, whose opening quote is one of `opens`. -/
inductive Single (opens : Char → Prop) : List Char → List Char → Prop
  | single {opening : Char} {before after : List Char} (opened : opens opening)
      (item : Item '\'' before ('\'' :: after)) : Single opens (opening :: before) after

/-- The single quote. -/
def Apostrophe (c : Char) : Prop := c = '\''

/-- No comment is next. -/
def Uncommented (s : List Char) : Prop := ¬ ∃ rest, s = '/' :: '/' :: rest ∨ s = '/' :: '*' :: rest

/-- What a syntax is open to. -/
structure Dialect where
  /-- May open the upper bound of an interval in a set. -/
  opens : Char → Prop
  /-- May stand right behind the sign `/` between alternatives. -/
  separates : List Char → Prop

/-- The syntax as it is written above, where a comment may stand behind every token. -/
def Dialect.plain : Dialect := ⟨Apostrophe, fun _ => True⟩

/-- No comment stands right behind the sign `/`, since two slashes begin a line comment. -/
def Dialect.strict : Dialect := ⟨Apostrophe, Uncommented⟩

/-- Any character may open the upper bound of an interval in a set. -/
def Dialect.lenient : Dialect := ⟨fun _ => True, Uncommented⟩

inductive SetPart where
  | set
  /-- The elements of a set, separated by commas. -/
  | elements
  | element
deriving DecidableEq

/-- Sets of characters, and what they are made of. -/
inductive InSet (d : Dialect) : SetPart → List Char → List Char → Prop
  | empty {before after : List Char} (blanks : Spacing before (']' :: after)) : InSet d .set ('[' :: before) after
  | listed {before middle after : List Char} (blanks : Spacing before middle)
      (elements : InSet d .elements middle (']' :: after)) : InSet d .set ('[' :: before) after
  | last {before after : List Char} (element : InSet d .element before after) : InSet d .elements before after
  | comma {before behind middle after : List Char} (element : InSet d .element before (',' :: behind))
      (blanks : Spacing behind middle) (rest : InSet d .elements middle after) : InSet d .elements before after
  | character {before middle after : List Char} (single : Single Apostrophe before middle)
      (blanks : Spacing middle after) : InSet d .element before after
  | interval {before lower behind middle upper after : List Char} (lo : Single Apostrophe before lower)
      (blanks : Spacing lower ('-' :: behind)) (blanks' : Spacing behind middle) (hi : Single d.opens middle upper)
      (blanks'' : Spacing upper after) : InSet d .element before after
  | complement {before middle after : List Char} (blanks : Spacing before middle)
      (element : InSet d .element middle after) : InSet d .element ('~' :: before) after
  | nested {before middle after : List Char} (set : InSet d .set before middle) (blanks : Spacing middle after) :
      InSet d .element before after

/-- `!` or `&`, or nothing. -/
inductive Sign : List Char → List Char → Prop
  | none (s : List Char) : Sign s s
  | lookahead {c : Char} (known : c = '!' ∨ c = '&') {before after : List Char} (blanks : Spacing before after) :
      Sign (c :: before) after

/-- The value of decimal digits. -/
def decimal (digits : List Char) : Nat := digits.foldl (fun value c => 10 * value + (c.toNat - 48)) 0

/-- A number that fits in 32 bits, and the blanks behind it. -/
inductive Number : Nat → List Char → List Char → Prop
  | number {digits before after : List Char} (some : digits ≠ []) (all : ∀ d ∈ digits, d.isDigit = true)
      (fits : decimal digits ≤ unbounded) (blanks : Spacing before after) :
      Number (decimal digits) (digits ++ before) after

/-- The numbers of a repetition: `n`, `n,` or `n,m`. -/
inductive Bounds : Nat → Nat → List Char → List Char → Prop
  | exactly {n : Nat} {before after : List Char} (count : Number n before after) : Bounds n n before after
  | atLeast {n : Nat} {before behind after : List Char} (least : Number n before (',' :: behind))
      (blanks : Spacing behind after) : Bounds n unbounded before after
  | between {n m : Nat} {before behind middle after : List Char} (least : Number n before (',' :: behind))
      (blanks : Spacing behind middle) (most : Number m middle after) : Bounds n m before after

/-- A quantifier, or nothing. -/
inductive Suffix : List Char → List Char → Prop
  | none (s : List Char) : Suffix s s
  | quantifier {c : Char} (known : c = '?' ∨ c = '*' ∨ c = '+') {before after : List Char}
      (blanks : Spacing before after) : Suffix (c :: before) after
  | bounds {min max : Nat} {before middle behind after : List Char} (blanks : Spacing before middle)
      (numbers : Bounds min max middle ('\x7d' :: behind)) (ordered : min ≤ max) (positive : 0 < max)
      (blanks' : Spacing behind after) : Suffix ('\x7b' :: before) after

inductive Category where
  | operand
  | unary
  /-- One unary or more. -/
  | sequence
  /-- What stands behind the first sequence of an expression. -/
  | alternatives
  | expression
deriving DecidableEq

/-- Expressions, and what they are made of. -/
inductive Part (d : Dialect) : Category → List Char → List Char → Prop
  | text {quote : Char} (known : quote = '\'' ∨ quote = '"') {before middle after : List Char}
      (quoted : Quoted quote before middle) (blanks : Spacing middle after) : Part d .operand before after
  | interval {before lower behind middle upper after : List Char} (lo : Single Apostrophe before lower)
      (blanks : Spacing lower ('-' :: behind)) (blanks' : Spacing behind middle) (hi : Single Apostrophe middle upper)
      (blanks'' : Spacing upper after) : Part d .operand before after
  | set {before middle after : List Char} (set : InSet d .set before middle) (blanks : Spacing middle after) :
      Part d .operand before after
  | charClass {before middle named behind after : List Char} (blanks : Spacing before middle)
      (name : Name middle named) (blanks' : Spacing named ('>' :: behind)) (blanks'' : Spacing behind after) :
      Part d .operand ('<' :: before) after
  | any {before after : List Char} (blanks : Spacing before after) : Part d .operand ('.' :: before) after
  | reference {before named after : List Char} (name : Name before named) (blanks : Spacing named after) :
      Part d .operand before after
  | remembered {before named after : List Char} (name : Name before named) (blanks : Spacing named after) :
      Part d .operand ('@' :: before) after
  | group {before middle behind after : List Char} (blanks : Spacing before middle)
      (body : Part d .expression middle (')' :: behind)) (blanks' : Spacing behind after) :
      Part d .operand ('(' :: before) after
  | action {before named opened middle behind after : List Char} (name : Name before named)
      (blanks : Spacing named ('(' :: opened)) (blanks' : Spacing opened middle)
      (body : Part d .expression middle (')' :: behind)) (blanks'' : Spacing behind after) :
      Part d .operand ('$' :: before) after
  | emptyAction {before named opened behind after : List Char} (name : Name before named)
      (blanks : Spacing named ('(' :: opened)) (blanks' : Spacing opened (')' :: behind))
      (blanks'' : Spacing behind after) : Part d .operand ('$' :: before) after
  | unary {before middle behind after : List Char} (sign : Sign before middle) (operand : Part d .operand middle behind)
      (suffix : Suffix behind after) : Part d .unary before after
  | lastUnary {before after : List Char} (unary : Part d .unary before after) : Part d .sequence before after
  | moreUnaries {before middle after : List Char} (unary : Part d .unary before middle)
      (rest : Part d .sequence middle after) : Part d .sequence before after
  | noAlternative (s : List Char) : Part d .alternatives s s
  | alternative {sign : Char} (known : sign = '/' ∨ sign = '|') {behind middle last after : List Char}
      (separated : sign = '/' → d.separates behind) (blanks : Spacing behind middle)
      (sequence : Part d .sequence middle last) (rest : Part d .alternatives last after) :
      Part d .alternatives (sign :: behind) after
  | expression {before middle after : List Char} (sequence : Part d .sequence before middle)
      (rest : Part d .alternatives middle after) : Part d .expression before after

/-- The sign between the name and the expression of a production. -/
def assignments : List (List Char) := ["::=".toList, ":".toList, "=".toList, "<-".toList]

/-- A production with its semicolon. -/
inductive Production (d : Dialect) : List Char → List Char → Prop
  | production {before named opened middle after : List Char} {sign : List Char} (name : Name before named)
      (known : sign ∈ assignments) (blanks : Spacing named (sign ++ opened)) (blanks' : Spacing opened middle)
      (body : Part d .expression middle (';' :: after)) : Production d before after

/-- One production or more, up to the end of the text. -/
inductive Productions (d : Dialect) : List Char → Prop
  | last {before after : List Char} (production : Production d before after) (blanks : Spacing after []) :
      Productions d before
  | more {before behind middle : List Char} (production : Production d before behind) (blanks : Spacing behind middle)
      (rest : Productions d middle) : Productions d before

/-- The text of a grammar, its line ends normalized. -/
inductive Text (d : Dialect) : List Char → Prop
  | text {before middle : List Char} (blanks : Spacing before middle) (productions : Productions d middle) :
      Text d before

end Packrat.Documented
