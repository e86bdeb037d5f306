/-!
# Places in a YAML text

A cursor stands before one character of a text and knows its line and column.  The classes of
characters that structure a text are here too.
-/

namespace NearCache.Document.Yaml

/-- Whether a character may stand in a text at all. -/
def isAllowed (c : Char) : Bool :=
  let n := c.toNat
  n = 0x09 || n = 0x0A || n = 0x0D || (0x20 ≤ n && n ≤ 0x7E) || n = 0x85 ||
    (0xA0 ≤ n && n ≤ 0xD7FF) || (0xE000 ≤ n && n ≤ 0xFFFD) || 0x10000 ≤ n

/-- Spaces and tabs. -/
def isBlank (c : Char) : Bool := c = ' ' || c = '\t'

/-- The characters that end a line. -/
def isBreak (c : Char) : Bool :=
  c = '\n' || c = '\r' || c = '\u0085' || c = '\u2028' || c = '\u2029'

/-- The characters of names: of anchors, of directives, and of the handles of tags. -/
def isNameChar (c : Char) : Bool := c.isAlphanum || c = '_' || c = '-'

/-- A place in a text. -/
structure Cursor where
  rest : List Char
  /-- How many bytes of UTF-8 there are in front of the place. -/
  index : Nat := 0
  line : Nat := 0
  /-- How many characters of the line there are in front of the place. -/
  column : Nat := 0
  deriving Repr

namespace Cursor

/-- The character at a distance, if the text goes so far. -/
def ahead? (c : Cursor) (n : Nat) : Option Char := c.rest[n]?

/-- The next character. -/
def next? (c : Cursor) : Option Char := c.rest.head?

/-- Whether the next character is a given one. -/
def sees (c : Cursor) (x : Char) : Bool := c.next? = some x

/-- Whether the character at a distance is of a class. -/
def isAhead (c : Cursor) (p : Char → Bool) (n : Nat) : Bool := (c.ahead? n).any p

/-- Whether the next character is of a class. -/
def isNext (c : Cursor) (p : Char → Bool) : Bool := c.next?.any p

/-- Whether there is a blank, the end of a line or the end of the text at a distance. -/
def endsAt (c : Cursor) (n : Nat) : Bool := (c.ahead? n).all fun x => isBlank x || isBreak x

/-- Whether the line ends here. -/
def atLineEnd (c : Cursor) : Bool := c.next?.all isBreak

/-- How many bytes the next characters have, as many as there are. -/
def width (c : Cursor) (n : Nat) : Nat := (c.rest.take n).foldr (fun x w => x.utf8Size + w) 0

/-- The place some characters on, in the same line. -/
def steps (c : Cursor) (n : Nat) : Cursor :=
  { c with rest := c.rest.drop n, index := c.index + c.width n, column := c.column + n }

/-- The place behind the next character, which ends no line. -/
def step (c : Cursor) : Cursor := c.steps 1

/-- The place at the beginning of the next line.  A carriage return and a line feed end one line. -/
def stepLine (c : Cursor) : Cursor :=
  let n := match c.rest with
    | '\r' :: '\n' :: _ => 2
    | _ => 1
  { rest := c.rest.drop n, index := c.index + c.width n, line := c.line + 1, column := 0 }

/-- The end of a line as it counts in a scalar: all but the two separators of Unicode are a line
feed. -/
def lineBreak (c : Cursor) : List Char :=
  match c.next? with
  | some '\u2028' => ['\u2028']
  | some '\u2029' => ['\u2029']
  | some x => if isBreak x then ['\n'] else []
  | none => []

/-- The characters of a class in front, and the place behind them. -/
def takeWhile (c : Cursor) (p : Char → Bool) : List Char × Cursor :=
  let taken := c.rest.takeWhile p
  (taken, c.steps taken.length)

/-- The place behind the blanks in front. -/
def skipBlanks (c : Cursor) : Cursor := (c.takeWhile isBlank).2

/-- The place at the end of the line, behind a comment if there is one. -/
def skipComment (c : Cursor) : Cursor :=
  if c.sees '#' then (c.takeWhile fun x => !isBreak x).2 else c

/-- The place behind the rest of a line that may hold blanks and a comment only. -/
def finishLine? (c : Cursor) : Option Cursor :=
  let c := c.skipBlanks.skipComment
  if !c.atLineEnd then none
  else if c.rest.isEmpty then some c
  else some c.stepLine

/-- The place behind a byte order mark, which a line may begin with; it takes up a column. -/
def skipOrderMark (c : Cursor) : Cursor :=
  if c.column = 0 && c.sees '\uFEFF' then c.step else c

/-- Whether a line begins here with a character three times, which marks where documents begin or
end. -/
def atMark (c : Cursor) (x : Char) : Bool :=
  c.column = 0 && c.rest.take 3 = [x, x, x] && c.endsAt 3

/-- Whether a document begins or ends here. -/
def atAnyMark (c : Cursor) : Bool := c.atMark '-' || c.atMark '.'

end Cursor

end NearCache.Document.Yaml
