import NearCache.Number.Power
import NearCache.Text.Blank
import NearCache.Time.Calendar
/-!
# Points in time as text

A timestamp counts seconds from the beginning of 1970 and billionths of a second beside them.  It
is read from RFC 3339 text with any offset and written in UTC.  Reading is generous about blanks
between the parts; writing gives as many groups of three digits of the fraction as are needed.

A leap second is the second before it with a second more of billionths.
-/

namespace NearCache.Time

/-- A point in time. -/
structure Timestamp where
  seconds : Int
  nanos : Nat
  deriving DecidableEq, Repr, Inhabited

/-- Why a text is no timestamp. -/
inductive Problem where
  | outOfRange
  | impossible
  | tooShort
  | tooLong
  | invalid
  deriving DecidableEq, Repr

/-- The wording of a problem. -/
def Problem.text : Problem → String
  | outOfRange => "input is out of range"
  | impossible => "no possible date and time matching input"
  | tooShort => "premature end of input"
  | tooLong => "trailing input"
  | invalid => "input contains invalid characters"

/-- What remains to be read. -/
abbrev Rest := List Char

/-- The text without the blanks at its beginning. -/
def skipBlanks (s : Rest) : Rest := s.dropWhile Text.isBlank

/-- The number that decimal digits write. -/
def digitsValue (ds : List Char) : Nat :=
  ds.foldl (fun n c => 10 * n + (c.toNat - '0'.toNat)) 0

/-- A number of at least one digit and at most `most` digits. -/
def number (most : Nat) (s : Rest) : Except Problem (Nat × Rest) :=
  let digits := (s.take most).takeWhile Char.isDigit
  if s.isEmpty then .error .tooShort
  else if digits.isEmpty then .error .invalid
  else .ok (digitsValue digits, s.drop digits.length)

/-- A number behind blanks, within bounds. -/
def field (low high : Nat) (s : Rest) : Except Problem (Nat × Rest) := do
  let (n, s) ← number 2 (skipBlanks s)
  if low ≤ n ∧ n ≤ high then return (n, s) else throw .outOfRange

/-- A year: four digits at most, or a sign and any number of digits. -/
def year (s : Rest) : Except Problem (Int × Rest) := do
  let s := skipBlanks s
  let (n, s) : Int × Rest ← match s with
    | '-' :: s => (fun (n, s) => (-(n : Int), s)) <$> number s.length s
    | '+' :: s => (fun (n, s) => ((n : Int), s)) <$> number s.length s
    | s => (fun (n, s) => ((n : Int), s)) <$> number 4 s
  if -(twoTo 31 : Int) ≤ n ∧ n < twoTo 31 then return (n, s) else throw .outOfRange

/-- One given character. -/
def literal (c : Char) : Rest → Except Problem Rest
  | [] => .error .tooShort
  | d :: s => if d = c then .ok s else .error .invalid

/-- A given character behind blanks. -/
def separator (c : Char) (s : Rest) : Except Problem Rest := literal c (skipBlanks s)

/-- The fraction of a second in billionths, if there is one.  Digits after the ninth are dropped. -/
def fraction (s : Rest) : Except Problem (Nat × Rest) :=
  match s with
  | '.' :: s => do
    let (n, rest) ← number 9 s
    let places := s.length - rest.length
    return (n * tenTo (9 - places), rest.dropWhile Char.isDigit)
  | s => .ok (0, s)

/-- How many bytes a text has. -/
def byteLength (s : Rest) : Nat := s.foldr (fun c n => c.utf8Size + n) 0

/-- Two digits. -/
def twoDigits : Rest → Except Problem (Nat × Rest)
  | a :: b :: s =>
    if a.isDigit && b.isDigit then .ok (digitsValue [a, b], s) else .error .invalid
  | s => .error (if byteLength s < 2 then .tooShort else .invalid)

/-- The offset from UTC in seconds. -/
def offset (s : Rest) : Except Problem (Int × Rest) :=
  match s with
  | 'Z' :: s | 'z' :: s => .ok (0, s)
  | a :: b :: c :: s' =>
    if [a, b, c].map Char.toLower = ['u', 't', 'c'] then .ok (0, s') else signed s
  | s => signed s
where
  /-- An offset with a sign, hours and minutes. -/
  signed : Rest → Except Problem (Int × Rest)
    | '+' :: s => amount s
    | '-' :: s | '−' :: s => (fun (n, s) => (-n, s)) <$> amount s
    | _ :: _ => .error .invalid
    | [] => .error .tooShort
  /-- Hours and minutes, with colons or blanks between them. -/
  amount (s : Rest) : Except Problem (Int × Rest) := do
    let (hours, s) ← twoDigits s
    let s := s.dropWhile fun c => c = ':' || Text.isBlank c
    let (minutes, s) ← twoDigits s
    if minutes < 60 then return (hours * 3600 + minutes * 60, s) else throw .outOfRange

/-- The years that timestamps reach. -/
def inReach (d : Date) : Bool := -262143 ≤ d.year && d.year ≤ 262142

namespace Timestamp

/-- Reads a timestamp. -/
def ofChars (s : Rest) : Except Problem Timestamp := do
  let (y, s) ← year s
  let s ← separator '-' s
  let (month, s) ← field 1 12 s
  let s ← separator '-' s
  let (day, s) ← field 1 31 s
  let s ← match s with
    | 'T' :: s | 't' :: s | ' ' :: s => .ok s
    | _ :: _ => .error .invalid
    | [] => .error .tooShort
  let (hour, s) ← field 0 23 s
  let s ← separator ':' s
  let (minute, s) ← field 0 59 s
  let s ← separator ':' s
  let (second, s) ← field 0 60 s
  let (nanos, s) ← fraction s
  let (off, s) ← offset (skipBlanks s)
  if !(skipBlanks s).isEmpty then throw .tooLong
  let date : Date := ⟨y, month, day⟩
  if !(date.isValid && inReach date) then throw .outOfRange
  if !(-86400 < off && off < 86400) then throw .outOfRange
  let leap := second = 60
  let clock : Int := hour * 3600 + minute * 60 + (if leap then 59 else second)
  let seconds := dayNumber date * 86400 + clock - off
  if !inReach (dateOf (seconds / 86400)) then throw .impossible
  return ⟨seconds, if leap then nanos + 1000000000 else nanos⟩

/-- Reads a timestamp from a text. -/
def ofText (s : String) : Except Problem Timestamp := ofChars s.toList

/-- A number with zeros in front, up to a width. -/
def padded (width n : Nat) : String :=
  let ds := Nat.toDigits 10 n
  String.ofList (List.replicate (width - ds.length) '0' ++ ds)

/-- A year as written: four digits, and a sign in front of one that has more or is negative. -/
def yearText (y : Int) : String :=
  if 0 ≤ y ∧ y ≤ 9999 then padded 4 y.toNat
  else (if y < 0 then "-" else "+") ++ padded 4 y.natAbs

/-- The fraction of a second as written: nothing, three, six or nine digits. -/
def fractionText (nanos : Nat) : String :=
  if nanos = 0 then ""
  else if nanos % 1000000 = 0 then "." ++ padded 3 (nanos / 1000000)
  else if nanos % 1000 = 0 then "." ++ padded 6 (nanos / 1000)
  else "." ++ padded 9 nanos

/-- Writes a timestamp in UTC. -/
def text (t : Timestamp) : String :=
  let d := dateOf (t.seconds / 86400)
  let clock := (t.seconds % 86400).toNat
  let second := clock % 60 + t.nanos / 1000000000
  yearText d.year ++ "-" ++ padded 2 d.month ++ "-" ++ padded 2 d.day ++ "T" ++
    padded 2 (clock / 3600) ++ ":" ++ padded 2 (clock / 60 % 60) ++ ":" ++ padded 2 second ++
    fractionText (t.nanos % 1000000000) ++ "Z"

end Timestamp

end NearCache.Time
