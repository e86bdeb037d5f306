import NearCache.Document.Json.Text
/-!
# Numbers in JSON

A number is an integer if it is written like one and fits in 64 bits, with a sign or without.
Every other number is a fraction: its leading digits, as many as fit in 64 bits, are rounded to
floating point and then multiplied or divided by a rounded power of ten.  A number too large for
that has no value.
-/

namespace NearCache.Document.Json

/-- The largest unsigned integer of 64 bits. -/
def largestWhole : Nat := twoTo 64 - 1

/-- The value of a decimal digit. -/
def digitValue (c : Char) : Nat := c.toNat - '0'.toNat

/-- The leading digits of a number, and the power of ten that they are multiplied by. -/
structure Leading where
  digits : Nat
  power : Int
  deriving DecidableEq, Repr

namespace Leading

/-- Whether another digit fits. -/
def fits (l : Leading) (c : Char) : Bool := l.digits * 10 + digitValue c ≤ largestWhole

/-- The same digits and one more. -/
def push (l : Leading) (c : Char) : Leading := { l with digits := l.digits * 10 + digitValue c }

/-- Takes in digits left of the point.  From the first that does not fit, each counts as a zero. -/
def whole (l : Leading) : List Char → Leading
  | [] => l
  | c :: cs =>
    if l.fits c then (l.push c).whole cs else { l with power := l.power + (c :: cs).length }

/-- Takes in digits right of the point, up to the first that does not fit. -/
def fraction (l : Leading) : List Char → Leading
  | [] => l
  | c :: cs =>
    if l.fits c then { l.push c with power := l.power - 1 }.fraction cs else l

/-- Divides by `10 ^ 308` and counts the power up until it can be reached in one step.  After four
divisions every number has become zero. -/
def raise : Nat → Binary64 → Int → Binary64 × Int
  | 0, x, _ => (x, 0)
  | fuel + 1, x, power =>
    if power < -308 then
      if x.mantissa = 0 then (x, 0)
      else
        match (do x.div (← Binary64.ofNat (tenTo 308))) with
        | some y => raise fuel y (power + 308)
        | none => (x, 0)
    else (x, power)

/-- The digits times the power of ten in floating point; nothing if it is too large. -/
def value? (l : Leading) : Option Binary64 := do
  let x ← Binary64.ofNat l.digits
  if 308 < l.power then
    if x.mantissa = 0 then return x else none
  else
    let (x, power) := raise 4 x l.power
    let scale ← Binary64.ofNat (tenTo power.natAbs)
    if 0 ≤ power then x.mul scale else x.div scale

end Leading

/-- Whether a piece is a digit. -/
def isDigit (p : Piece) : Bool := p.any Char.isDigit

/-- The digits at the beginning of a text, and what remains. -/
def takeDigits (s : List Piece) : List Char × List Piece :=
  ((s.takeWhile isDigit).filterMap id, s.dropWhile isDigit)

/-- A number with its sign, or nothing that has a value. -/
def signed (negative : Bool) (x : Option Binary64) : Tree :=
  match x with
  | some x => .fraction (if negative then x.negate else x)
  | none => .unreadable

/-- The largest exponent that is read digit by digit. -/
def largestExponent : Nat := twoTo 31 - 1

/-- The number behind the letter of its exponent. -/
def exponent (negative : Bool) (l : Leading) (s : List Piece) : Tree × Remaining :=
  let (down, s) : Bool × List Piece := match s with
    | some '+' :: s => (false, s)
    | some '-' :: s => (true, s)
    | s => (false, s)
  match takeDigits s with
  | ([], _) => (.broken, none)
  | (digits, s) =>
    let n := digits.foldl (fun n c => n * 10 + digitValue c) 0
    if largestExponent < n then
      (signed negative (if down || l.digits = 0 then some .zero else none), some s)
    else
      let power := if down then l.power - n else l.power + n
      (signed negative { l with power }.value?, some s)

/-- The number behind its digits right of the point, or left of it if there is no point. -/
def ending (negative : Bool) (l : Leading) (s : List Piece) : Tree × Remaining :=
  match s with
  | some 'e' :: s | some 'E' :: s => exponent negative l s
  | s => (signed negative l.value?, some s)

/-- A number written without point and exponent. -/
def integral (negative : Bool) (l : Leading) : Tree :=
  if l.power ≠ 0 then signed negative l.value?
  else if negative then
    if l.digits = 0 ∨ twoTo 63 < l.digits then signed true (Binary64.ofNat l.digits)
    else .integer (-l.digits)
  else .integer l.digits

/-- Reads a number behind its sign. -/
def unsigned (negative : Bool) (s : List Piece) : Tree × Remaining :=
  match takeDigits s with
  | ([], _) => (.broken, none)
  | ('0' :: _ :: _, _) => (.broken, none)
  | (digits, s) =>
    let l := ({ digits := 0, power := 0 } : Leading).whole digits
    match s with
    | some '.' :: s =>
      match takeDigits s with
      | ([], _) => (.broken, none)
      | (digits, s) => ending negative (l.fraction digits) s
    | some 'e' :: s | some 'E' :: s => exponent negative l s
    | s => (integral negative l, some s)

/-- Reads a number. -/
def number (s : List Piece) : Tree × Remaining :=
  match s with
  | some '-' :: s => unsigned true s
  | s => unsigned false s

end NearCache.Document.Json
