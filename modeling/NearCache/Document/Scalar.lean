import NearCache.Document.Tree
import NearCache.Number.Shortest
/-!
# What plain scalars mean

A scalar that is written without quotes stands for what it looks like: nothing, a truth value, a
whole number in one of four bases, a number with a fraction, or else a text.  Digits with a zero in
front of them are a text, not a number.

A tag of the core schema decides the kind, and the scalar must then look like one of it.
-/

namespace NearCache.Document.Scalar

/-- The words for nothing. -/
def isNullWord (s : String) : Bool := s ∈ ["null", "Null", "NULL", "~"]

/-- Whether a plain scalar stands for nothing. -/
def isNull (s : String) : Bool := s = "" || isNullWord s

/-- The truth value of a word. -/
def bool? (s : String) : Option Bool :=
  if s ∈ ["true", "True", "TRUE"] then some true
  else if s ∈ ["false", "False", "FALSE"] then some false
  else none

/-- The value of a digit. -/
def digit? (base : Nat) (c : Char) : Option Nat :=
  let n :=
    if c.isDigit then c.toNat - '0'.toNat
    else if 'a' ≤ c ∧ c ≤ 'z' then c.toNat - 'a'.toNat + 10
    else if 'A' ≤ c ∧ c ≤ 'Z' then c.toNat - 'A'.toNat + 10
    else base
  if n < base then some n else none

/-- The number that one or more digits write. -/
def digits? (base : Nat) (s : List Char) : Option Nat :=
  if s.isEmpty then none
  else s.foldl (fun n? c => do return (← n?) * base + (← digit? base c)) (some 0)

/-- Whether a scalar is digits with a zero in front, behind a sign or not. -/
def hasIdleZero (s : List Char) : Bool :=
  let s := match s with
    | '-' :: rest | '+' :: rest => rest
    | s => s
  match s with
  | '0' :: d :: ds => (d :: ds).all Char.isDigit
  | _ => false

/-- The magnitude of an integer, behind its sign. -/
def magnitude? : List Char → Option Nat
  | '0' :: 'x' :: s => digits? 16 s
  | '0' :: 'o' :: s => digits? 8 s
  | '0' :: 'b' :: s => digits? 2 s
  | s => if hasIdleZero s then none else digits? 10 s

/-- The number that a plain scalar writes if it looks like an integer. -/
def integer? (s : List Char) : Option Int :=
  match s with
  | '-' :: s => (magnitude? s).map fun n => -(n : Int)
  | '+' :: s => (magnitude? s).map Int.ofNat
  | s => (magnitude? s).map Int.ofNat

/-- Whether an integer has a value: it fits in 64 bits, with a sign or without. -/
def fits64 (n : Int) : Bool := -(twoTo 63 : Int) ≤ n && n < twoTo 64

/-- Whether an integer is still taken for one, though it may have no value. -/
def fits128 (n : Int) : Bool := -(twoTo 127 : Int) ≤ n && n < twoTo 128

/-- The digits of a number with a fraction or an exponent, behind its sign. -/
def decimal? (s : List Char) : Option Decimal := do
  let whole := s.takeWhile Char.isDigit
  let s := s.dropWhile Char.isDigit
  let (fraction, s) := match s with
    | '.' :: s => (s.takeWhile Char.isDigit, s.dropWhile Char.isDigit)
    | s => ([], s)
  let digits ← digits? 10 (whole ++ fraction)
  let power : Int ← match s with
    | [] => some 0
    | 'e' :: '-' :: s | 'E' :: '-' :: s => (digits? 10 s).map fun n => -(n : Int)
    | 'e' :: '+' :: s | 'E' :: '+' :: s => (digits? 10 s).map Int.ofNat
    | 'e' :: s | 'E' :: s => (digits? 10 s).map Int.ofNat
    | _ => none
  return ⟨digits, power - fraction.length⟩

/-- The number that a plain scalar writes if it looks like one with a fraction.  One too large for
floating point does not. -/
def fraction? (s : String) : Option Binary64 :=
  if s ∈ [".inf", ".Inf", ".INF", "+.inf", "+.Inf", "+.INF"] then some .infinity
  else if s ∈ ["-.inf", "-.Inf", "-.INF"] then some Binary64.infinity.negate
  else if s ∈ [".nan", ".NaN", ".NAN"] then some .notANumber
  else
    match s.toList with
    | '-' :: s => ((decimal? s).bind Decimal.nearest?).map Binary64.negate
    | '+' :: s => (decimal? s).bind Decimal.nearest?
    | s => (decimal? s).bind Decimal.nearest?

/-- An integer as a tree, if it is still one. -/
def integerTree? (s : String) : Option Tree := do
  let n ← integer? s.toList
  if fits64 n then return .integer n
  else if fits128 n then return .unreadable
  else none

/-- What a plain scalar means. -/
def plain (s : String) : Tree :=
  if isNull s then .null
  else
    match bool? s with
    | some b => .bool b
    | none =>
      match integerTree? s with
      | some t => t
      | none =>
        if hasIdleZero s.toList then .text s
        else
          match fraction? s with
          | some x => .fraction x
          | none => .text s

/-- What a scalar means under a tag that is not the document's own. -/
def tagged (tag : Tag) (s : String) : Tree :=
  if tag = Tag.core "bool" then ((bool? s).map .bool).getD .unreadable
  else if tag = Tag.core "int" then (integerTree? s).getD .unreadable
  else if tag = Tag.core "float" then ((fraction? s).map .fraction).getD .unreadable
  else if tag = Tag.core "null" then if isNullWord s then .null else .unreadable
  else .text s

end NearCache.Document.Scalar
