import NearCache.Number.Power
/-!
# Binary floating point by exact arithmetic

The 64-bit binary format of IEEE 754, restricted to its finite values: a sign, a whole mantissa
below 2^53 and a power of two.  Rounding is to nearest, a tie to the even mantissa, and is computed
on fractions of natural numbers, so every operation here is its exact result rounded once.
-/

namespace NearCache

/-- The finite value `mantissa * 2 ^ exponent`, negated if `negative`.  In the values built here
`mantissa < 2 ^ 53`, and `2 ^ 52 ≤ mantissa` unless `exponent` is the least one, -1074. -/
structure Binary64 where
  negative : Bool
  mantissa : Nat
  exponent : Int
  deriving DecidableEq, Repr, Inhabited

namespace Binary64

/-- Positive zero. -/
def zero : Binary64 := ⟨false, 0, -1074⟩

/-- The quotient `num / den` to the nearest whole number, a tie to the even one. -/
def roundDiv (num den : Nat) : Nat :=
  let q := num / den
  let r := num % den
  if 2 * r < den then q
  else if den < 2 * r then q + 1
  else if q % 2 = 0 then q else q + 1

/-- The fraction `num / den` in units of `2 ^ q`, as a fraction again. -/
def inUnits (num den : Nat) (q : Int) : Nat × Nat :=
  if 0 ≤ q then (num, den * twoTo q.toNat) else (num * twoTo (-q).toNat, den)

/-- The exponent of the format for a positive fraction: the largest one that leaves a mantissa of
53 bits, but not less than -1074. -/
def exponentOf (num den : Nat) : Int :=
  let guess : Int := (num.log2 : Int) - den.log2 - 52
  let (n, d) := inUnits num den guess
  let exact := if n / d < twoTo 52 then guess - 1 else guess
  max exact (-1074)

/-- The nonnegative fraction `num / den`, rounded; `none` if it is too large for the format. -/
def ofRatio (num den : Nat) : Option Binary64 :=
  if num = 0 then some zero
  else
    let q := exponentOf num den
    let (n, d) := inUnits num den q
    let m := roundDiv n d
    let (m, q) := if m = twoTo 53 then (twoTo 52, q + 1) else (m, q)
    if 971 < q then none else some ⟨false, m, q⟩

/-- The magnitude as a fraction. -/
def ratio (x : Binary64) : Nat × Nat :=
  if 0 ≤ x.exponent then (x.mantissa * twoTo x.exponent.toNat, 1)
  else (x.mantissa, twoTo (-x.exponent).toNat)

/-- The rounded product of two magnitudes. -/
def mul (x y : Binary64) : Option Binary64 :=
  ofRatio (x.ratio.1 * y.ratio.1) (x.ratio.2 * y.ratio.2)

/-- The rounded quotient of two magnitudes, the second one positive. -/
def div (x y : Binary64) : Option Binary64 :=
  ofRatio (x.ratio.1 * y.ratio.2) (x.ratio.2 * y.ratio.1)

/-- The whole number nearest in the format. -/
def ofNat (n : Nat) : Option Binary64 := ofRatio n 1

/-- The same magnitude below zero. -/
def negate (x : Binary64) : Binary64 := { x with negative := !x.negative }

/-- The magnitude beyond all others, which no operation here returns: its bits are those of the
format's infinity. -/
def infinity : Binary64 := ⟨false, twoTo 52, 972⟩

/-- The value that is no number, which no operation here returns either. -/
def notANumber : Binary64 := ⟨false, twoTo 52 + twoTo 51, 972⟩

/-- The 64 bits of the interchange format: sign, biased exponent, trailing mantissa. -/
def bits (x : Binary64) : Nat :=
  let sign := if x.negative then twoTo 63 else 0
  if x.mantissa < twoTo 52 then sign + x.mantissa
  else sign + (x.exponent + 1075).toNat * twoTo 52 + (x.mantissa - twoTo 52)

/-- The bits as 16 lower-case hexadecimal digits. -/
def hex (x : Binary64) : String :=
  let digits := Nat.toDigits 16 x.bits
  String.ofList (List.replicate (16 - digits.length) '0' ++ digits)

end Binary64

end NearCache
