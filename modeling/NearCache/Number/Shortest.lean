import NearCache.Number.Binary64
/-!
# The shortest decimal that reads back

`Binary64.shortest` gives a positive value the fewest significant digits that round to it, and of
the decimals with so few digits the one nearest to it.  `Binary64.text` writes those digits:
positionally while the decimal point lies within sixteen digits on the left or five zeros on the
right, with an exponent otherwise.
-/

namespace NearCache

/-- The decimal `digits * 10 ^ power`. -/
structure Decimal where
  digits : Nat
  power : Int
  deriving DecidableEq, Repr

namespace Decimal

/-- The same value without zeros at the end of its digits. -/
def trim (d : Decimal) : Decimal :=
  go d.digits d
where
  /-- Removes at most `fuel` zeros. -/
  go : Nat → Decimal → Decimal
    | 0, d => d
    | fuel + 1, d =>
      if d.digits ≠ 0 ∧ d.digits % 10 = 0 then go fuel ⟨d.digits / 10, d.power + 1⟩ else d

/-- The floating-point number nearest to the decimal; `none` if it is too large for the format.  A
decimal far outside the format is not multiplied out. -/
def nearest? (d : Decimal) : Option Binary64 :=
  let point := ((Nat.toDigits 10 d.digits).length : Int) + d.power
  if d.digits = 0 ∨ point < -400 then some .zero
  else if 400 < point then none
  else if 0 ≤ d.power then Binary64.ofRatio (d.digits * tenTo d.power.toNat) 1
  else Binary64.ofRatio d.digits (tenTo (-d.power).toNat)

end Decimal

namespace Binary64

/-- Four times the mantissa, and the ends of the interval that rounds to it, in units of a quarter
of the last place.  Below a power of two the values lie twice as close. -/
def interval (x : Binary64) : Nat × Nat × Nat :=
  let low := if x.mantissa = twoTo 52 ∧ -1074 < x.exponent then 1 else 2
  (4 * x.mantissa - low, 4 * x.mantissa, 4 * x.mantissa + 2)

/-- Whether a decimal rounds to `x`; the ends of the interval do if the mantissa is even. -/
def readsFrom (x : Binary64) (d : Decimal) : Bool :=
  let (low, _, high) := x.interval
  let (n, m) := if 0 ≤ d.power then (d.digits * tenTo d.power.toNat, 1)
    else (d.digits, tenTo (-d.power).toNat)
  let (n, m) := inUnits n m (x.exponent - 2)
  if x.mantissa % 2 = 0 then low * m ≤ n && n ≤ high * m else low * m < n && n < high * m

/-- How many digits stand left of the decimal point of the magnitude; below one tenth, minus the
number of zeros after it. -/
def pointAt (x : Binary64) : Int :=
  let (n, m) := x.ratio
  ((Nat.toDigits 10 (n * tenTo 330 / m)).length : Int) - 330

/-- The decimals of `10 ^ power` next to the magnitude, the nearer one first. -/
def neighbours (x : Binary64) (power : Int) : List Decimal :=
  let (n, m) := x.ratio
  let (n, m) := if 0 ≤ power then (n, m * tenTo power.toNat) else (n * tenTo (-power).toNat, m)
  let below : Decimal := ⟨n / m, power⟩
  let above : Decimal := ⟨n / m + 1, power⟩
  let twice := 2 * (n % m)
  if twice < m ∨ (twice = m ∧ n / m % 2 = 0) then [below, above] else [above, below]

/-- The shortest decimal for a positive magnitude. -/
def shortest (x : Binary64) : Decimal :=
  let grids := (List.range 17).map fun (i : Nat) => x.pointAt - (i + 1)
  let hits := grids.filterMap fun power => (x.neighbours power).find? x.readsFrom
  match hits with
  | d :: _ => d.trim
  | [] => ⟨0, 0⟩

/-- The digits of a decimal with a point and, where the value is large or small, an exponent with
its sign. -/
def layout (d : Decimal) : String :=
  let ds := Nat.toDigits 10 d.digits
  let point := (ds.length : Int) + d.power
  let zeros (k : Int) := List.replicate k.toNat '0'
  String.ofList <|
    if 0 ≤ d.power ∧ point ≤ 16 then ds ++ zeros d.power ++ ['.', '0']
    else if 0 < point ∧ point ≤ 16 then ds.take point.toNat ++ '.' :: ds.drop point.toNat
    else if -5 < point ∧ point ≤ 0 then ['0', '.'] ++ zeros (-point) ++ ds
    else
      let fraction := if ds.length = 1 then [] else '.' :: ds.drop 1
      let sign := if 0 < point then '+' else '-'
      ds.take 1 ++ fraction ++ 'e' :: sign :: Nat.toDigits 10 (point - 1).natAbs

/-- The value as text: always with a fraction or an exponent, so that it reads as a fraction. -/
def text (x : Binary64) : String :=
  let magnitude := if x.mantissa = 0 then "0.0" else layout x.shortest
  if x.negative then "-" ++ magnitude else magnitude

end Binary64

end NearCache
