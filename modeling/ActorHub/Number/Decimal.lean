import ActorHub.Number.Binary64

/-!
# Decimal forms of doubles

`shortest` finds the fewest decimal digits that only one double is nearest to, and of those the
ones nearest to the number. `fixedText` and `scientificText` round the exact value to a number of
places or digits, a half to the even neighbour. `FloatLayout` decides how digits are written down.
-/

namespace ActorHub

/-- The number `digits * 10 ^ exponent`. -/
structure Decimal where
  digits : Nat
  exponent : Int
deriving DecidableEq, Repr

namespace Decimal

/-- The greatest `e` with `10 ^ e ≤ num / den`, for positive `num` and `den`. -/
def floorLog10 (f : Fraction) : Int :=
  if f.den ≤ f.num then (Number.decimalLength (f.num / f.den) : Int) - 1
  else
    -- the exponent is `-k` for the least `k` with `den / num ≤ 10 ^ k`
    -(Number.decimalLength ((f.den + f.num - 1) / f.num - 1) : Int)

/-- The number counted in units of `10 ^ k`, as a fraction. -/
def inUnits (f : Fraction) (k : Int) : Fraction :=
  match k with
  | .ofNat k => ⟨f.num, f.den * Nat.pow 10 k⟩
  | .negSucc k => ⟨f.num * Nat.pow 10 (k + 1), f.den⟩

/-! ## Shortest digits -/

/-- The reals that round to a double: those between two bounds, or at them when `closed`. -/
structure Basin where
  value : Fraction
  low : Fraction
  high : Fraction
  closed : Bool

/-- The basin of a positive finite double. The gap below a power of two is half as wide as the gap
above it. -/
def Basin.of (x : Binary64) : Basin :=
  let m := x.mantissa
  let q := x.exponent - 2
  let below := if x.fractionField = 0 && 1 < x.exponentField then 1 else 2
  { value := Binary64.scaled (4 * m) q
    low := Binary64.scaled (4 * m - below) q
    high := Binary64.scaled (4 * m + 2) q
    closed := m % 2 == 0 }

/-- Whether `c` units of `10 ^ k` lie in the basin. -/
def Basin.holds (b : Basin) (k : Int) (c : Nat) : Bool :=
  let low := inUnits b.low k
  let high := inUnits b.high k
  if b.closed then low.num ≤ c * low.den && c * high.den ≤ high.num
  else low.num < c * low.den && c * high.den < high.num

/-- The multiple of `10 ^ k` in the basin that is nearest to its value, if there is one. -/
def Basin.nearest? (b : Basin) (k : Int) : Option Nat :=
  let v := inUnits b.value k
  let c := v.num / v.den
  match b.holds k c, b.holds k (c + 1) with
  | true, true => some (if 2 * v.num < (2 * c + 1) * v.den then c else c + 1)
  | true, false => some c
  | false, true => some (c + 1)
  | false, false => none

/-- Seventeen digits tell any two doubles apart. -/
def maxDigits : Nat := 17

/-- Drops zeros at the end of the digits. -/
def normalize (d : Decimal) : Decimal :=
  if h : d.digits ≠ 0 ∧ d.digits % 10 = 0 then normalize ⟨d.digits / 10, d.exponent + 1⟩ else d
termination_by d.digits
decreasing_by exact Nat.div_lt_self (by omega) (by omega)

/-- The shortest decimal of the magnitude of a finite double. -/
def shortest (x : Binary64) : Decimal :=
  if x.isZero then ⟨0, 0⟩
  else
    let b := Basin.of x
    let top := floorLog10 b.value
    let grid (n : Nat) : Option Decimal :=
      let k := top - n
      (b.nearest? k).map fun c => normalize ⟨c, k⟩
    ((List.range maxDigits).findSome? grid).getD ⟨0, 0⟩

/-! ## Rounded digits -/

/-- The digits with a point before the last `places` of them. -/
def placePoint (places : Nat) (digits : List Char) : List Char :=
  if places = 0 then digits
  else digits.take (digits.length - places) ++ '.' :: digits.drop (digits.length - places)

/-- The value rounded to a number of places behind the point. -/
def fixedText (places : Nat) (f : Fraction) : List Char :=
  placePoint places
    (Number.paddedDigits 10 (places + 1) (Number.roundDiv (f.num * Nat.pow 10 places) f.den))

/-- The value rounded to `places + 1` significant digits: the digits as a number, and the exponent
of the first of them. -/
def roundSignificant (places : Nat) (f : Fraction) : Nat × Int :=
  if f.num = 0 then (0, 0)
  else
    let top := floorLog10 f
    let v := inUnits f (top - places)
    let c := Number.roundDiv v.num v.den
    if c = Nat.pow 10 (places + 1) then (Nat.pow 10 places, top + 1) else (c, top)

/-- The digits of `roundSignificant` with a point behind the first. -/
def mantissaText (places c : Nat) : List Char :=
  placePoint places (Number.paddedDigits 10 (places + 1) c)

end Decimal

/-! ## Layout -/

/-- How the shortest digits of a number are written down. -/
structure FloatLayout where
  /-- The least exponent of the first digit that is written without an exponent. -/
  positionalFrom : Int
  /-- From this exponent of the first digit on an exponent is written. -/
  positionalBelow : Int
  nan : String
  infinity : String

namespace FloatLayout

/-- Full precision, with not-a-number in lower case. -/
def plain : FloatLayout := ⟨-4, 16, "nan", "inf"⟩

/-- Full precision, with not-a-number in capitals. -/
def detailed : FloatLayout := ⟨-4, 16, "NaN", "inf"⟩

/-- Digits with a point and at least one digit on either side of it. -/
def positional (ds : List Char) (exponent : Int) : List Char :=
  match exponent with
  | .ofNat k => ds ++ List.replicate k '0' ++ ['.', '0']
  | .negSucc k =>
    let places := k + 1
    if places < ds.length then Decimal.placePoint places ds
    else '0' :: '.' :: (List.replicate (places - ds.length) '0' ++ ds)

/-- One digit, a point and further digits if there are any, and the exponent. -/
def scientific (ds : List Char) (top : Int) : List Char :=
  let mantissa := match ds with
    | d :: rest@(_ :: _) => d :: '.' :: rest
    | ds => ds
  mantissa ++ 'e' :: (toString top).toList

def magnitude (layout : FloatLayout) (d : Decimal) : List Char :=
  let ds := Number.digits 10 d.digits
  let top := d.exponent + ds.length - 1
  if d.digits = 0 || (layout.positionalFrom ≤ top && top < layout.positionalBelow) then
    positional ds d.exponent
  else scientific ds top

def render (layout : FloatLayout) (x : Binary64) : String :=
  if x.isNaN then layout.nan
  else
    let sign := if x.isNegative then "-" else ""
    if x.isInfinite then sign ++ layout.infinity
    else sign ++ String.ofList (layout.magnitude (Decimal.shortest x))

end FloatLayout

end ActorHub
