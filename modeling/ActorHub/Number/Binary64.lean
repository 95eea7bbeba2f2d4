import ActorHub.Number.Radix

/-!
# Double precision numbers

A double is its 64 bits. Its magnitude is read as a natural number times a power of two, and the
nearest double to a fraction is found in exact arithmetic on natural numbers.
-/

namespace ActorHub

structure Binary64 where
  bits : UInt64
deriving DecidableEq, Repr

/-- A fraction of natural numbers. -/
structure Fraction where
  num : Nat
  den : Nat

namespace Binary64

/-- The weight of the sign bit. -/
def signWeight : Nat := 0x8000000000000000

/-- The weight of the lowest exponent bit, and of the leading bit that a mantissa does not store. -/
def leadingBit : Nat := 0x10000000000000

def ofParts (negative : Bool) (magnitude : Nat) : Binary64 :=
  ⟨UInt64.ofNat ((if negative then signWeight else 0) + magnitude)⟩

def zero : Binary64 := ⟨0⟩
def nan : Binary64 := ⟨0x7ff8000000000000⟩

def infinity (negative : Bool) : Binary64 :=
  ofParts negative 0x7ff0000000000000

/-! ## Parts -/

def isNegative (x : Binary64) : Bool :=
  x.bits.toNat / signWeight = 1

/-- The bits without the sign. They are ordered as the magnitudes are. -/
def magnitudeBits (x : Binary64) : Nat :=
  x.bits.toNat % signWeight

def exponentField (x : Binary64) : Nat :=
  x.magnitudeBits / leadingBit

def fractionField (x : Binary64) : Nat :=
  x.bits.toNat % leadingBit

def isFinite (x : Binary64) : Bool :=
  x.exponentField != 2047

def isNaN (x : Binary64) : Bool :=
  !x.isFinite && x.fractionField != 0

def isInfinite (x : Binary64) : Bool :=
  !x.isFinite && x.fractionField == 0

def isZero (x : Binary64) : Bool :=
  x.magnitudeBits == 0

def abs (x : Binary64) : Binary64 :=
  ⟨UInt64.ofNat x.magnitudeBits⟩

def neg (x : Binary64) : Binary64 :=
  ofParts (!x.isNegative) x.magnitudeBits

/-- The natural number `m` of the magnitude `m * 2 ^ q`. -/
def mantissa (x : Binary64) : Nat :=
  if x.exponentField = 0 then x.fractionField else x.fractionField + leadingBit

/-- The exponent `q` of the magnitude `m * 2 ^ q`. -/
def exponent (x : Binary64) : Int :=
  (max 1 x.exponentField : Nat) - 1075

/-- The fraction `n * 2 ^ q`. -/
def scaled (n : Nat) (q : Int) : Fraction :=
  match q with
  | .ofNat k => ⟨n * Nat.pow 2 k, 1⟩
  | .negSucc k => ⟨n, Nat.pow 2 (k + 1)⟩

/-- The magnitude of a finite number. -/
def toFraction (x : Binary64) : Fraction :=
  scaled x.mantissa x.exponent

/-! ## Comparison -/

/-- Equality of numbers: zeros are equal whatever their sign, and NaN equals nothing. -/
def equals (x y : Binary64) : Bool :=
  !x.isNaN && !y.isNaN && (x == y || (x.isZero && y.isZero))

/-- Whether a number is above zero. -/
def isPositive (x : Binary64) : Bool :=
  !x.isNaN && !x.isNegative && !x.isZero

/-! ## Rounding -/

/-- The greatest `e` with `2 ^ e ≤ num / den`, for positive `num` and `den`. -/
def floorLog2 (f : Fraction) : Int :=
  let e : Int := (Nat.log2 f.num : Int) - Nat.log2 f.den
  -- the estimate is at most one too high
  let reached : Bool := match e with
    | .ofNat k => f.den * Nat.pow 2 k ≤ f.num
    | .negSucc k => f.den ≤ f.num * Nat.pow 2 (k + 1)
  if reached then e else e - 1

/-- The magnitude bits of the nearest double, a half to the even neighbour. -/
def roundMagnitude (f : Fraction) : Nat :=
  if f.num = 0 then 0
  else
    let q := max (floorLog2 f - 52) (-1074)
    let m := match q with
      | .ofNat k => Number.roundDiv f.num (f.den * Nat.pow 2 k)
      | .negSucc k => Number.roundDiv (f.num * Nat.pow 2 (k + 1)) f.den
    -- a mantissa without its leading bit adds to an exponent field of zero, any other carries one
    let bits := (q + 1074).toNat * leadingBit + m
    min bits 0x7ff0000000000000

def ofFraction (negative : Bool) (f : Fraction) : Binary64 :=
  ofParts negative (roundMagnitude f)

def ofInt (n : Int) : Binary64 :=
  ofFraction (n < 0) ⟨n.natAbs, 1⟩

/-- The integer part, towards zero, of a finite number. -/
def truncate (x : Binary64) : Int :=
  let f := x.toFraction
  let n : Nat := f.num / f.den
  if x.isNegative then -(n : Int) else n

/-! ## Arithmetic -/

def toFloat (x : Binary64) : Float :=
  Float.ofBits x.bits

def ofFloat (x : Float) : Binary64 :=
  ⟨x.toBits⟩

end Binary64

end ActorHub
