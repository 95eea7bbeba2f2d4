import ActorHub.Number.Binary64
import ActorHub.Number.Error
import ActorHub.Number.IntLiteral

/-!
# Float literals

A float is written with at most one sign as a decimal numeral with an optional point and exponent,
or as one of the words for infinity and not-a-number in any case. It denotes the nearest double,
which is infinite where the numeral is too large; single precision refuses such a numeral.
-/

namespace ActorHub

/-- What an unsigned float literal spells. -/
inductive FloatLiteral where
  | infinity
  | notANumber
  /-- The number `digits * 10 ^ exponent`. -/
  | numeral (digits : Nat) (exponent : Int)
deriving DecidableEq, Repr

namespace FloatLiteral

/-- An exponent: a sign if any, and at least one digit. -/
def exponent? (cs : List Char) : Option Int := do
  let (negative, digits) := IntLiteral.splitSign cs
  let n ← Number.readDigits? 10 digits
  return if negative then -(n : Int) else n

/-- Splits a leading run of decimal digits off. -/
def spanDigits (cs : List Char) : List Char × List Char :=
  (cs.takeWhile Text.isAsciiDigit, cs.dropWhile Text.isAsciiDigit)

/-- Digits with at most one point, at least one digit on either side of it, and then an exponent
behind the letter `e` if anything is left. -/
def numeral? (cs : List Char) : Option FloatLiteral := do
  let (whole, rest) := spanDigits cs
  let (places, rest) := match rest with
    | '.' :: rest => spanDigits rest
    | rest => ([], rest)
  let digits ← Number.readDigits? 10 (whole ++ places)
  match rest with
  | [] => return numeral digits (-(places.length : Int))
  | c :: rest =>
    if c = 'e' || c = 'E' then return numeral digits ((← exponent? rest) - places.length) else none

def unsigned? (cs : List Char) : Option FloatLiteral :=
  let word := String.ofList (cs.map Text.lowerAscii)
  if word = "inf" || word = "infinity" then some infinity
  else if word = "nan" then some notANumber
  else numeral? cs

/-- The nearest double to `digits * 10 ^ exponent`. Exponents that put the number beyond every
double, or nearer to zero than to any other, are settled without computing the power. -/
def numeralValue (negative : Bool) (digits : Nat) (exponent : Int) : Binary64 :=
  let top := exponent + Number.decimalLength digits
  if digits = 0 || top < -400 then Binary64.ofParts negative 0
  else if 400 < top then Binary64.infinity negative
  else match exponent with
    | .ofNat k => Binary64.ofFraction negative ⟨digits * Nat.pow 10 k, 1⟩
    | .negSucc k => Binary64.ofFraction negative ⟨digits, Nat.pow 10 (k + 1)⟩

def value (negative : Bool) : FloatLiteral → Binary64
  | infinity => Binary64.infinity negative
  | notANumber => if negative then Binary64.nan.neg else Binary64.nan
  | numeral digits exponent => numeralValue negative digits exponent

/-- The value of a literal without white space around it, and whether it spells infinity. -/
def readExact? (cs : List Char) : Option (Binary64 × Bool) :=
  let (negative, unsigned) := IntLiteral.splitSign cs
  (unsigned? unsigned).map fun literal => (literal.value negative, literal == infinity)

def read (text : String) : Except ValueError (Binary64 × Bool) :=
  match readExact? (Text.trim text.toList) with
  | some r => .ok r
  | none => .error (.malformed "float" text)

/-- The largest single precision number. -/
def maxSingle : Binary64 := ⟨0x47efffffe0000000⟩

/-- Reads a number in the range of single precision. Infinity has to be spelled out. -/
def readSingle (text : String) : Except ValueError Binary64 := do
  let (x, spelled) ← read text
  let tooLarge :=
    if x.isInfinite then !spelled
    else !x.isNaN && maxSingle.magnitudeBits < x.magnitudeBits
  if tooLarge then .error (.overflow "Float" text) else .ok x

end FloatLiteral

end ActorHub
