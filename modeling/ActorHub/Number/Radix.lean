/-!
# Digits

Natural numbers as digits of a radix, most significant first.
-/

namespace ActorHub.Number

/-- The value of an ASCII digit of the radix, letters in either case. -/
def digitValue? (radix : Nat) (c : Char) : Option Nat :=
  let n := c.toNat
  let value :=
    if 0x30 ≤ n && n ≤ 0x39 then some (n - 0x30)
    else if 0x61 ≤ n && n ≤ 0x7a then some (n - 0x61 + 10)
    else if 0x41 ≤ n && n ≤ 0x5a then some (n - 0x41 + 10)
    else none
  value.filter (· < radix)

/-- The number that digits denote behind a number already read. -/
def readDigitsFrom (radix : Nat) : Nat → List Char → Option Nat
  | n, [] => some n
  | n, c :: rest => (digitValue? radix c).bind fun d => readDigitsFrom radix (n * radix + d) rest

/-- The number that one digit or more denote. -/
def readDigits? (radix : Nat) : List Char → Option Nat
  | [] => none
  | cs => readDigitsFrom radix 0 cs

def digitChar (d : Nat) : Char :=
  if d < 10 then Char.ofNat (0x30 + d) else Char.ofNat (0x61 + (d - 10))

/-- The digits without leading zeros; a single zero for zero. -/
def digits (radix n : Nat) : List Char :=
  if _ : n < radix ∨ radix < 2 then [digitChar n]
  else digits radix (n / radix) ++ [digitChar (n % radix)]
termination_by n
decreasing_by
  have : 2 ≤ radix ∧ radix ≤ n := by omega
  exact Nat.div_lt_self (by omega) (by omega)

/-- Decimal digits with at least the given length, filled up with zeros. -/
def paddedDigits (radix length n : Nat) : List Char :=
  let ds := digits radix n
  List.replicate (length - ds.length) '0' ++ ds

/-- The number of decimal digits of a number. -/
def decimalLength (n : Nat) : Nat :=
  (digits 10 n).length

/-- The quotient rounded to the nearest number, a half to the even neighbour. -/
def roundDiv (num den : Nat) : Nat :=
  let q := num / den
  let r := num % den
  if den < 2 * r then q + 1
  else if 2 * r = den then q + q % 2
  else q

end ActorHub.Number
