import ActorHub.Number.Error
import ActorHub.Number.Radix
import ActorHub.Text.Blank
import ActorHub.Text.Case

/-!
# Integer literals

An integer is written with at most one sign, in decimal or behind a prefix that names its radix.
Single underscores may separate digits and one or two may follow the prefix. A decimal numeral has no
leading zero unless all its digits are zero. The magnitude stays below 2 to the 127.
-/

namespace ActorHub.IntLiteral

/-- Magnitudes lie below this bound. -/
def bound : Nat := 0x80000000000000000000000000000000

/-- The radix that a prefix names, and the text behind it; ten without one. Letters are in lower
case. -/
def splitRadix : List Char → Nat × List Char
  | '0' :: 'x' :: rest => (16, rest)
  | '0' :: 'o' :: rest => (8, rest)
  | '0' :: 'b' :: rest => (2, rest)
  | cs => (10, cs)

/-- Drops single underscores between characters. -/
def dropUnderscores : List Char → Option (List Char)
  | [] => some []
  | '_' :: _ => none
  | [c] => some [c]
  | c :: '_' :: d :: rest => (dropUnderscores (d :: rest)).map (c :: ·)
  | _ :: ['_'] => none
  | c :: d :: rest => (dropUnderscores (d :: rest)).map (c :: ·)

/-- Drops up to two underscores directly behind a prefix. -/
def dropLeadingUnderscores (radix : Nat) (cs : List Char) : List Char :=
  if radix = 10 then cs
  else match cs with
    | '_' :: '_' :: rest => rest
    | '_' :: rest => rest
    | cs => cs

/-- More than one digit, the first of them zero and another one not. -/
def hasLeadingZero : List Char → Bool
  | '0' :: rest => rest.any (· != '0')
  | _ => false

/-- The magnitude that an unsigned literal denotes, of any size. -/
def magnitude? (cs : List Char) : Option Nat := do
  let (radix, digits) := splitRadix (cs.map Text.lowerAscii)
  let digits ← dropUnderscores (dropLeadingUnderscores radix digits)
  if radix = 10 && hasLeadingZero digits then none
  else Number.readDigits? radix digits

/-- The sign, and the text behind it. -/
def splitSign : List Char → Bool × List Char
  | '-' :: rest => (true, rest)
  | '+' :: rest => (false, rest)
  | cs => (false, cs)

def read (text : String) : Except ValueError Int :=
  let (negative, unsigned) := splitSign (Text.trim text.toList)
  match magnitude? unsigned with
  | none => .error (.malformed "int" text)
  | some n =>
    if n < bound then .ok (if negative then -(n : Int) else n)
    else .error (.overflow "int" text)

end ActorHub.IntLiteral
