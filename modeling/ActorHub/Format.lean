import ActorHub.Number.Decimal
import ActorHub.Number.FloatLiteral
import ActorHub.ValueType.Error

/-!
# Numeric formats

A format is literal text around exactly one numeric directive; in the literal text a percent sign
is written twice. A directive is a percent sign, flags, a width, a precision behind a point and a
conversion letter.
-/

namespace ActorHub

/-- A number to be formatted. -/
inductive FormatArg where
  | int (n : Int)
  | float (x : Binary64)
deriving DecidableEq, Repr

/-- The numeral system of an integer conversion. -/
inductive Radix where
  | decimal
  | octal
  | hex (upper : Bool)
deriving DecidableEq, Repr

inductive FloatStyle where
  | fixed
  | exponent
  | general
deriving DecidableEq, Repr

inductive Conversion where
  | integer (radix : Radix)
  | real (style : FloatStyle) (upper : Bool)
deriving DecidableEq, Repr

structure FormatFlags where
  left : Bool
  plus : Bool
  space : Bool
  zero : Bool
  alternate : Bool
deriving DecidableEq, Repr

structure Directive where
  flags : FormatFlags
  width : Nat
  precision : Option Nat
  conversion : Conversion
deriving DecidableEq, Repr

/-- A format string, taken apart. -/
structure Format where
  source : String
  before : String
  directive : Directive
  after : String
deriving DecidableEq, Repr

namespace Radix

def base : Radix → Nat
  | decimal => 10
  | octal => 8
  | hex _ => 16

/-- The mark in front of the digits when the alternate form is asked for. -/
def mark : Radix → List Char
  | decimal => []
  | octal => ['0', 'o']
  | hex false => ['0', 'x']
  | hex true => ['0', 'X']

def digits (r : Radix) (n : Nat) : List Char :=
  let ds := Number.digits r.base n
  match r with
  | hex true => ds.map Text.upperAscii
  | _ => ds

end Radix

def Conversion.ofChar? : Char → Option Conversion
  | 'd' | 'i' | 'u' => some (.integer .decimal)
  | 'o' => some (.integer .octal)
  | 'x' => some (.integer (.hex false))
  | 'X' => some (.integer (.hex true))
  | 'e' => some (.real .exponent false)
  | 'E' => some (.real .exponent true)
  | 'f' => some (.real .fixed false)
  | 'F' => some (.real .fixed true)
  | 'g' => some (.real .general false)
  | 'G' => some (.real .general true)
  | _ => none

namespace FormatFlags

def isFlag (c : Char) : Bool :=
  ['-', '+', ' ', '0', '#'].contains c

def ofChars (cs : List Char) : FormatFlags where
  left := cs.contains '-'
  plus := cs.contains '+'
  space := cs.contains ' '
  zero := cs.contains '0'
  alternate := cs.contains '#'

end FormatFlags

namespace Format

/-! ## Reading -/

/-- Literal text up to a directive or the end, with each doubled percent sign read as one. What is
left is empty or starts with the percent sign of a directive. -/
def readLiteral : List Char → List Char × List Char
  | '%' :: '%' :: rest => let (text, rest) := readLiteral rest; ('%' :: text, rest)
  | '%' :: rest => ([], '%' :: rest)
  | c :: rest => let (text, rest) := readLiteral rest; (c :: text, rest)
  | [] => ([], [])

/-- Widths and precisions lie below this bound; a larger number counts as none. -/
def numberBound : Nat := UInt64.size

def number? (digits : List Char) : Option Nat :=
  (Number.readDigits? 10 digits).filter (· < numberBound)

/-- What follows the percent sign of a directive. -/
def readDirective? (cs : List Char) : Option (Directive × List Char) := do
  let flags := cs.takeWhile FormatFlags.isFlag
  let (width, rest) := FloatLiteral.spanDigits (cs.dropWhile FormatFlags.isFlag)
  let (precision, rest) := match rest with
    | '.' :: rest =>
      let (digits, rest) := FloatLiteral.spanDigits rest
      (some ((number? digits).getD 0), rest)
    | rest => (none, rest)
  match rest with
  | [] => none
  | c :: rest =>
    let conversion ← Conversion.ofChar? c
    return (⟨FormatFlags.ofChars flags, (number? width).getD 0, precision, conversion⟩, rest)

/-- Whether a directive would show the value through its own string forms. -/
def isCircular : List Char → Bool
  | '%' :: c :: rest => c = 's' || c = 'r' || isCircular (c :: rest)
  | _ :: rest => isCircular rest
  | [] => false

def readParts? (cs : List Char) : Option (List Char × Directive × List Char) :=
  match readLiteral cs with
  | (before, '%' :: rest) => do
    let (directive, rest) ← readDirective? rest
    match readLiteral rest with
    | (after, []) => return (before, directive, after)
    | _ => none
  | _ => none

/-- Reads the format of a metadata field. -/
def read (field source : String) : Except ValueTypeError Format :=
  if isCircular source.toList then .error (.circularFormat field)
  else match readParts? source.toList with
    | some (before, directive, after) =>
      .ok ⟨source, String.ofList before, directive, String.ofList after⟩
    | none => .error (.unsupportedFormat source)

end Format

/-! ## Rendering -/

/-- An unsigned number ready to be padded. -/
structure Numeral where
  negative : Bool
  /-- The radix mark. -/
  mark : List Char
  digits : List Char
  /-- Whether zeros may fill the field. -/
  finite : Bool

/-- The greatest integer of 128 bits. -/
def intLimit : Int := 0x7fffffffffffffffffffffffffffffff

/-- Integers are rendered within 128 bits. -/
def clampInt (n : Int) : Int :=
  if n < -intLimit - 1 then -intLimit - 1 else if intLimit < n then intLimit else n

namespace Directive

def sign (d : Directive) (negative : Bool) : List Char :=
  if negative then ['-']
  else if d.flags.plus then ['+']
  else if d.flags.space then [' ']
  else []

/-- Fills the field up to its width: behind the number, between sign and digits, or before it. -/
def pad (d : Directive) (n : Numeral) : List Char :=
  let sign := d.sign n.negative
  let fill := d.width - (sign.length + n.mark.length + n.digits.length)
  if d.flags.left then sign ++ n.mark ++ n.digits ++ List.replicate fill ' '
  else if d.flags.zero && n.finite then sign ++ n.mark ++ List.replicate fill '0' ++ n.digits
  else List.replicate fill ' ' ++ sign ++ n.mark ++ n.digits

def integerNumeral (d : Directive) (radix : Radix) (n : Int) : Numeral :=
  let ds := radix.digits n.natAbs
  { negative := n < 0
    mark := if d.flags.alternate then radix.mark else []
    digits := List.replicate (d.precision.getD 0 - ds.length) '0' ++ ds
    finite := true }

def nonFiniteText (x : Binary64) (upper : Bool) : List Char :=
  match x.isNaN, upper with
  | true, false => "nan".toList
  | true, true => "NAN".toList
  | false, false => "inf".toList
  | false, true => "INF".toList

/-- A mantissa and an exponent of at least two digits. -/
def exponentForm (places : Nat) (upper : Bool) (f : Fraction) : List Char :=
  let (c, top) := Decimal.roundSignificant places f
  Decimal.mantissaText places c
    ++ (if upper then 'E' else 'e') :: (if top < 0 then '-' else '+')
    :: Number.paddedDigits 10 2 top.natAbs

/-- Drops the zeros at the end of digits behind a point, and a point that nothing follows. -/
def stripZeros (cs : List Char) : List Char :=
  let number := cs.takeWhile fun c => c != 'e' && c != 'E'
  let exponent := cs.dropWhile fun c => c != 'e' && c != 'E'
  let number :=
    if number.contains '.' then
      ((number.reverse.dropWhile (· == '0')).dropWhile (· == '.')).reverse
    else number
  number ++ exponent

/-- The shorter of fixed and exponent notation for a number of significant digits. -/
def generalForm (significant : Nat) (upper alternate : Bool) (f : Fraction) : List Char :=
  let (_, top) := Decimal.roundSignificant (significant - 1) f
  let text :=
    if top < -4 || (significant : Int) ≤ top then exponentForm (significant - 1) upper f
    else Decimal.fixedText ((significant : Int) - 1 - top).toNat f
  if alternate then text else stripZeros text

def realDigits (d : Directive) (style : FloatStyle) (upper : Bool) (f : Fraction) : List Char :=
  let precision := d.precision.getD 6
  match style with
  | .fixed => Decimal.fixedText precision f
  | .exponent => exponentForm precision upper f
  | .general => generalForm (max precision 1) upper d.flags.alternate f

def numeral (d : Directive) (arg : FormatArg) : Numeral :=
  match d.conversion, arg with
  | .integer radix, .int n => d.integerNumeral radix n
  | .integer radix, .float x =>
    if x.isFinite then d.integerNumeral radix (clampInt x.truncate)
    else ⟨x.isNegative, [], nonFiniteText x false, false⟩
  | .real style upper, arg =>
    let x := match arg with
      | .int n => Binary64.ofInt n
      | .float x => x
    if x.isFinite then ⟨x.isNegative, [], d.realDigits style upper x.toFraction, true⟩
    else ⟨x.isNegative && !x.isNaN, [], nonFiniteText x upper, false⟩

def render (d : Directive) (arg : FormatArg) : List Char :=
  d.pad (d.numeral arg)

end Directive

def Format.render (f : Format) (arg : FormatArg) : String :=
  f.before ++ String.ofList (f.directive.render arg) ++ f.after

end ActorHub
