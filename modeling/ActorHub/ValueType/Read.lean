import ActorHub.ValueType.Basic

/-!
# Reading values

What each kind of type accepts as a text of a value, and what it makes of it.
-/

namespace ActorHub.ValueType

/-- Signed integers lie within this magnitude. -/
def intLimit : Int := 0x7fffffff

/-- Long integers lie at or below this, and not more than one below its negation. -/
def longLimit : Int := 0x7fffffffffffffff

/-- Unsigned integers lie below or at this bound. -/
def uintLimit : Int := 0xffffffff

/-- Indices of labels lie below this bound. -/
def indexBound : Nat := UInt64.size

/-- Whether a text is the invalid sentinel, ignoring case. -/
def isSentinel (t : ValueType) (text : String) : Bool :=
  t.invalid == some (Text.lowercase text)

/-- Refuses the invalid sentinel and passes any other text. -/
def validate (t : ValueType) (text : String) : Except ValueError String :=
  if t.isSentinel text then .error .invalid else .ok text

/-- An integer literal; one too large for any type is out of the range of this one. -/
def readInt (t : ValueType) (text : String) : Except ValueError Int :=
  match IntLiteral.read text with
  | .error (.overflow ..) => .error (.overflow t.typeName text)
  | r => r

/-- An integer between two bounds. -/
def readBetween (t : ValueType) (low high : Int) (text : String) : Except ValueError Int := do
  let n ← t.readInt text
  if low ≤ n ∧ n ≤ high then return n else throw (.overflow t.typeName text)

/-- A word. A negative number is taken as a sign bit and a magnitude. -/
def readWord (t : ValueType) (text : String) : Except ValueError Word := do
  let n ← t.readBetween (-intLimit) uintLimit text
  return if n < 0 then 0x80000000#32 ||| BitVec.ofNat 32 n.natAbs else BitVec.ofNat 32 n.natAbs

/-- The index of a label, written in decimal digits behind an optional plus sign. -/
def index? (cs : List Char) : Option Nat :=
  let digits := match cs with
    | '+' :: rest => rest
    | cs => cs
  (Number.readDigits? 10 digits).filter (· < indexBound)

def labels (t : ValueType) : List String :=
  match t.kind with
  | .enum labels _ => labels
  | _ => []

/-- The enumerated value at an index. -/
def enumValue (t : ValueType) (index : Nat) : Except ValueError TypedValue :=
  match t.kind with
  | .enum labels _ =>
    match labels[index]? with
    | some label => .ok (.enum label index)
    | none => .error (.indexOutOfRange index)
  | _ => .error (.notEnumeration t.typeName)

/-- A label, ignoring case, or else the index of one. -/
def readLabel (t : ValueType) (text : String) : Except ValueError TypedValue :=
  match t.labels.findIdx? (Text.sameName · text) with
  | some i => t.enumValue i
  | none =>
    match index? text.toList with
    | some i => t.enumValue i
    | none => .error (.unknownLabel (Text.lowercase text))

/-- Reads a text that is not the invalid sentinel. -/
def readValid (t : ValueType) (text : String) : Except ValueError TypedValue :=
  match t.kind with
  | .float => (FloatLiteral.readSingle text).map .float
  | .double => (FloatLiteral.read text).map fun (x, _) => .double x
  | .int => (t.readBetween (-intLimit) intLimit text).map .int
  | .long => (t.readBetween (-longLimit - 1) longLimit text).map .long
  | .uint => (t.readWord text).map .uint
  | .bits _ => (t.readWord text).map .bits
  | .string => .ok (.string text)
  | .enum .. => t.readLabel text
  | .bool falseLabel trueLabel =>
    if text = trueLabel then .ok (.bool true trueLabel)
    else if text = falseLabel then .ok (.bool false falseLabel)
    else .error (.notBool text)

/-- The value of a text. -/
def read (t : ValueType) (text : String) : Except ValueError TypedValue := do
  t.readValid (← t.validate text)

/-- The value of a text, where the sentinel counts as a value too. -/
def accept? (t : ValueType) (text : String) : Option TypedValue :=
  match t.read text with
  | .ok v => some v
  | .error .invalid => some .invalid
  | .error _ => none

end ActorHub.ValueType
