import ActorHub.Text.Case
import ActorHub.Value.Typed
import ActorHub.ValueType.Error

/-!
# Bit fields

A bitfield value is divided into named runs of bits, least significant first. A declaration lists
`name:width` specs; a spec without a name reserves padding and one without a width takes one bit.
-/

namespace ActorHub

/-- A named run of bits. -/
structure BitField where
  name : String
  offset : Nat
  width : Nat
deriving DecidableEq, Repr

/-- The lowest bits of a number, most significant first. -/
def binaryDigits (n width : Nat) : List Char :=
  (List.range width).reverse.map fun i => if n.testBit i then '1' else '0'

def binary (n width : Nat) : String :=
  String.ofList (binaryDigits n width)

namespace BitField

/-- As many ones as the field is wide, at the lowest bits. -/
def mask (f : BitField) : Word :=
  BitVec.ofNat 32 (Nat.pow 2 f.width - 1)

def get (f : BitField) (v : Word) : Word :=
  (v >>> f.offset) &&& f.mask

/-- The value with the field replaced. Bits beyond the width of the field are dropped. -/
def set (f : BitField) (v x : Word) : Word :=
  (v &&& ~~~(f.mask <<< f.offset)) ||| ((x &&& f.mask) <<< f.offset)

/-- The places of the field as ones among zeros. -/
def pattern (f : BitField) (width : Nat) : String :=
  binary ((Nat.pow 2 f.width - 1) * Nat.pow 2 f.offset) width

/-! ## Declarations -/

/-- The most bits a bitfield holds. -/
def maxWidth : Nat := 32

/-- Widths are written below this bound; a larger number is too wide in any case. -/
def widthBound : Nat := UInt32.size

def isNameChar (c : Char) : Bool :=
  Text.isAsciiLetter c || Text.isAsciiDigit c || c = '_'

/-- The name of a spec, empty for padding, and the digits of its width, if any. -/
def splitSpec (cs : List Char) : Option (List Char × Option (List Char)) :=
  let name := cs.takeWhile isNameChar
  match cs.dropWhile isNameChar with
  | [] => some (name, none)
  | ':' :: digits =>
    if digits != [] && digits.all Text.isAsciiDigit then some (name, some digits) else none
  | _ => none

/-- The fields declared so far, and the offset of the next. -/
structure Layout where
  fields : List BitField
  width : Nat
deriving DecidableEq, Repr

def Layout.empty : Layout := ⟨[], 0⟩

/-- Places one spec behind the fields declared before it. -/
def Layout.add (l : Layout) (spec : String) : Except ValueTypeError Layout := do
  let some (name, digits) := splitSpec spec.toList | throw (.invalidBitfieldSpec spec)
  let width := match digits with
    | none => 1
    | some ds => (Number.readDigits? 10 ds).getD 0
  if widthBound ≤ width then throw .bitfieldTooWide
  if String.ofList name = "native" then throw .nativeBitfield
  if maxWidth < l.width + width then throw .bitfieldTooWide
  let fields := if name = [] then l.fields else l.fields ++ [⟨String.ofList name, l.width, width⟩]
  return ⟨fields, l.width + width⟩

/-- The layout of a list of specs, of which there is at least one. -/
def Layout.ofSpecs (specs : List String) : Except ValueTypeError Layout :=
  match specs with
  | [] => .error .missingBitfields
  | specs => specs.foldlM Layout.add Layout.empty

end BitField

end ActorHub
