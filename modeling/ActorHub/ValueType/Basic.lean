import ActorHub.ValueType.BitField

/-!
# Value types

A value type declares how the value of a keyword is read, shown and described. It is built from a
kind, and metadata is added step by step; a step that does not fit the kind fails.
-/

namespace ActorHub

inductive ValueKind where
  /-- Single precision range, double precision storage. -/
  | float
  | double
  | int
  | long
  | uint
  | string
  | enum (labels : List String) (labelHelp : Option (List String))
  | bool (falseLabel trueLabel : String)
  | bits (layout : BitField.Layout)
deriving DecidableEq, Repr

namespace ValueKind

def typeName : ValueKind → String
  | float => "Float"
  | double => "Double"
  | int => "Int"
  | long => "Long"
  | uint => "UInt"
  | string => "String"
  | enum .. => "Enum"
  | bool .. => "Bool"
  | bits _ => "Bits"

/-- The scalar family. -/
def baseType : ValueKind → String
  | float | double => "float"
  | string | enum .. => "str"
  | _ => "int"

/-- The column type under which archives store the value. -/
def storage : ValueKind → String
  | float => "flt4"
  | double => "flt8"
  | int | uint | bits _ => "int4"
  | long => "int8"
  | string => "text"
  | enum .. | bool .. => "int2"

end ValueKind

structure ValueType where
  kind : ValueKind
  name : Option String
  help : Option String
  units : Option String
  /-- The text that stands for no value, in lower case. -/
  invalid : Option String
  reprFormat : Option Format
  strFormat : Option Format
deriving DecidableEq, Repr

namespace ValueType

/-! ## Kinds -/

def ofKind (kind : ValueKind) : ValueType :=
  ⟨kind, none, none, none, none, none, none⟩

def enumeration (labels : List String) : Except ValueTypeError ValueType :=
  if labels = [] then .error .missingLabels else .ok (ofKind (.enum labels none))

def bitfield (specs : List String) : Except ValueTypeError ValueType :=
  (BitField.Layout.ofSpecs specs).map fun layout => ofKind (.bits layout)

def typeName (t : ValueType) : String :=
  t.kind.typeName

/-! ## Metadata -/

/-- An ASCII letter, then letters, digits and underscores. -/
def isTypeName : List Char → Bool
  | [] => false
  | c :: rest => Text.isAsciiLetter c && rest.all BitField.isNameChar

def withName (name : String) (t : ValueType) : Except ValueTypeError ValueType :=
  if isTypeName name.toList then .ok { t with name := some name } else .error (.invalidName name)

def withHelp (help : String) (t : ValueType) : ValueType :=
  { t with help := some help }

def withUnits (units : String) (t : ValueType) : ValueType :=
  { t with units := some units }

def withInvalid (invalid : String) (t : ValueType) : ValueType :=
  { t with invalid := some (Text.lowercase invalid) }

def withReprFormat (source : String) (t : ValueType) : Except ValueTypeError ValueType :=
  (Format.read "reprFmt" source).map fun f => { t with reprFormat := some f }

/-- Booleans and bitfields have string forms of their own and ignore the format, once it is seen
to be one. -/
def withStrFormat (source : String) (t : ValueType) : Except ValueTypeError ValueType :=
  (Format.read "strFmt" source).map fun f =>
    match t.kind with
    | .bool .. | .bits _ => t
    | _ => { t with strFormat := some f }

/-- Help for every label of an enumeration. -/
def withLabelHelp (help : List String) (t : ValueType) : Except ValueTypeError ValueType :=
  match t.kind with
  | .enum labels _ =>
    if help.length = labels.length then .ok { t with kind := .enum labels (some help) }
    else .error .labelHelpCount
  | _ => .error (.invalidMetadata "labelHelp" t.typeName)

/-! ## Bit fields -/

def layout (t : ValueType) : BitField.Layout :=
  match t.kind with
  | .bits layout => layout
  | _ => .empty

/-- The first field with a name. -/
def field (t : ValueType) (name : String) : Except ValueError BitField :=
  match t.layout.fields.find? (·.name == name) with
  | some f => .ok f
  | none => .error (.noSuchField name)

def getField (t : ValueType) (v : Word) (name : String) : Except ValueError Word :=
  (t.field name).map (·.get v)

def setField (t : ValueType) (v : Word) (name : String) (x : Word) : Except ValueError Word :=
  (t.field name).map (·.set v x)

/-- Each named field in binary. -/
def bitsRepr (t : ValueType) (v : Word) : String :=
  let part (f : BitField) := f.name ++ "=" ++ binary (f.get v).toNat f.width
  "(" ++ ",".intercalate (t.layout.fields.map part) ++ ")"

/-- The value in binary, as wide as the declared fields. -/
def bitsString (t : ValueType) (v : Word) : String :=
  binary v.toNat t.layout.width

end ValueType

end ActorHub
