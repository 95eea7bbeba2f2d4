import ActorHub.Text.Wrap
import ActorHub.ValueType.Basic

/-!
# Showing values and types

The string form of a value under its type, its detailed form, and the plain text description of
the type itself.
-/

namespace ActorHub.ValueType

/-- The value under a format, if there is one and the value is a number. -/
def formatted? (f : Option Format) (v : TypedValue) : Option String :=
  match f, v.formatArg? with
  | some f, some arg => some (f.render arg)
  | _, _ => none

/-- The string format, else the detailed format, else the natural form. -/
def formatValue (t : ValueType) (v : TypedValue) : String :=
  match t.kind with
  | .bool .. => v.display
  | _ => (formatted? (t.strFormat.or t.reprFormat) v).getD v.display

/-- The value as the detailed form shows it when no format is declared. -/
def plainRepr : TypedValue → String
  | .float x | .double x => FloatLayout.plain.render x
  | .string s | .enum s _ => "'" ++ s ++ "'"
  | .bool value _ => if value then "1" else "0"
  | v => v.display

/-- The type, the value and its units. -/
def reprValue (t : ValueType) (v : TypedValue) : String :=
  match v with
  | .invalid => v.display
  | .bits w => t.bitsRepr w
  | v =>
    let units := match t.units with
      | some units => " " ++ units
      | none => ""
    t.typeName ++ "(" ++ (formatted? t.reprFormat v).getD (plainRepr v) ++ units ++ ")"

/-! ## Descriptions -/

def optional (label : String) (value : Option String) : List Descriptor :=
  (value.map (Descriptor.mk label)).toList

def labelDescriptor (help : Option (List String)) (label : String) (i : Nat) : Descriptor :=
  let text := match help.bind (·[i]?) with
    | some help => label ++ " (" ++ help ++ ")"
    | none => label
  ⟨"Value-" ++ toString i, text⟩

def kindDescriptors (t : ValueType) : List Descriptor :=
  match t.kind with
  | .enum labels help => labels.mapIdx fun i label => labelDescriptor help label i
  | .bool falseLabel trueLabel => [⟨"False", falseLabel⟩, ⟨"True", trueLabel⟩]
  | .bits layout => layout.fields.mapIdx fun i f =>
      ⟨"Field-" ++ toString i, f.pattern layout.width ++ " " ++ f.name⟩
  | _ => optional "Units" t.units

def descriptors (t : ValueType) : List Descriptor :=
  let typeText := t.typeName ++ " (" ++ t.kind.baseType ++ "," ++ t.kind.storage ++ ")"
  optional "Name" t.name ++ optional "Description" t.help ++ [⟨"Type", typeText⟩]
    ++ t.kindDescriptors ++ optional "Invalid" t.invalid

def describe (t : ValueType) : String :=
  Descriptor.renderAll t.descriptors

end ActorHub.ValueType
