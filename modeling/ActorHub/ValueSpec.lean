import ActorHub.ValueType.Describe
import ActorHub.ValueType.Read

/-!
# Value specs

The entries of the value sequence a key expects: one value, a value repeated in a row, a group of
values taken together, or a type that an earlier key of the dictionary declared under a name. Single
types and groups may have a name; `NamedType` is what later keys may refer to.
-/

namespace ActorHub

/-- A type expected between `min` and `max` times in a row, without a bound where there is no
`max`. -/
structure Repeated where
  type : ValueType
  min : Nat
  max : Option Nat
  min_le_max : ∀ m ∈ max, min ≤ m
deriving DecidableEq

namespace Repeated

def make (type : ValueType) (min : Nat) (max : Option Nat) : Except ValueTypeError Repeated :=
  if h : ∀ m ∈ max, min ≤ m then .ok ⟨type, min, max, h⟩ else .error .repeatRange

def exactly (type : ValueType) (count : Nat) : Repeated :=
  ⟨type, count, some count, by simp⟩

def isFixed (r : Repeated) : Bool :=
  r.max == some r.min

def display (r : Repeated) : String :=
  let count := match r.max with
    | some max =>
      if max = r.min then toString r.min else "(" ++ toString r.min ++ "," ++ toString max ++ ")"
    | none => "(" ++ toString r.min ++ ",)"
  r.type.typeName ++ "*" ++ count

def repeatText (r : Repeated) : String :=
  let times := if r.min = 1 then "once" else toString r.min ++ " times"
  match r.max with
  | some max => if max = r.min then times else toString r.min ++ "-" ++ toString max ++ " times"
  | none => "at least " ++ times

def descriptors (r : Repeated) : List Descriptor :=
  ⟨"Repeated", r.repeatText⟩ :: r.type.descriptors

end Repeated

/-- How the values of a group become one value. -/
inductive Wrapper where
  | tuple
  | pvt
  | custom (wrap : List TypedValue → TypedValue)

/-- Component `i` of a triplet; not-a-number where there is no number. -/
def Wrapper.component (values : List TypedValue) (i : Nat) : Binary64 :=
  (values[i]?.bind TypedValue.toBinary64?).getD .nan

def Wrapper.apply (values : List TypedValue) : Wrapper → TypedValue
  | tuple => .compound values
  | pvt => .pvt ⟨component values 0, component values 1, component values 2⟩
  | custom wrap => wrap values

/-- A group of values taken together, in order. -/
structure Compound where
  types : List ValueType
  name : Option String
  help : Option String
  wrapper : Wrapper

namespace Compound

def ofTypes (types : List ValueType) : Compound :=
  ⟨types, none, none, .tuple⟩

/-- A position in degrees, a velocity and a time, wrapped as a triplet. -/
def motion : Compound :=
  let member (kind : ValueKind) (name units : String) : ValueType :=
    { ValueType.ofKind kind with name := some name, units := some units }
  { types := [member .float "position" "deg", member .float "velocity" "deg/s",
      member .double "time" "MJD-secs(TAI)"]
    name := none
    help := none
    wrapper := .pvt }

def size (c : Compound) : Nat :=
  c.types.length

def wrap (c : Compound) (values : List TypedValue) : TypedValue :=
  c.wrapper.apply values

def display (c : Compound) : String :=
  "CompoundValueType(" ++ ", ".intercalate (c.types.map ValueType.typeName) ++ ")"

def memberDescriptors (type : ValueType) (i : Nat) : List Descriptor :=
  ⟨"Subtype-" ++ toString i, "".pushn '-' 40⟩ :: type.descriptors

def descriptors (c : Compound) : List Descriptor :=
  ValueType.optional "Name" c.name ++ ValueType.optional "Description" c.help
    ++ (c.types.mapIdx fun i type => memberDescriptors type i).flatten

end Compound

inductive ValueSpec where
  | single (type : ValueType)
  | repeated (r : Repeated)
  | compound (c : Compound)
  | byName (name : String)

namespace ValueSpec

/-- The name under which later keys may refer to the entry. Repeated entries have none. -/
def name? : ValueSpec → Option String
  | single type => type.name
  | compound c => c.name
  | repeated _ | byName _ => none

/-- Whether the entry stands for a type that is still to be looked up. -/
def isReference : ValueSpec → Bool
  | byName _ => true
  | _ => false

/-- Whether the entry takes the same number of values each time. -/
def isFixed : ValueSpec → Bool
  | repeated r => r.isFixed
  | single _ | compound _ | byName _ => true

def reference (name : String) : String :=
  "ByName(\"" ++ name ++ "\")"

def display : ValueSpec → String
  | single type => type.typeName
  | repeated r => r.display
  | compound c => c.display
  | byName name => reference name

def descriptors : ValueSpec → List Descriptor
  | single type => type.descriptors
  | repeated r => r.descriptors
  | compound c => c.descriptors
  | byName name => [⟨"Type", reference name⟩]

def describe (s : ValueSpec) : String :=
  Descriptor.renderAll s.descriptors

end ValueSpec

/-- A type that later keys may refer to by name. -/
inductive NamedType where
  | single (type : ValueType)
  | compound (c : Compound)

namespace NamedType

def toSpec : NamedType → ValueSpec
  | single type => .single type
  | compound c => .compound c

theorem isFixed_toSpec (t : NamedType) : t.toSpec.isFixed = true := by
  cases t <;> rfl

end NamedType

/-- The name an entry declares, and the type it declares under it. -/
def ValueSpec.declared? : ValueSpec → Option (String × NamedType)
  | single type => type.name.map fun n => (n, .single type)
  | compound c => c.name.map fun n => (n, .compound c)
  | repeated _ | byName _ => none

end ActorHub
