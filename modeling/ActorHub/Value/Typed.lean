import ActorHub.Format
import ActorHub.Text.Case
import ActorHub.Value.Pvt

/-!
# Typed values

What a declared type makes of a text.
-/

namespace ActorHub

/-- The 32 bits of an unsigned integer or a bitfield. -/
abbrev Word := BitVec 32

inductive TypedValue where
  | float (x : Binary64)
  | double (x : Binary64)
  | int (n : Int)
  | long (n : Int)
  | uint (w : Word)
  | string (s : String)
  /-- The declared spelling of the label and its place among the labels. -/
  | enum (label : String) (index : Nat)
  | bool (value : Bool) (label : String)
  | bits (w : Word)
  /-- The values of a compound group, in order. -/
  | compound (values : List TypedValue)
  | pvt (p : Pvt)
  /-- The text was the invalid sentinel of the type. -/
  | invalid
deriving Repr

namespace TypedValue

/-! ## Text -/

mutual

def display : TypedValue → String
  | float x | double x => FloatLayout.plain.render x
  | int n | long n => toString n
  | uint w | bits w => toString w.toNat
  | string s => s
  | enum label _ | bool _ label => label
  | compound values => "(" ++ ", ".intercalate (displayEach values) ++ ")"
  | pvt p => p.display
  | invalid => "(invalid)"

def displayEach : List TypedValue → List String
  | [] => []
  | v :: rest => v.display :: displayEach rest

end

/-! ## Parts -/

def isInvalid : TypedValue → Bool
  | invalid => true
  | _ => false

def toBinary64? : TypedValue → Option Binary64
  | float x | double x => some x
  | int n | long n => some (.ofInt n)
  | uint w | bits w => some (.ofInt w.toNat)
  | _ => none

def toInt? : TypedValue → Option Int
  | int n | long n => some n
  | uint w | bits w => some w.toNat
  | enum _ index => some index
  | bool value _ => some (if value then 1 else 0)
  | _ => none

def toText? : TypedValue → Option String
  | string s => some s
  | enum label _ | bool _ label => some label
  | _ => none

def toBool? : TypedValue → Option Bool
  | bool value _ => some value
  | _ => none

def toPvt? : TypedValue → Option Pvt
  | pvt p => some p
  | _ => none

def toCompound? : TypedValue → Option (List TypedValue)
  | compound values => some values
  | _ => none

/-- The number that a format is given. -/
def formatArg? : TypedValue → Option FormatArg
  | float x | double x => some (.float x)
  | int n | long n => some (.int n)
  | uint w | bits w => some (.int w.toNat)
  | _ => none

/-! ## Equality -/

mutual

/-- Equality of values of one kind. Labels of an enumeration are equal ignoring case, and booleans
are equal whatever their labels. -/
def equals : TypedValue → TypedValue → Bool
  | float a, float b | double a, double b => a.equals b
  | int a, int b | long a, long b => a == b
  | uint a, uint b | bits a, bits b => a == b
  | string a, string b => a == b
  | enum a _, enum b _ => Text.sameName a b
  | bool a _, bool b _ => a == b
  | compound as, compound bs => equalsEach as bs
  | pvt a, pvt b => a.equals b
  | invalid, invalid => true
  | _, _ => false

def equalsEach : List TypedValue → List TypedValue → Bool
  | [], [] => true
  | a :: as, b :: bs => a.equals b && equalsEach as bs
  | _, _ => false

end

/-- Whether a text spells the value. -/
def equalsText (v : TypedValue) (text : String) : Bool :=
  match v with
  | enum label _ => Text.sameName label text
  | string s => s == text
  | bool _ label => label == text
  | v => v.display == text

end TypedValue

end ActorHub
