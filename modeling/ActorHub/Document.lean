/-!
# Documents

The JSON documents that definitions and configurations are written in, and the rules by which a
record is found in one: an object with the fields by name, or an array with the fields in order.
-/

namespace ActorHub

inductive Document where
  | null
  | bool (b : Bool)
  /-- A whole number below 2 to the 64, written without a point or an exponent. -/
  | natural (n : Nat)
  /-- Any other number. -/
  | number
  | text (s : String)
  /-- A text with half of a surrogate pair, which is no Unicode text. -/
  | brokenText
  | array (items : List Document)
  /-- The members in order; a name may occur more than once and may be broken. -/
  | object (members : List (Option String × Document))

namespace Document

mutual

/-- How many arrays and objects are open at the deepest place. -/
def depth : Document → Nat
  | array items => depthEach items + 1
  | object members => depthMembers members + 1
  | _ => 0

def depthEach : List Document → Nat
  | [] => 0
  | d :: rest => max d.depth (depthEach rest)

def depthMembers : List (Option String × Document) → Nat
  | [] => 0
  | (_, d) :: rest => max d.depth (depthMembers rest)

end

/-! ## Plain values -/

def text? : Document → Option String
  | text s => some s
  | _ => none

def bool? : Document → Option Bool
  | bool b => some b
  | _ => none

def natural? : Document → Option Nat
  | natural n => some n
  | _ => none

/-- The items of an array, each of them read. -/
def arrayOf? {α : Type} (read : Document → Option α) : Document → Option (List α)
  | array items => items.mapM read
  | _ => none

/-- A value that may be missing, but is well-formed where it is not. -/
def optional {α : Type} (read : Document → Option α) : Option Document → Option (Option α)
  | none => some none
  | some d => (read d).map some

/-- A value with a default for where it is missing. -/
def orElse {α : Type} (default : α) (read : Document → Option α) : Option Document → Option α
  | none => some default
  | some d => read d

/-! ## Records -/

/-- Where a field may be left out. -/
inductive Omission where
  | nowhere
  | inObjects
  | anywhere
deriving DecidableEq

structure FieldRule where
  name : String
  omission : Omission
  /-- Whether a null stands for no value. -/
  nullable : Bool

def FieldRule.required (name : String) : FieldRule := ⟨name, .nowhere, false⟩

/-- May be null, and may be left out where fields have names. -/
def FieldRule.nullish (name : String) : FieldRule := ⟨name, .inObjects, true⟩

def FieldRule.defaulted (name : String) : FieldRule := ⟨name, .anywhere, false⟩

/-- The value of a field that is present, where a null may stand for none. -/
def FieldRule.present (r : FieldRule) : Document → Option Document
  | null => if r.nullable then none else some null
  | d => some d

/-- The field among the members. -/
def memberOf? (members : List (Option String × Document)) (r : FieldRule) :
    Option (Option Document) :=
  match members.lookup (some r.name) with
  | some d => some (r.present d)
  | none => if r.omission = .nowhere then none else some none

/-- The fields in order, of which the last may be left out. -/
def itemsAs? : List FieldRule → List Document → Option (List (Option Document))
  | [], [] => some []
  | [], _ :: _ => none
  | r :: rules, [] =>
    if r.omission = .anywhere then (itemsAs? rules []).map (none :: ·) else none
  | r :: rules, d :: items => (itemsAs? rules items).map (r.present d :: ·)

/-- Whether every name can be read, and no field is named twice. -/
def namesAreClear (rules : List FieldRule) (members : List (Option String × Document)) : Bool :=
  members.all (·.1.isSome) && rules.all fun r => members.countP (·.1 == some r.name) ≤ 1

def namesAreKnown (rules : List FieldRule) (members : List (Option String × Document)) : Bool :=
  members.all fun m => rules.any fun r => m.1 == some r.name

/-- The fields of a record in the order of the rules. Members beyond the rules are refused if
closed, and ignored otherwise. -/
def record? (closed : Bool) (rules : List FieldRule) : Document → Option (List (Option Document))
  | object members =>
    if namesAreClear rules members && (!closed || namesAreKnown rules members) then
      rules.mapM (memberOf? members)
    else none
  | array items => itemsAs? rules items
  | _ => none

end Document

end ActorHub
