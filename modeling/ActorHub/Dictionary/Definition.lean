import ActorHub.Dictionary
import ActorHub.Digest.Sha256
import ActorHub.Document.Reader

/-!
# Definitions

A dictionary is defined by a document that declares its keys and their types. Reading a definition
has two stages: `Definition.ofDocument?` finds the declarations in the document, and
`Definition.build` makes keys of them.
-/

namespace ActorHub

inductive ScalarKind where
  | float
  | double
  | int
  | long
  | uint
  | string
  | enum
  | bool
  | bits
deriving DecidableEq, Repr

inductive DeclaredKind where
  | scalar (kind : ScalarKind)
  | pvt
  | compound
  | byName
deriving DecidableEq, Repr

/-- How often a value is repeated. -/
inductive Repetition where
  | exactly (count : Nat)
  | range (min : Nat) (max : Option Nat)
deriving DecidableEq, Repr

structure TypeDeclaration where
  kind : DeclaredKind
  name : Option String
  help : Option String
  units : Option String
  invalid : Option String
  reprFormat : Option String
  strFormat : Option String
  labels : Option (List String)
  labelHelp : Option (List String)
  falseLabel : Option String
  trueLabel : Option String
  fields : Option (List String)
  types : Option (List TypeDeclaration)
  repetition : Option Repetition

structure KeyDeclaration where
  name : String
  types : List TypeDeclaration
  help : Option String
  refreshCommand : Option String
  caching : Option Bool
  unique : Option String

structure Definition where
  name : String
  version : Version
  keys : List KeyDeclaration

def ScalarKind.label : ScalarKind → String
  | float => "Float"
  | double => "Double"
  | int => "Int"
  | long => "Long"
  | uint => "UInt"
  | string => "String"
  | enum => "Enum"
  | bool => "Bool"
  | bits => "Bits"

namespace DeclaredKind

def ofName? : String → Option DeclaredKind
  | "Float" => some (.scalar .float)
  | "Double" => some (.scalar .double)
  | "Int" => some (.scalar .int)
  | "Long" => some (.scalar .long)
  | "UInt" => some (.scalar .uint)
  | "String" => some (.scalar .string)
  | "Enum" => some (.scalar .enum)
  | "Bool" => some (.scalar .bool)
  | "Bits" => some (.scalar .bits)
  | "PVT" => some .pvt
  | "Compound" => some .compound
  | "ByName" => some .byName
  | _ => none

/-- How an error names the kind. -/
def label : DeclaredKind → String
  | scalar kind => kind.label
  | pvt => "Pvt"
  | compound => "Compound"
  | byName => "ByName"

end DeclaredKind

/-! ## Keys of declarations -/

namespace TypeDeclaration

/-- Applies a step that may fail, if what it takes is declared. -/
def applying {α : Type} (x : Option α)
    (step : α → ValueType → Except ValueTypeError ValueType) (t : ValueType) :
    Except ValueTypeError ValueType :=
  match x with
  | some x => step x t
  | none => .ok t

/-- Attaches a text, if it is declared. -/
def attaching (x : Option String) (attach : String → ValueType → ValueType) (t : ValueType) :
    ValueType :=
  match x with
  | some x => attach x t
  | none => t

/-- The type of the declared kind, without metadata. -/
def plain (t : TypeDeclaration) : ScalarKind → Except ValueTypeError ValueType
  | .float => .ok (.ofKind .float)
  | .double => .ok (.ofKind .double)
  | .int => .ok (.ofKind .int)
  | .long => .ok (.ofKind .long)
  | .uint => .ok (.ofKind .uint)
  | .string => .ok (.ofKind .string)
  | .enum => ValueType.enumeration (t.labels.getD [])
  | .bool =>
    match t.falseLabel, t.trueLabel with
    | some falseLabel, some trueLabel => .ok (.ofKind (.bool falseLabel trueLabel))
    | _, _ => .error .missingLabels
  | .bits => ValueType.bitfield (t.fields.getD [])

def withMetadata (t : TypeDeclaration) (type : ValueType) : Except ValueTypeError ValueType := do
  let type ← applying t.name ValueType.withName type
  let type := attaching t.help ValueType.withHelp type
  let type := attaching t.units ValueType.withUnits type
  let type := attaching t.invalid ValueType.withInvalid type
  let type ← applying t.reprFormat ValueType.withReprFormat type
  let type ← applying t.strFormat ValueType.withStrFormat type
  applying t.labelHelp ValueType.withLabelHelp type

def scalar (t : TypeDeclaration) (kind : ScalarKind) : Except DictionaryError ValueType :=
  (t.plain kind >>= t.withMetadata).mapError .type

/-- Refuses a repetition where there can be none. -/
def checkUnrepeated (t : TypeDeclaration) : Except DictionaryError Unit :=
  if t.repetition.isSome then .error (.repeatedKind t.kind.label) else .ok ()

/-- A member of a group, which is a scalar and does not repeat. -/
def groupMember (t : TypeDeclaration) : Except DictionaryError ValueType :=
  match t.kind with
  | .scalar kind => do
    t.checkUnrepeated
    t.scalar kind
  | kind => .error (.groupMember kind.label)

def repeated (type : ValueType) : Option Repetition → Except DictionaryError ValueSpec
  | none => .ok (.single type)
  | some (.exactly count) => .ok (.repeated (.exactly type count))
  | some (.range min max) => ((Repeated.make type min max).map .repeated).mapError .type

/-- A group under the declared name. -/
def named (t : TypeDeclaration) (c : Compound) : ValueSpec :=
  .compound { c with name := t.name, help := t.help }

def toSpec (t : TypeDeclaration) : Except DictionaryError ValueSpec :=
  match t.kind with
  | .scalar kind => do repeated (← t.scalar kind) t.repetition
  | .pvt => do
    t.checkUnrepeated
    return t.named Compound.motion
  | .compound => do
    t.checkUnrepeated
    let some members := t.types | throw .memberlessGroup
    return t.named (.ofTypes (← members.mapM groupMember))
  | .byName => do
    t.checkUnrepeated
    let some name := t.name | throw .namelessReference
    return .byName name

end TypeDeclaration

def KeyDeclaration.build (k : KeyDeclaration) : Except DictionaryError Key := do
  let key ← Key.make k.name (← k.types.mapM TypeDeclaration.toSpec)
  return { key with
    help := k.help
    refreshCommand := k.refreshCommand
    caching := k.caching
    unique := k.unique }

namespace Definition

/-- The dictionary, its keys built and added one by one. -/
def build (d : Definition) : Except DictionaryError Dictionary := do
  let start ← Dictionary.make d.name d.version
  d.keys.foldlM (fun dictionary k => do dictionary.add (← k.build)) start

/-! ## Declarations in documents -/

def texts? : Document → Option (List String) :=
  Document.arrayOf? Document.text?

/-- A kind is written as its name, or as an object that gives the name a null. -/
def kind? : Document → Option DeclaredKind
  | .text s => DeclaredKind.ofName? s
  | .object [(some s, .null)] => DeclaredKind.ofName? s
  | _ => none

def repetition? : Document → Option Repetition
  | .natural n => some (.exactly n)
  | .array [.natural min, .null] => some (.range min none)
  | .array [.natural min, .natural max] => some (.range min (some max))
  | _ => none

open Document (FieldRule record? optional orElse text? bool?)

def typeRules : List FieldRule :=
  [.required "type", .nullish "name", .nullish "help", .nullish "units", .nullish "invalid",
    .nullish "repr_fmt", .nullish "str_fmt", .nullish "labels", .nullish "label_help",
    .nullish "false", .nullish "true", .nullish "fields", .nullish "types", .nullish "repeat"]

/-- Declarations are looked for no deeper than a level. -/
def typeDeclaration? : Nat → Document → Option TypeDeclaration
  | 0, _ => none
  | level + 1, d => do
    match ← record? true typeRules d with
    | [kind, name, help, units, invalid, reprFormat, strFormat, labels, labelHelp, falseLabel,
        trueLabel, fields, types, repetition] =>
      return {
        kind := ← kind? (← kind)
        name := ← optional text? name
        help := ← optional text? help
        units := ← optional text? units
        invalid := ← optional text? invalid
        reprFormat := ← optional text? reprFormat
        strFormat := ← optional text? strFormat
        labels := ← optional texts? labels
        labelHelp := ← optional texts? labelHelp
        falseLabel := ← optional text? falseLabel
        trueLabel := ← optional text? trueLabel
        fields := ← optional texts? fields
        types := ← optional (Document.arrayOf? (typeDeclaration? level)) types
        repetition := ← optional repetition? repetition }
    | _ => none

/-- Documents nest no deeper than this. -/
def maxDepth : Nat := 127

def keyRules : List FieldRule :=
  [.required "name", .defaulted "types", .nullish "help", .nullish "refresh_cmd",
    .nullish "do_cache", .nullish "unique"]

def keyDeclaration? (d : Document) : Option KeyDeclaration := do
  match ← record? true keyRules d with
  | [name, types, help, refreshCommand, caching, unique] =>
    return {
      name := ← text? (← name)
      types := ← orElse [] (Document.arrayOf? (typeDeclaration? maxDepth)) types
      help := ← optional text? help
      refreshCommand := ← optional text? refreshCommand
      caching := ← optional bool? caching
      unique := ← optional text? unique }
  | _ => none

/-- Parts of a version are words. -/
def version? : Document → Option Version
  | .array [.natural major, .natural minor] =>
    if major < UInt32.size && minor < UInt32.size then some ⟨.ofNat major, .ofNat minor⟩ else none
  | _ => none

def rules : List FieldRule :=
  [.required "name", .required "version", .defaulted "keys"]

def ofDocument? (d : Document) : Option Definition := do
  if maxDepth < d.depth then none
  else
    match ← record? true rules d with
    | [name, version, keys] =>
      return {
        name := ← text? (← name)
        version := ← version? (← version)
        keys := ← orElse [] (Document.arrayOf? keyDeclaration?) keys }
    | _ => none

end Definition

/-- The dictionary that a source defines under a name. It carries the digest of the source. -/
def Dictionary.ofSource (name source : String) : Except DictionaryError Dictionary := do
  let some definition := (Document.read source).bind Definition.ofDocument?
    | throw (.unreadable name)
  if definition.name ≠ name then throw (.nameMismatch name definition.name)
  let d ← definition.build.mapError (.badFormat name)
  return { d with checksum := some (Sha256.ofText source) }

end ActorHub
