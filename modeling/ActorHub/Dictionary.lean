import ActorHub.Key

/-!
# Keys dictionaries

The keys of one actor, in the order they were declared. Names of keys are looked up in lower case.
A key may refer to types that keys before it declared by name; `add` replaces the references, so
that the keys of a dictionary hold none.
-/

namespace ActorHub

structure Version where
  major : UInt32
  minor : UInt32
deriving DecidableEq, Repr

structure Dictionary where
  name : String
  version : Version
  keys : List Key
  types : ValueShape.NamedTypes
  /-- The digest of the definition, for a dictionary that was built from one. -/
  checksum : Option String

/-- The name under which a dictionary finds the key. -/
def Key.registeredName (k : Key) : String :=
  Text.lowercase k.uniqueName

namespace Dictionary

def make (name : String) (version : Version) : Except DictionaryError Dictionary :=
  if name = Text.lowercase name then .ok ⟨name, version, [], [], none⟩
  else .error (.invalidName name)

/-- The key of a name. -/
def get? (d : Dictionary) (name : String) : Option Key :=
  d.keys.find? (·.registeredName == Text.lowercase name)

def contains (d : Dictionary) (name : String) : Bool :=
  (d.get? name).isSome

def lookup (d : Dictionary) (name : String) : Except DictionaryError Key :=
  match d.get? name with
  | some k => .ok k
  | none => .error (.noSuchKey name)

/-- Adds a key whose name is new, with its references replaced. The types it declares by name serve
the keys after it. -/
def add (d : Dictionary) (k : Key) : Except DictionaryError Dictionary :=
  if d.contains k.uniqueName then .error (.notUnique k.uniqueName)
  else (k.shape.resolve d.types).map fun shape =>
    { d with keys := d.keys ++ [{ k with shape }], types := k.shape.declared ++ d.types }

/-- Adds keys up to the first that fails, and gives its fault. -/
def extend (d : Dictionary) : List Key → Dictionary × Option DictionaryError
  | [] => (d, none)
  | k :: rest =>
    match d.add k with
    | .ok d => d.extend rest
    | .error e => (d, some e)

/-- A dictionary of the given keys. -/
def ofKeys (name : String) (version : Version) (keys : List Key) :
    Except DictionaryError Dictionary := do
  keys.foldlM add (← make name version)

def size (d : Dictionary) : Nat :=
  d.keys.length

/-- Every key described, sorted by the names under which they are found. -/
def describe (d : Dictionary) : String :=
  let sorted := d.keys.mergeSort fun a b => a.registeredName ≤ b.registeredName
  "Keys Dictionary for \"" ++ d.name ++ "\" version (" ++ toString d.version.major.toNat ++ ", "
    ++ toString d.version.minor.toNat ++ ")\n" ++ String.join (sorted.map fun k => "\n" ++ k.describe)

end Dictionary

end ActorHub
