import ActorHub.Dictionary.SearchPath

/-!
# Registry

The dictionaries in use, each under its own name. Registering a dictionary under a name that is
taken replaces the one before it; an edition number tells the two apart.
-/

namespace ActorHub

structure Registered where
  dictionary : Dictionary
  edition : Nat

structure Registry where
  entries : List Registered
  /-- The number of dictionaries registered so far. -/
  editions : Nat

namespace Registry

def empty : Registry := ⟨[], 0⟩

def get? (r : Registry) (name : String) : Option Registered :=
  r.entries.find? (·.dictionary.name == name)

def remove (r : Registry) (name : String) : Registry :=
  { r with entries := r.entries.filter (·.dictionary.name != name) }

def register (r : Registry) (d : Dictionary) : Registry × Registered :=
  let entry := ⟨d, r.editions⟩
  (⟨entry :: (r.remove d.name).entries, r.editions + 1⟩, entry)

def names (r : Registry) : List String :=
  SearchPath.sortNames (r.entries.map (·.dictionary.name))

/-- Registers a dictionary of the given keys. -/
def declare (r : Registry) (name : String) (version : Version) (keys : List Key) :
    Except DictionaryError (Registry × Registered) :=
  (Dictionary.ofKeys name version keys).map r.register

/-- The registered dictionary of a name, which is read from its definition when there is none or
when a fresh one is asked for. -/
def load (r : Registry) (dirs : SearchPath) (fs : Files) (name : String) (force : Bool) :
    Except DictionaryError (Registry × Registered) :=
  match if force then none else r.get? name with
  | some entry => .ok (r, entry)
  | none => (dirs.read fs name).map r.register

end Registry

end ActorHub
