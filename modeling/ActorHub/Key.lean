import ActorHub.Message.Keyword
import ActorHub.ValueShape

/-!
# Keys

A key declares a keyword: its name, the values expected of it, and how an actor is asked for it.
-/

namespace ActorHub

structure Key where
  name : String
  shape : ValueShape
  help : Option String
  /-- The command that makes the actor send the keyword again. -/
  refreshCommand : Option String
  caching : Option Bool
  /-- The name to register under instead, for a keyword that is declared twice. -/
  unique : Option String

namespace Key

def make (name : String) (specs : List ValueSpec) : Except DictionaryError Key :=
  (ValueShape.ofSpecs specs).map fun shape => ⟨name, shape, none, none, none, none⟩

/-- The name the key is registered under. -/
def uniqueName (k : Key) : String :=
  k.unique.getD k.name

/-- Whether a value seen before may stand in for asking the actor: unless declared, if there are
values and no command refreshes them. -/
def isCached (k : Key) : Bool :=
  k.caching.getD (k.shape.counts.most != some 0 && k.refreshCommand.isNone)

/-- The keyword with its values typed, if it has the name of the key, ignoring case, and values
that fit. -/
def consume (k : Key) (keyword : Keyword) : Option Keyword :=
  if Text.sameName keyword.name k.name then
    (k.shape.consume keyword.values).map fun values => { keyword with values, matched := true }
  else none

/-- A keyword with the name of the key and values that fit. -/
def create (k : Key) (values : Values) : Except DictionaryError Keyword := do
  let keyword ← (Keyword.make k.name values).mapError .message
  match k.consume keyword with
  | some keyword => return keyword
  | none => throw (.valueMismatch k.name (values.map Value.display))

def display (k : Key) : String :=
  "Key(" ++ k.name ++ ")"

def describe (k : Key) : String :=
  let help := match k.help with
    | some help => (Descriptor.mk "Description" help).render ++ "\n"
    | none => ""
  Descriptor.alignLabel "Keyword" ++ k.name ++ "\n" ++ help ++ k.shape.describe

end Key

end ActorHub
