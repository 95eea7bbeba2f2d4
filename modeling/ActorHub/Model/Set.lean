import ActorHub.Model

/-!
# Model sets

The models of the tracked actors. A reply is applied to the model of its actor; a reply from an
actor with the keys prefix belongs to the actor named behind the prefix.
-/

namespace ActorHub

structure ModelSet where
  /-- The models under the names of their actors. -/
  models : List (String × KeywordModel)
  keysPrefix : String

namespace ModelSet

/-- The prefix of the actor that answers requests for keys, unless configured otherwise. -/
def defaultKeysPrefix : String := "keys_"

def empty : ModelSet := ⟨[], defaultKeysPrefix⟩

def get? (s : ModelSet) (actor : String) : Option KeywordModel :=
  s.models.lookup actor

/-- The tracked actors, sorted. -/
def actors (s : ModelSet) : List String :=
  SearchPath.sortNames (s.models.map Prod.fst)

def size (s : ModelSet) : Nat :=
  s.models.length

/-- Tracks a model under a name, in place of the one before it. -/
def put (s : ModelSet) (actor : String) (m : KeywordModel) : ModelSet :=
  { s with models := (actor, m) :: s.models.filter (·.1 != actor) }

def insert (s : ModelSet) (m : KeywordModel) : ModelSet :=
  s.put m.actor m

/-- Loads and tracks the models of actors up to the first that fails. -/
def extendBy (dirs : SearchPath) (fs : Files) :
    Registry → ModelSet → List String → Registry × Except DictionaryError ModelSet
  | registry, s, [] => (registry, .ok s)
  | registry, s, actor :: rest =>
    match KeywordModel.load registry dirs fs actor with
    | .error e => (registry, .error e)
    | .ok (registry, m) => extendBy dirs fs registry (s.insert m) rest

def load (registry : Registry) (dirs : SearchPath) (fs : Files) (actors : List String) :
    Registry × Except DictionaryError ModelSet :=
  extendBy dirs fs registry empty actors

/-! ## Replies -/

/-- What follows a prefix that is not empty. -/
def afterPrefix? (start cs : List Char) : Option (List Char) :=
  if start != [] && start.isPrefixOf cs then some (cs.drop start.length) else none

/-- The tracked actor that replies of an actor belong to: what stands between the keys prefix and
the next underscore. -/
def modelActor (s : ModelSet) (actor : String) : String :=
  match afterPrefix? s.keysPrefix.toList actor.toList with
  | some rest => String.ofList (rest.takeWhile (· != '_'))
  | none => actor

/-- What a reply did to the models. -/
structure Routed where
  models : ModelSet
  /-- The number of keywords stored, if the actor is tracked. -/
  count : Option Nat
  notices : List Notice

def applyReply (s : ModelSet) (r : Reply) : Routed :=
  let actor := s.modelActor r.header.actor
  match s.get? actor with
  | none => ⟨s, none, []⟩
  | some m =>
    let applied := m.applyReply r
    ⟨s.put actor applied.model, some applied.count, applied.notices⟩

end ModelSet

end ActorHub
