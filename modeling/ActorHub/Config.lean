import ActorHub.Dictionary.SearchPath
import ActorHub.Job.Reply
import ActorHub.Model.Set

/-!
# Configuration

The settings of a session: where dictionaries are found, how jobs are built, and whose models are
tracked. Every setting has a default, so any part of the document may be left out.
-/

namespace ActorHub

structure HubConfig where
  searchPath : SearchPath
  /-- In milliseconds; without it jobs do not time out. -/
  defaultTimeout : Option Nat
  /-- The keyword under which texts are written. -/
  defaultKeyword : String
  commander : String
  keysPrefix : String
  /-- The actors whose models are tracked. -/
  tracked : List String
deriving DecidableEq, Repr

inductive ConfigError where
  | unreadableFile
  /-- The text is no configuration. -/
  | malformed
deriving DecidableEq, Repr

namespace HubConfig

def defaultCommander : String := "hub.hub"

def default : HubConfig where
  searchPath := []
  defaultTimeout := none
  defaultKeyword := Content.defaultKeyword
  commander := defaultCommander
  keysPrefix := ModelSet.defaultKeysPrefix
  tracked := []

open Document (FieldRule record? orElse text? natural?)

/-- A section may have more settings than are known. Those that are missing have no document. -/
def section? (rules : List FieldRule) (d : Option Document) : Option (List (Option Document)) :=
  orElse (rules.map fun _ => none) (record? false rules) d

def texts? : Document → Option (List String) :=
  Document.arrayOf? text?

def ofDocument? (d : Document) : Option HubConfig := do
  let [dictionary, command, hub] ← record? false
    [.defaulted "dictionary", .defaulted "command", .defaulted "hub"] d | none
  let [searchPath] ← section? [.defaulted "search_paths"] dictionary | none
  let [timeout, keyword] ← section?
    [⟨"default_timeout", .anywhere, true⟩, .defaulted "default_keyword"] command | none
  let [commander, keysPath, models] ← section?
    [.defaulted "commander", .defaulted "keys_prefix", .defaulted "models"] hub | none
  return {
    searchPath := ← orElse [] texts? searchPath
    defaultTimeout := ← Document.optional natural? timeout
    defaultKeyword := ← orElse default.defaultKeyword text? keyword
    commander := ← orElse default.commander text? commander
    keysPrefix := ← orElse default.keysPrefix text? keysPath
    tracked := ← orElse [] texts? models }

/-- The document of a configuration, with every setting in its place. -/
def toDocument (config : HubConfig) : Document :=
  let timeout := match config.defaultTimeout with
    | some milliseconds => .natural milliseconds
    | none => .null
  let texts (ts : List String) : Document := .array (ts.map .text)
  .object [
    (some "dictionary", .object [(some "search_paths", texts config.searchPath)]),
    (some "command", .object [(some "default_timeout", timeout),
      (some "default_keyword", .text config.defaultKeyword)]),
    (some "hub", .object [(some "commander", .text config.commander),
      (some "keys_prefix", .text config.keysPrefix), (some "models", texts config.tracked)])]

def read (source : String) : Except ConfigError HubConfig :=
  match (Document.read source).bind ofDocument? with
  | some config => .ok config
  | none => .error .malformed

/-- The configuration in a file. What can be opened but is no text, as a directory, holds none. -/
def ofFile (fs : Files) (path : String) : Except ConfigError HubConfig :=
  match fs.find? path with
  | none | some (.file (.locked _)) => .error .unreadableFile
  | some .directory | some (.file .bytes) => .error .malformed
  | some (.file (.text text)) => read text

/-- The configured directories and behind them those of the environment. -/
def searchPathWith (config : HubConfig) (keysPath : Option String) : SearchPath :=
  config.searchPath ++ SearchPath.ofVariable keysPath

end HubConfig

end ActorHub
