import ActorHub.Dictionary.Registry
import ActorHub.Message.Reply
import ActorHub.Value.Plain

/-!
# Keyword models

A model holds the last known keyword of every key of one dictionary. Only replies change it: a
keyword is typed by its key before it is stored, and one that is unknown or does not fit is passed
over. Observers are called with each keyword that is stored; the calls are part of the result.
-/

namespace ActorHub

/-- What is known of one key. -/
structure ModelEntry where
  keyword : Option Keyword
  /-- Who is called with the keyword, in the order of registration. -/
  observers : List String

structure KeywordModel where
  dictionary : Dictionary
  /-- The entries under the names of their keys in lower case. -/
  entries : List (String × ModelEntry)
  /-- Who is called after any change, in the order of registration. -/
  observers : List String

/-- A call of an observer. -/
inductive Notice where
  | key (observer : String) (keyword : Keyword)
  /-- The model, and the name of the key that changed. -/
  | model (observer : String) (state : KeywordModel) (name : String)

/-- What applying a reply did. -/
structure Applied where
  model : KeywordModel
  /-- The number of keywords stored. -/
  count : Nat
  notices : List Notice

namespace KeywordModel

def actor (m : KeywordModel) : String :=
  m.dictionary.name

/-- The names of the keys in the order of their declaration. -/
def keyNames (m : KeywordModel) : List String :=
  m.dictionary.keys.map fun k => Text.lowercase k.name

/-- A model that knows nothing yet. -/
def ofDictionary (d : Dictionary) : KeywordModel :=
  let names := (d.keys.map fun k => Text.lowercase k.name).eraseDups
  ⟨d, names.map fun n => (n, ⟨none, []⟩), []⟩

/-! ## Looking up -/

def entry? (m : KeywordModel) (name : String) : Option ModelEntry :=
  m.entries.lookup (Text.lowercase name)

def keyword? (m : KeywordModel) (name : String) : Option Keyword :=
  (m.entry? name).bind (·.keyword)

/-- The typed values last received under a name. -/
def get? (m : KeywordModel) (name : String) : Option (List TypedValue) :=
  (m.keyword? name).bind fun k => Values.typed? k.values

/-- Whether anything was stored yet. -/
def isUpdated (m : KeywordModel) : Bool :=
  m.entries.any fun (_, e) => e.keyword.isSome

/-- Every key with its values, if any were received. -/
def snapshot (m : KeywordModel) : List (String × Option (List PlainValue)) :=
  m.keyNames.map fun n => (n, (m.get? n).map PlainValue.ofEach)

/-! ## Storing -/

/-- Changes the entry of a name, which starts out empty. -/
def updateEntry (name : String) (f : ModelEntry → ModelEntry) :
    List (String × ModelEntry) → List (String × ModelEntry)
  | [] => [(name, f ⟨none, []⟩)]
  | (n, e) :: rest => if n = name then (n, f e) :: rest else (n, e) :: updateEntry name f rest

/-- Who is called when a keyword is stored: the observers of the key, then those of the model. -/
def notices (m : KeywordModel) (name : String) (keyword : Keyword) : List Notice :=
  let ofKey := ((m.entries.lookup name).map (·.observers)).getD []
  ofKey.map (.key · keyword) ++ m.observers.map (.model · m name)

/-- The keyword as its key types it, if there is such a key and the values fit. -/
def accept? (m : KeywordModel) (keyword : Keyword) : Option Keyword :=
  (m.dictionary.get? (Text.lowercase keyword.name)).bind (·.consume keyword)

def store (m : KeywordModel) (name : String) (keyword : Keyword) : KeywordModel :=
  { m with entries := updateEntry name (fun e => { e with keyword := some keyword }) m.entries }

/-- Stores a keyword under its name in lower case, if a key accepts it. -/
def applyKeyword (a : Applied) (keyword : Keyword) : Applied :=
  match a.model.accept? keyword with
  | none => a
  | some typed =>
    let name := Text.lowercase keyword.name
    let model := a.model.store name typed
    ⟨model, a.count + 1, a.notices ++ model.notices name typed⟩

def applyKeywords (m : KeywordModel) (keywords : Keywords) : Applied :=
  keywords.foldl applyKeyword ⟨m, 0, []⟩

def applyReply (m : KeywordModel) (r : Reply) : Applied :=
  m.applyKeywords r.keywords

/-! ## Observers -/

def observe (m : KeywordModel) (observer : String) : KeywordModel :=
  { m with observers := m.observers ++ [observer] }

def observeKey (m : KeywordModel) (name observer : String) :
    Except DictionaryError KeywordModel :=
  match m.entry? name with
  | none => .error (.noSuchKey name)
  | some _ => .ok { m with
      entries := updateEntry (Text.lowercase name)
        (fun e => { e with observers := e.observers ++ [observer] }) m.entries }

/-! ## Loading -/

/-- A fresh model of the dictionary of an actor. -/
def load (registry : Registry) (dirs : SearchPath) (fs : Files) (actor : String) :
    Except DictionaryError (Registry × KeywordModel) :=
  (registry.load dirs fs actor false).map fun (registry, entry) =>
    (registry, ofDictionary entry.dictionary)

/-- A fresh model of the dictionary as it is defined now, in the directories that the environment
names. -/
def reload (m : KeywordModel) (registry : Registry) (keysPath : Option String) (fs : Files) :
    Except DictionaryError (Registry × KeywordModel) :=
  (registry.load (SearchPath.ofVariable keysPath) fs m.actor true).map fun (registry, entry) =>
    (registry, ofDictionary entry.dictionary)

end KeywordModel

end ActorHub
