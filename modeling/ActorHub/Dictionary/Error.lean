import ActorHub.Message.Error
import ActorHub.Text.Quoted
import ActorHub.ValueType.Error

/-!
# Faults of dictionaries

Why a key, a dictionary or its definition is refused, why a name is not found, and why values do
not fit a key.
-/

namespace ActorHub

inductive DictionaryError where
  /-- An entry before the last may repeat a varying number of times. -/
  | repetitionRange
  | notUnique (name : String)
  | unresolved (name : String)
  | valueMismatch (name : String) (values : List String)
  | invalidName (name : String)
  | noSuchKey (name : String)
  /-- No definition of the name lies in the directories. -/
  | notFound (name : String) (directories : List String)
  /-- A definition was found, but there is no reading the file. -/
  | notReadable (name reason : String)
  | nameMismatch (file name : String)
  /-- The text is no definition. -/
  | unreadable (name : String)
  /-- The definition declares what cannot be built. -/
  | badFormat (name : String) (cause : DictionaryError)
  | namelessReference
  | memberlessGroup
  | groupMember (kind : String)
  | repeatedKind (kind : String)
  | type (e : ValueTypeError)
  | message (e : MessageError)
deriving DecidableEq, Repr

namespace DictionaryError

/-- Every line of a cause is set off by this. -/
def causeIndent : String := "\n >> "

def indentLines (text : String) : String :=
  causeIndent ++ causeIndent.intercalate (text.splitOn "\n")

def text : DictionaryError → String
  | repetitionRange => "Repetition range only allowed for last value type"
  | notUnique name => "KeysDictionary name is not unique: " ++ name
  | unresolved name => "Unresolved type ByName(\"" ++ name ++ "\")"
  | valueMismatch name values =>
    "value types do not match for keyword " ++ name ++ ": " ++ Text.quoteList values
  | invalidName name => "Invalid name: must be lower case: " ++ name
  | noSuchKey name => "no such key: " ++ name
  | notFound name directories =>
    "no keys dictionary found for " ++ name ++ ": no " ++ name ++ ".json in "
      ++ Text.quoteList directories
  | notReadable name reason => "no keys dictionary found for " ++ name ++ ": " ++ reason
  | nameMismatch file name =>
    "dictionary filename and name are different: " ++ file ++ ", " ++ name
  | unreadable name => "badly formatted keys dictionary in " ++ name
  | badFormat name cause =>
    "badly formatted keys dictionary in " ++ name ++ ":" ++ indentLines cause.text
  | namelessReference => "ByName requires a name"
  | memberlessGroup => "Compound requires member types"
  | groupMember kind => kind ++ " cannot be a compound member"
  | repeatedKind kind => kind ++ " cannot repeat"
  | type e => e.text
  | message e => e.text

end DictionaryError

end ActorHub
