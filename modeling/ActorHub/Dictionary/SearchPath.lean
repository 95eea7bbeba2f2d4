import ActorHub.Dictionary.Definition
import ActorHub.Files.Pattern

/-!
# Search paths

Definitions lie in files of the extension `json`, in the directories of a search path. The first
directory that holds a definition of a name provides it.
-/

namespace ActorHub

/-- Directories in the order in which they are searched. -/
abbrev SearchPath := List String

namespace SearchPath

/-- The directories that a variable of the environment names, if it is set. -/
def ofVariable : Option String → SearchPath
  | some value => Text.split ':' value
  | none => []

def fileName (name : String) : String :=
  name ++ ".json"

/-- The first definition of a name. -/
def locate (dirs : SearchPath) (fs : Files) (name : String) : Option String :=
  (dirs.map (Files.join · (fileName name))).find? fs.isFile

/-- A file name without its extension. A dot at the front begins no extension. -/
def stem (name : String) : String :=
  let reversed := name.toList.reverse
  let extension := reversed.takeWhile (· != '.')
  match reversed.drop extension.length with
  | [] | ['.'] => name
  | _ :: stem => String.ofList stem.reverse

/-- Names sorted, each of them once. -/
def sortNames (names : List String) : List String :=
  (names.mergeSort (· ≤ ·)).eraseDups

/-- The names of all entries that look like definitions. -/
def available (dirs : SearchPath) (fs : Files) : List String :=
  let places := dirs.flatMap fun dir => fs.globText (Files.join dir "*.json")
  sortNames (places.filterMap fun place => place.getLast?.map stem)

/-- The dictionary of the first definition of a name. -/
def read (dirs : SearchPath) (fs : Files) (name : String) : Except DictionaryError Dictionary :=
  match (dirs.locate fs name).bind fs.content? with
  | some content => do
    let source ← content.read.mapError (.notReadable name)
    Dictionary.ofSource name source
  | none => .error (.notFound name dirs)

end SearchPath

end ActorHub
