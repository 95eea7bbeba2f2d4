import ActorHub.Text.Split

/-!
# Files

A tree of directories and files, seen from the directory that relative paths start at. Paths
in text form may hold empty steps and dots; they are resolved step by step, and each step needs a
directory to stand in. All that is known of what lies outside of the tree is that there are
directories to be in.
-/

namespace ActorHub

/-- What there is to read in a file. -/
inductive FileContent where
  | text (text : String)
  /-- Bytes that are no text. -/
  | bytes
  /-- Whatever it is, the system does not open the file, and says why. -/
  | locked (reason : String)
deriving DecidableEq, Repr

/-- The text, or why there is none. -/
def FileContent.read : FileContent → Except String String
  | text t => .ok t
  | bytes => .error "stream did not contain valid UTF-8"
  | locked reason => .error reason

inductive FileEntry where
  | directory
  | file (content : FileContent)
deriving DecidableEq, Repr

/-- The entries below the top directory, each under the names that lead to it. -/
structure Files where
  entries : List (List String × FileEntry)
deriving Repr

namespace Files

def empty : Files := ⟨[]⟩

/-- The place above the top directory. -/
def outside : List String := [".."]

def entry? (fs : Files) (path : List String) : Option FileEntry :=
  if path = [] || path = outside then some .directory else fs.entries.lookup path

def isDirectory (fs : Files) (path : List String) : Bool :=
  fs.entry? path == some .directory

/-- The names in a directory. -/
def children (fs : Files) (path : List String) : List String :=
  fs.entries.filterMap fun (p, _) => if p.dropLast = path then p.getLast? else none

/-- All entries below a directory. -/
def below (fs : Files) (path : List String) : List (List String) :=
  (fs.entries.map Prod.fst).filter fun p => path.length < p.length && path.isPrefixOf p

/-! ## Changes -/

/-- The tree with an entry in place of what was there. -/
def put (fs : Files) (path : List String) (e : FileEntry) : Files :=
  if path = [] then fs else ⟨(path, e) :: fs.entries.filter (·.1 != path)⟩

def addDirectory (fs : Files) (path : List String) : Files :=
  if fs.isDirectory path then fs else fs.put path .directory

/-- Follows steps from a place and makes the directories that are missing. -/
def makeWay (fs : Files) (place : List String) : List String → Files × List String
  | [] => (fs, place)
  | step :: rest =>
    if step = "" || step = "." then fs.makeWay place rest
    else if step = ".." then fs.makeWay place.dropLast rest
    else (fs.addDirectory (place ++ [step])).makeWay (place ++ [step]) rest

/-- Removes an entry and all below it. -/
def remove (fs : Files) (path : List String) : Files :=
  ⟨fs.entries.filter fun (p, _) => !path.isPrefixOf p⟩

/-! ## Paths -/

def isAbsolute (path : String) : Bool :=
  path.toList.head? == some '/'

/-- A name added to a path; an absolute name replaces it. -/
def join (path name : String) : String :=
  if isAbsolute name || path.isEmpty then name
  else if path.toList.getLast? == some '/' then path ++ name
  else path ++ "/" ++ name

/-- One step from a place. -/
def enter (fs : Files) (place : List String) (step : String) : Option (List String) :=
  if !fs.isDirectory place then none
  else if step = "" || step = "." then some place
  else if step = ".." then
    if place = [] || place = outside then some outside else some place.dropLast
  else some (place ++ [step])

/-- The place a path leads to, whether or not there is an entry. -/
def resolve (fs : Files) (path : String) : Option (List String) :=
  if path.isEmpty then none
  else (Text.split '/' path).foldlM fs.enter (if isAbsolute path then outside else [])

def find? (fs : Files) (path : String) : Option FileEntry :=
  (fs.resolve path).bind fs.entry?

/-- What there is to read where a path leads to a file. -/
def content? (fs : Files) (path : String) : Option FileContent :=
  match fs.find? path with
  | some (.file content) => some content
  | _ => none

def isFile (fs : Files) (path : String) : Bool :=
  (fs.content? path).isSome

/-- Writes a file, or makes a directory where the path ends in a slash, and makes the directories on
the way. -/
def write (fs : Files) (path text : String) : Files :=
  let steps := Text.split '/' path
  let (fs, place) := fs.makeWay [] steps.dropLast
  match steps.getLast? with
  | none | some "" => fs
  | some name => fs.put (place ++ [name]) (.file (.text text))

/-- Removes what a path leads to. -/
def delete (fs : Files) (path : String) : Files :=
  match fs.resolve path with
  | none | some [] => fs
  | some place => fs.remove place

end Files

end ActorHub
