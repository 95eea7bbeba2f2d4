import ActorHub.Files

/-!
# Path patterns

A pattern has a step for each directory on the way. In a step a question mark stands for one
character, a star for any number of them, and brackets for one character of a set or outside of it.
A step of two stars stands for any number of directories, none included.
-/

namespace ActorHub

/-- A range of characters, both ends included. -/
structure CharRange where
  first : Char
  last : Char
deriving DecidableEq, Repr

inductive Wildcard where
  | char (c : Char)
  | anyChar
  | anyText
  | oneOf (ranges : List CharRange)
  | noneOf (ranges : List CharRange)
deriving DecidableEq, Repr

inductive PatternStep where
  /-- A name without wildcards. -/
  | name (s : String)
  | wild (ws : List Wildcard)
  | anyDepth
deriving DecidableEq, Repr

namespace Wildcard

def holds (ranges : List CharRange) (c : Char) : Bool :=
  ranges.any fun r => r.first ≤ c && c ≤ r.last

def accepts (c : Char) : Wildcard → Bool
  | char d => c = d
  | anyChar => true
  | oneOf ranges => holds ranges c
  | noneOf ranges => !holds ranges c
  | anyText => false

/-- Whether the wildcards stand for the whole of a text. -/
def matchesAll : List Wildcard → List Char → Bool
  | [], cs => cs.isEmpty
  | anyText :: ws, [] => matchesAll ws []
  | anyText :: ws, c :: cs => matchesAll ws (c :: cs) || matchesAll (anyText :: ws) cs
  | _ :: _, [] => false
  | w :: ws, c :: cs => w.accepts c && matchesAll ws cs
termination_by ws cs => (ws.length, cs.length)

/-- The members of a set in brackets: ranges written with a hyphen, and single characters. -/
def ranges : List Char → List CharRange
  | a :: '-' :: b :: rest => ⟨a, b⟩ :: ranges rest
  | c :: rest => ⟨c, c⟩ :: ranges rest
  | [] => []

/-- The members up to the closing bracket, which is not the first of them, and the rest. -/
def bracket? : List Char → Option (List Char × List Char)
  | [] => none
  | c :: rest =>
    match rest.dropWhile (· != ']') with
    | [] => none
    | _ :: behind => some (c :: rest.takeWhile (· != ']'), behind)

theorem length_of_bracket {cs members rest : List Char} (h : bracket? cs = some (members, rest)) :
    rest.length < cs.length := by
  unfold bracket? at h
  split at h
  · cases h
  · rename_i c tail
    split at h
    · cases h
    · rename_i d behind hb
      cases h
      have := (List.dropWhile_suffix (l := tail) (· != ']')).length_le
      rw [hb] at this
      simp only [List.length_cons] at this ⊢
      omega

/-- The wildcards of a step. Two stars do not stand next to each other. -/
def ofChars? (cs : List Char) : Option (List Wildcard) :=
  match cs with
  | [] => some []
  | '?' :: rest => (ofChars? rest).map (anyChar :: ·)
  | '*' :: '*' :: _ => none
  | '*' :: rest => (ofChars? rest).map (anyText :: ·)
  | '[' :: '!' :: rest =>
    match _ : bracket? rest with
    | none => none
    | some (members, behind) => (ofChars? behind).map (noneOf (ranges members) :: ·)
  | '[' :: rest =>
    match _ : bracket? rest with
    | none => none
    | some (members, behind) => (ofChars? behind).map (oneOf (ranges members) :: ·)
  | c :: rest => (ofChars? rest).map (char c :: ·)
termination_by cs.length
decreasing_by
  all_goals simp_wf
  all_goals try have := length_of_bracket ‹_›
  all_goals omega

def isChar : Wildcard → Bool
  | char _ => true
  | _ => false

end Wildcard

namespace PatternStep

def ofText? (s : String) : Option PatternStep :=
  if s = "**" then some .anyDepth
  else (Wildcard.ofChars? s.toList).map fun ws =>
    if ws.all Wildcard.isChar then .name s else .wild ws

end PatternStep

/-- Whether a name on its own fits the step. -/
def PatternStep.fits (name : String) : PatternStep → Bool
  | .name s => s == name
  | .wild ws => Wildcard.matchesAll ws name.toList
  | .anyDepth => true

namespace Files

/-- Where a pattern has led so far. -/
structure Spot where
  place : List String
  /-- Whether only single dots lead here from the directory that paths start at. -/
  isStart : Bool

/-- One step on. An empty step stays where it is, but there has to be a step before it. -/
def Spot.enter? (fs : Files) (s : Spot) (step : String) : Option Spot :=
  if s.isStart && step = "" then none
  else (fs.enter s.place step).map fun place => ⟨place, s.isStart && step = "."⟩

/-- The two names that every directory has for itself and for the one above it are matched only by
a pattern that starts with a dot. -/
def dotNames (ws : List Wildcard) : List String :=
  if ws.head? = some (.char '.') then
    [".", ".."].filter fun s => Wildcard.matchesAll ws s.toList
  else []

/-- The places that a pattern leads to from a spot. Where two stars lie behind (`deep`), the next
step is looked for among the names of all entries below, so the names of dots do not count. -/
def glob (fs : Files) : Bool → List PatternStep → Spot → List (List String)
  | false, [], s => [s.place]
  | true, [], s => (fs.below s.place).filter fs.isDirectory
  | _, .anyDepth :: steps, s => glob fs true steps s
  | true, step :: steps, s =>
    ((fs.below s.place).filter fun p => p.getLast?.any step.fits).flatMap fun p =>
      glob fs false steps ⟨p, false⟩
  | false, .name name :: steps, s =>
    match s.enter? fs name with
    | some next => if (fs.entry? next.place).isSome then glob fs false steps next else []
    | none => []
  | false, .wild ws :: steps, s =>
    if fs.isDirectory s.place then
      let matching := (fs.children s.place).filter fun name => Wildcard.matchesAll ws name.toList
      (matching ++ dotNames ws).flatMap fun name =>
        match s.enter? fs name with
        | some next => glob fs false steps next
        | none => []
    else []

/-- The places that a pattern in text form leads to. There are none if it is malformed. -/
def globText (fs : Files) (pattern : String) : List (List String) :=
  match (Text.split '/' pattern).mapM PatternStep.ofText? with
  | some steps =>
    fs.glob false steps (if isAbsolute pattern then ⟨outside, false⟩ else ⟨[], true⟩)
  | none => []

end Files

end ActorHub
