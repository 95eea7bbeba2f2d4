import ActorHub.Message.Keyword

/-!
# Commands

A verb with positional values and keywords, and the header under which the hub passes a command
on to its actor.
-/

namespace ActorHub

structure Command where
  name : String
  values : Values
  keywords : Keywords
  /-- The line the command was read from. -/
  source : Option String
deriving Repr

namespace Command

/-- A verb alone. It holds no dot and is not the reserved word. -/
def make (name : String) : Except MessageError Command :=
  if name.contains '.' then .error (.dottedVerb name)
  else if Text.sameName name Keyword.reserved then .error (.rawVerb name)
  else .ok ⟨name, [], [], none⟩

def canonical (c : Command) : String :=
  let values := if c.values.isEmpty then "" else " " ++ Values.canonical c.values
  let keywords := if c.keywords.isEmpty then "" else " " ++ Keywords.canonical c.keywords " "
  Text.lowercase c.name ++ values ++ keywords

def tokenized (c : Command) : String :=
  let values := if c.values.isEmpty then "" else " " ++ Values.tokenized c.values
  let keywords := if c.keywords.isEmpty then "" else " " ++ Keywords.tokenized c.keywords " "
  "VERB" ++ values ++ keywords

/-- Equivalence of commands. -/
def equals (a b : Command) : Bool :=
  a.canonical == b.canonical

end Command

/-- Who sent a command, under which message id, and to whom. -/
structure CommandHeader where
  commander : String
  mid : Nat
  actor : String
deriving DecidableEq, Repr

namespace CommandHeader

/-- The part of the commander's name before the first dot. -/
def program (h : CommandHeader) : String :=
  String.ofList (h.commander.toList.takeWhile (· != '.'))

def canonical (h : CommandHeader) : String :=
  h.commander ++ " " ++ toString h.mid ++ " " ++ h.actor

def tokenized (h : CommandHeader) : String :=
  "prog.user 123 actor " ++ h.actor

end CommandHeader

end ActorHub
