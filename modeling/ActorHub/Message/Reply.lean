import ActorHub.Message.Keyword

/-!
# Replies

A reply is a header and keywords. The header names the commander by program, user and stack, the
command by its id, the actor, and closes with a one character code.
-/

namespace ActorHub

inductive MessageCode where
  | queued
  | debug
  | information
  | warning
  | error
  | finished
  | failed
  | fatal
deriving DecidableEq, Repr

namespace MessageCode

def all : List MessageCode :=
  [queued, debug, information, warning, error, finished, failed, fatal]

def char : MessageCode → Char
  | queued => '>'
  | debug => 'D'
  | information => 'I'
  | warning => 'W'
  | error => 'E'
  | finished => ':'
  | failed => 'F'
  | fatal => '!'

def text (c : MessageCode) : String :=
  String.singleton c.char

/-- The code spelled by a text, in either case. -/
def read (text : String) : Except MessageError MessageCode :=
  match all.find? fun c => Text.sameName c.text text with
  | some c => .ok c
  | none => .error (.invalidCode text)

def help : MessageCode → String
  | queued => "Queued"
  | debug => "Debug"
  | information => "Information"
  | warning => "Warning"
  | error | failed => "Error"
  | finished => "Finished"
  | fatal => "Fatal"

/-- Codes that end the command of the reply. -/
def isDone : MessageCode → Bool
  | finished | failed | fatal => true
  | _ => false

end MessageCode

structure ReplyHeader where
  program : String
  user : String
  /-- Further dotted components behind the user, the first dot included. -/
  actorStack : String
  commandId : Nat
  actor : String
  code : MessageCode
deriving DecidableEq, Repr

namespace ReplyHeader

/-- The first word of the line. -/
def commander (h : ReplyHeader) : String :=
  h.program ++ "." ++ h.user ++ h.actorStack

def canonical (h : ReplyHeader) : String :=
  h.commander ++ " " ++ toString h.commandId ++ " " ++ h.actor ++ " " ++ h.code.text

def tokenized (h : ReplyHeader) : String :=
  "prog.user 123 actor " ++ h.code.text

end ReplyHeader

structure Reply where
  header : ReplyHeader
  keywords : Keywords
  /-- The line the reply was read from. -/
  source : Option String
deriving Repr

namespace Reply

def canonical (r : Reply) : String :=
  r.header.canonical ++ " " ++ Keywords.canonical r.keywords ";"

def tokenized (r : Reply) : String :=
  r.header.tokenized ++ " " ++ Keywords.tokenized r.keywords ";"

/-- Equivalence of replies. -/
def equals (a b : Reply) : Bool :=
  a.canonical == b.canonical

end Reply

end ActorHub
