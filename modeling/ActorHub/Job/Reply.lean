import ActorHub.Job.Error
import ActorHub.Message.Keyword

/-!
# Replies of jobs

What a job asks to be written to its commander. A job with a parent writes under the ids of its
parent and never ends it.
-/

namespace ActorHub

/-- What a reply says. -/
inductive Content where
  | empty
  /-- A text, under a keyword that depends on the code. -/
  | text (s : String)
  | keywords (ks : Keywords)
deriving Repr

namespace Content

/-- The keyword of a text under a code of an error. -/
def errorKeyword : String := "error"

/-- The keyword of a text under another code, unless configured otherwise. -/
def defaultKeyword : String := "text"

def keywordName (defaultName : String) (code : Char) : String :=
  if code = 'e' || code = 'f' then errorKeyword else defaultName

def toKeywords (defaultName : String) (code : Char) : Content → Except MessageError Keywords
  | empty => .ok []
  | keywords ks => .ok ks
  | text s => (Keyword.make (keywordName defaultName code) [.raw s]).map fun k => [k]

end Content

structure OutgoingReply where
  commander : String
  commandId : Nat
  code : Char
  keywords : Keywords
deriving Repr

namespace OutgoingReply

def line (r : OutgoingReply) : String :=
  let keywords := if r.keywords.isEmpty then "" else " " ++ Keywords.canonical r.keywords ";"
  r.commander ++ " " ++ toString r.commandId ++ " " ++ String.singleton r.code ++ keywords

end OutgoingReply

/-- The code under which a job with a parent writes, if it writes at all. What would end the parent
is said in other words, or not at all where there is nothing else to say. -/
def childCode? (code : Char) (keywords : Keywords) : Option Char :=
  if code = '>' then none
  else if code = ':' then if keywords.isEmpty then none else some 'i'
  else if code = 'f' then some 'e'
  else some code

end ActorHub
