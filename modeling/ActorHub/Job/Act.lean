import ActorHub.Job.Reply

/-!
# Acts

What can be asked of a job, and the two kinds of scripts that ask: callbacks, which react to changes
of the status, and operations, which run as the body of a job. An act can add a callback, and a
callback makes requests, so the types are of one piece.
-/

namespace ActorHub

/-- Why an act was not done. -/
inductive ActError where
  /-- There is no job of the name. -/
  | noJob
  /-- There is no such act. -/
  | noAct
  /-- The content of the act cannot be built. -/
  | content (e : MessageError)
  /-- The job refused. -/
  | job (e : JobError)
deriving DecidableEq, Repr

abbrev Outcome := Except ActError Unit

mutual

inductive Act where
  | set (status : JobStatus) (content : Content)
  /-- Writes a reply and leaves the status as it is. -/
  | write (code : Char) (content : Content)
  | cancel
  /-- Adds a callback behind those that the job has. -/
  | listen (callback : Callback)

/-- An act under the label by which reports name it; it may be known beforehand that it cannot be
done. -/
structure Request where
  label : String
  act : Except ActError Act

/-- A request to the job of a name, made when a status is reached. -/
structure Reaction where
  on : String
  trigger : Option JobStatus
  request : Request

/-- What is called with the changes of a status. -/
inductive Callback where
  | scripted (name : String) (reactions : List Reaction)
  /-- Stops tracking the job under a message id once it is done. -/
  | untrack (mid : Nat)

end

namespace Act

def finish (content : Content) : Act := .set .done content
def fail (content : Content) : Act := .set .failed content
def debug (content : Content) : Act := .write 'd' content
def info (content : Content) : Act := .write 'i' content
def warning (content : Content) : Act := .write 'w' content
def error (content : Content) : Act := .write 'e' content

end Act

def Callback.name? : Callback → Option String
  | scripted name _ => some name
  | untrack _ => none

inductive ScriptStep where
  | sleep (milliseconds : Nat)
  /-- A request to the job that the script is the body of. -/
  | ask (request : Request)

/-- The body of a job: its steps, and the message with which it fails at the end, if it does. -/
structure Script where
  steps : List ScriptStep
  failure : Option String

end ActorHub
