import ActorHub.Text.Case

/-!
# Job statuses

The states that a job is in, one at a time. A job is ready, active or done.
-/

namespace ActorHub

inductive JobStatus where
  | ready
  | running
  | cancelling
  | failing
  | done
  | cancelled
  | failed
  | timedOut
deriving DecidableEq, Repr

namespace JobStatus

def all : List JobStatus :=
  [ready, running, cancelling, failing, done, cancelled, failed, timedOut]

def name : JobStatus → String
  | ready => "READY"
  | running => "RUNNING"
  | cancelling => "CANCELLING"
  | failing => "FAILING"
  | done => "DONE"
  | cancelled => "CANCELLED"
  | failed => "FAILED"
  | timedOut => "TIMEDOUT"

/-- The status of a name, in any case. -/
def ofName? (text : String) : Option JobStatus :=
  all.find? fun s => Text.sameName s.name text

/-- The code of the reply that tells of the status. -/
def code : JobStatus → Char
  | ready => 'i'
  | running => '>'
  | cancelling | failing => 'w'
  | done => ':'
  | cancelled | failed | timedOut => 'f'

/-- The status that the code of a reply implies. -/
def ofCode (code : Char) : JobStatus :=
  if code = ':' then done
  else if code = 'f' || code = 'F' || code = '!' then failed
  else running

def isActive : JobStatus → Bool
  | running | cancelling | failing => true
  | _ => false

def isFailing : JobStatus → Bool
  | cancelling | failing => true
  | _ => false

def didFail : JobStatus → Bool
  | cancelled | failed | timedOut => true
  | _ => false

def didSucceed : JobStatus → Bool
  | done => true
  | _ => false

/-- The statuses that no other follows. -/
def isDone : JobStatus → Bool
  | done | cancelled | failed | timedOut => true
  | _ => false

end JobStatus

end ActorHub
