import ActorHub.Job.Status
import ActorHub.Message.Error

/-!
# Faults of jobs

Why a job refuses a request.
-/

namespace ActorHub

/-- What a job can need a clock for. -/
inductive ClockUse where
  | timeout
  | operation
deriving DecidableEq, Repr

inductive WriterFault where
  /-- The writer takes no more replies. -/
  | refused
  /-- Nobody is left to take replies. -/
  | closed
deriving DecidableEq, Repr

inductive JobError where
  | alreadyDone (status requested : JobStatus)
  | invalidStatus (name : String)
  | noWriter
  | writer (fault : WriterFault)
  | noClock (use : ClockUse)
  | message (e : MessageError)
deriving DecidableEq, Repr

namespace JobError

def purpose : ClockUse → String
  | .timeout => "time out a command"
  | .operation => "run a command operation"

def faultText : WriterFault → String
  | .refused => "refused"
  | .closed => "channel closed"

def text : JobError → String
  | alreadyDone status requested =>
    "cannot modify a done command with status " ++ status.name ++ " (requested "
      ++ requested.name ++ ")"
  | invalidStatus name => "Status '" ++ name ++ "' is not a valid command status."
  | noWriter => "no reply writer is attached to this command"
  | writer fault => "failed to write reply: " ++ faultText fault
  | noClock use => "a tokio runtime is required to " ++ purpose use
  | message e => e.text

end JobError

/-- The status of a name. -/
def JobStatus.read (name : String) : Except JobError JobStatus :=
  match ofName? name with
  | some s => .ok s
  | none => .error (.invalidStatus name)

end ActorHub
