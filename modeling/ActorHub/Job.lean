import ActorHub.Job.Act
import ActorHub.Text.Quoted

/-!
# Jobs

One outstanding command and its status: who sent it under which id, the actor it is addressed to,
and what happens when its status changes.
-/

namespace ActorHub

/-- The place of a job among all jobs. -/
abbrev JobId := Nat

/-- The place of a writer among all writers. -/
abbrev WriterId := Nat

/-- The place of an operation among all operations ever started. -/
abbrev OperationId := Nat

/-- Ids and texts of a job, which never change. -/
structure JobOrder where
  commander : String
  commandId : Nat
  consumer : String
  body : String
  /-- The keyword under which texts are written. -/
  defaultKeyword : String
  parent : Option JobId

structure Job extends JobOrder where
  writer : Option WriterId
  status : JobStatus
  /-- The status that those who wait for the job are shown. -/
  watched : JobStatus
  watched_eq : watched = status
  /-- In the order of registration. -/
  callbacks : List Callback
  /-- The changes that no callback has seen yet, oldest first. -/
  pending : List JobStatus
  /-- Whether callbacks are being called, so that a further change waits for them. -/
  isNotifying : Bool
  /-- When the job times out, as long as the timer is armed. -/
  timer : Option Nat
  /-- The operation that ends with the job. -/
  operation : Option OperationId

namespace JobOrder

def display (o : JobOrder) : String :=
  "<Command (commander_id='" ++ o.commander ++ "', command_id=" ++ toString o.commandId
    ++ ", body='" ++ o.body ++ "')>"

/-- All ids and texts, quoted. -/
def detail (o : JobOrder) : String :=
  let quote := Text.quote
  "Command \x7b commander_id: " ++ quote o.commander ++ ", command_id: " ++ toString o.commandId
    ++ ", consumer_id: " ++ quote o.consumer ++ ", body: " ++ quote o.body ++ " \x7d"

end JobOrder

/-- A job that nothing has happened to yet. -/
def Job.ofOrder (order : JobOrder) (writer : Option WriterId) (callbacks : List Callback) : Job :=
  { order with
    writer
    status := .ready
    watched := .ready
    watched_eq := rfl
    callbacks
    pending := []
    isNotifying := false
    timer := none
    operation := none }

/-- The job in another status, which is shown at once and waits for the callbacks. -/
def Job.moveTo (job : Job) (status : JobStatus) : Job :=
  { job with
    status
    watched := status
    watched_eq := rfl
    pending := job.pending ++ [status]
    isNotifying := true }

end ActorHub
