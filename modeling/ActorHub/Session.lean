import ActorHub.Error
import ActorHub.Jobs.Clock

/-!
# Sessions

A session sends commands to the hub and takes in the replies of all actors. A command that was sent
is a running job under its message id until it is done. Every reply line updates the models; one that
ends a command also ends the job.
-/

namespace ActorHub

structure Session where
  commander : String
  /-- The message id of the next command. After the last id of 32 bits comes zero. -/
  nextMid : UInt32
  models : ModelSet
  jobs : Jobs
  /-- The keyword under which jobs write texts. -/
  defaultKeyword : String
  /-- After how many milliseconds jobs time out. -/
  defaultTimeout : Option Nat

/-- A command ready for the transport, and the job that waits for its end. -/
structure SentCommand where
  mid : Nat
  line : String
  job : JobId

/-- What a reply line did. -/
structure HandledReply where
  reply : Reply
  /-- The number of keywords stored, if the actor is tracked. -/
  count : Option Nat
  notices : List Notice
  /-- The job that the reply ended. -/
  completed : Option JobId

namespace Session

/-- The actor that answers requests for keys. -/
def keysActor : String := "keys"

/-- The number of keys asked for in one request. -/
def keysPerRequest : Nat := 10

def make (commander : String) (models : ModelSet) (hasClock : Bool) : Session where
  commander
  nextMid := 1
  models
  jobs := .empty hasClock
  defaultKeyword := Content.defaultKeyword
  defaultTimeout := none

/-- A session with the configured settings and the models of the configured actors. -/
def ofConfig (config : HubConfig) (hasClock : Bool) (registry : Registry)
    (keysPath : Option String) (fs : Files) : Registry × Except HubError Session :=
  let (registry, loaded) :=
    ModelSet.load registry (config.searchPathWith keysPath) fs config.tracked
  (registry, (loaded.mapError .dictionary).map fun models =>
    { make config.commander { models with keysPrefix := config.keysPrefix } hasClock with
      defaultKeyword := config.defaultKeyword
      defaultTimeout := config.defaultTimeout })

def runningCount (s : Session) : Nat :=
  s.jobs.tracked.length

/-- The job that waits for the end of the command of a message id. -/
def running? (s : Session) (mid : Nat) : Option Job :=
  (s.jobs.tracked.lookup mid).bind s.jobs.job?

/-! ## Commands -/

def commandLine (s : Session) (mid : Nat) (target body : String) : String :=
  s.commander ++ " " ++ toString mid ++ " " ++ target ++ " " ++ body ++ "\n"

def blueprint (s : Session) (mid : Nat) (target body : String) : Jobs.Blueprint where
  order := {
    commander := s.commander
    commandId := mid
    consumer := target
    body
    defaultKeyword := s.defaultKeyword
    parent := none }
  writer := none
  callbacks := [.untrack mid]
  callsNow := false
  timeout := s.defaultTimeout

/-- Tracks a job under its message id as a running one. -/
def launch (w : Jobs) (mid : Nat) (id : JobId) : Jobs × Except JobError Unit :=
  let (w, result) := (w.track mid id).ask id (.set .running .empty)
  (if result.isOk then w.untrackDone mid else w, result)

/-- Sends a command under a message id of one's own choice. -/
def sendAs (s : Session) (mid : Nat) (target body : String) :
    Session × Except JobError SentCommand :=
  match s.jobs.build (s.blueprint mid target body) with
  | (jobs, .error e) => ({ s with jobs }, .error e)
  | (jobs, .ok id) =>
    let (jobs, result) := launch jobs mid id
    ({ s with jobs }, result.map fun _ => ⟨mid, s.commandLine mid target body, id⟩)

/-- Sends a command under the next message id. -/
def send (s : Session) (target body : String) : Session × Except JobError SentCommand :=
  { s with nextMid := s.nextMid + 1 }.sendAs s.nextMid.toNat target body

/-- Names in groups of one more than a number, of which the last may be smaller. -/
def groups (n : Nat) : List String → List (List String)
  | [] => []
  | name :: rest => (name :: rest.take n) :: groups n (rest.drop n)
termination_by names => names.length

/-- The requests for the keys of a model. -/
def requestsFor (m : KeywordModel) : List String :=
  (groups (keysPerRequest - 1) m.keyNames).map fun names =>
    "getFor=" ++ m.actor ++ " " ++ " ".intercalate names

/-- The requests that ask for every key of every tracked model. -/
def keysRequests (s : Session) : List String :=
  (s.models.actors.filterMap s.models.get?).flatMap requestsFor

/-- Sends requests up to the first that fails. -/
def sendEach (s : Session) : List String → Session × Except JobError (List SentCommand)
  | [] => (s, .ok [])
  | body :: rest =>
    match s.send keysActor body with
    | (s, .error e) => (s, .error e)
    | (s, .ok sent) =>
      let (s, others) := s.sendEach rest
      (s, others.map (sent :: ·))

/-- Asks for every key. -/
def refreshKeys (s : Session) : Session × Except JobError (List SentCommand) :=
  s.sendEach s.keysRequests

/-! ## Replies -/

/-- The status in which a reply leaves the job of its command, if it ends it. -/
def finalStatus? (r : Reply) : Option JobStatus :=
  some (JobStatus.ofCode r.header.code.char) |>.filter (·.isDone)

/-- The job that a reply ends, and its last status. -/
def ended? (s : Session) (r : Reply) : Option (JobId × JobStatus) := do
  let status ← finalStatus? r
  if UInt32.size ≤ r.header.commandId then none
  return (← s.jobs.tracked.lookup r.header.commandId, status)

/-- Ends the job that a reply ends. -/
def resolve (s : Session) (r : Reply) : Session × Option JobId :=
  match s.ended? r with
  | none => (s, none)
  | some (id, status) =>
    let w := s.jobs.untrack r.header.commandId
    ({ s with jobs := (w.ask id (.set status .empty)).1 }, some id)

/-- Takes in a reply. -/
def applyReply (s : Session) (r : Reply) : Session × HandledReply :=
  let routed := s.models.applyReply r
  let (s, completed) := { s with models := routed.models }.resolve r
  (s, ⟨r, routed.count, routed.notices, completed⟩)

/-- Takes in a reply line. One that is no reply changes nothing. -/
def handleLine (s : Session) (line : String) : Session × Except LineError HandledReply :=
  match Reply.read line with
  | .error e => (s, .error e)
  | .ok r => (s.applyReply r).map id .ok

end Session

end ActorHub
