import ActorHub.Job

/-!
# All jobs

The jobs of a process with what they share: the clock, the writers, the operations that run as
their bodies, the streams of their changes, and the journal of what happened. Work that is left to
do is an agenda of errands; `setStatus` and `write` change one job and name the errands that follow.
-/

namespace ActorHub

/-- Where replies go. -/
inductive Writer where
  /-- A log, which may have room for a number of replies only. -/
  | log (room : Option Nat)
  | channel
  /-- A channel that nobody listens to. -/
  | closed
deriving DecidableEq, Repr

/-- Takes one reply, or refuses. -/
def Writer.accept : Writer → Except WriterFault Writer
  | .log none => .ok (.log none)
  | .log (some (n + 1)) => .ok (.log (some n))
  | .log (some 0) => .error .refused
  | .channel => .ok .channel
  | .closed => .error .closed

/-- A script on its way. -/
structure Operation where
  id : OperationId
  job : JobId
  script : Script
  /-- When it goes on. -/
  wake : Nat
  isAwake : Bool
  /-- Whether it is to stop where it next sleeps. -/
  isAborted : Bool

/-- The changes of a job from some moment on that were not taken yet. -/
structure StatusStream where
  job : JobId
  unread : List JobStatus
  /-- Whether the last change was taken, or there is none to come. -/
  isFinished : Bool

/-- The number of changes that a stream keeps; of more, the oldest are lost. -/
def streamCapacity : Nat := 16

def StatusStream.offer (s : StatusStream) (id : JobId) (status : JobStatus) : StatusStream :=
  if s.job = id && !s.isFinished then
    let unread := s.unread ++ [status]
    { s with unread := unread.drop (unread.length - streamCapacity) }
  else s

/-- What happened, in order. -/
inductive JournalEntry where
  | changed (job : JobId) (status : JobStatus)
  | wrote (job : JobId) (writer : WriterId) (reply : OutgoingReply)
  /-- A callback of a job, by its place and its name if it has one, was called with a status. -/
  | called (job : JobId) (place : Nat) (name : Option String) (status : JobStatus)
  /-- What became of the request of a callback to a job. -/
  | reacted (label on : String) (outcome : Outcome)
  /-- What became of the request of an operation to its job. -/
  | worked (label : String) (outcome : Outcome)

/-- Who learns what becomes of a request. -/
inductive Asker where
  | caller
  | reaction (label on : String)
  | operation (label : String)
  | nobody

/-- Work left to do. -/
inductive Errand where
  /-- Delivers the changes that wait, one after another. -/
  | notify (job : JobId)
  /-- Calls the callbacks of a job from a place on with a status. -/
  | call (job : JobId) (status : JobStatus) (place : Nat) (callbacks : List Callback)
  /-- Makes the requests of a callback. -/
  | react (reactions : List Reaction)
  /-- Tells the asker that its request is done. -/
  | report (asker : Asker)
  /-- Takes the second step of a cancellation. -/
  | completeCancel (job : JobId) (asker : Asker)
  /-- Starts a script as the body of a job. -/
  | attach (job : JobId) (script : Script) (asker : Asker)
  /-- Goes on with an operation. -/
  | operate (id : OperationId)

structure Jobs where
  jobs : List Job
  /-- The names by which jobs are held. -/
  names : List (String × JobId)
  /-- The jobs that wait for a reply, by message id. -/
  tracked : List (Nat × JobId)
  writers : List Writer
  operations : List Operation
  /-- The number of operations started so far. -/
  started : Nat
  streams : List (String × StatusStream)
  now : Nat
  /-- Whether there is a clock; without one nothing can be timed or run. -/
  hasClock : Bool
  agenda : List Errand
  journal : List JournalEntry
  /-- What became of the last request of the caller. -/
  answer : Except JobError Unit

namespace Jobs

def empty (hasClock : Bool) : Jobs where
  jobs := []
  names := []
  tracked := []
  writers := []
  operations := []
  started := 0
  streams := []
  now := 0
  hasClock
  agenda := []
  journal := []
  answer := .ok ()

/-! ## Parts -/

def job? (w : Jobs) (id : JobId) : Option Job :=
  w.jobs[id]?

def updateJob (w : Jobs) (id : JobId) (f : Job → Job) : Jobs :=
  { w with jobs := w.jobs.modify id f }

def named? (w : Jobs) (name : String) : Option JobId :=
  w.names.lookup name

/-- Holds a job by a name, in place of what the name stood for. -/
def hold (w : Jobs) (name : String) (id : JobId) : Jobs :=
  { w with names := (name, id) :: w.names.filter (·.1 != name) }

def release (w : Jobs) (name : String) : Jobs :=
  { w with names := w.names.filter (·.1 != name) }

def track (w : Jobs) (mid : Nat) (id : JobId) : Jobs :=
  { w with tracked := (mid, id) :: w.tracked.filter (·.1 != mid) }

def untrack (w : Jobs) (mid : Nat) : Jobs :=
  { w with tracked := w.tracked.filter (·.1 != mid) }

def isDone (w : Jobs) (id : JobId) : Bool :=
  (w.job? id).any (·.status.isDone)

/-- Stops tracking what is tracked under a message id, if it is done. -/
def untrackDone (w : Jobs) (mid : Nat) : Jobs :=
  match w.tracked.lookup mid with
  | some id => if w.isDone id then w.untrack mid else w
  | none => w

def enter (w : Jobs) (e : JournalEntry) : Jobs :=
  { w with journal := w.journal ++ [e] }

/-- Puts errands before all others. -/
def push (w : Jobs) (errands : List Errand) : Jobs :=
  { w with agenda := errands ++ w.agenda }

/-- What happened since the journal was last taken. -/
def takeJournal (w : Jobs) : List JournalEntry × Jobs :=
  (w.journal, { w with journal := [] })

/-! ## Being held -/

/-- A job and those it is a descendant of, up to a number of generations. -/
def lineage (w : Jobs) : Nat → JobId → List JobId
  | 0, id => [id]
  | n + 1, id =>
    match (w.job? id).bind (·.parent) with
    | some parent => id :: w.lineage n parent
    | none => [id]

/-- The jobs that somebody can still ask for something: by name, as one that is tracked, or from the
operation that is its body. -/
def heldDirectly (w : Jobs) : List JobId :=
  w.names.map (·.2) ++ w.tracked.map (·.2) ++ w.operations.map (·.job)

/-- Whether a job, or a descendant of it, is held. -/
def isHeld (w : Jobs) (id : JobId) : Bool :=
  w.heldDirectly.any fun held => (w.lineage w.jobs.length held).contains id

/-! ## Writing -/

/-- The reply that a job would write; a job with a parent writes under the ids of the parent, or not
at all. -/
def reply? (w : Jobs) (job : Job) (code : Char) (keywords : Keywords) : Option OutgoingReply :=
  match job.parent with
  | none => some ⟨job.commander, job.commandId, code, keywords⟩
  | some parent => do
    let parent ← w.job? parent
    return ⟨parent.commander, parent.commandId, ← childCode? code keywords, keywords⟩

/-- Writes a reply of a job through its writer. -/
def write (w : Jobs) (id : JobId) (code : Char) (content : Content) : Except JobError Jobs := do
  let some job := w.job? id | return w
  let some writer := job.writer | throw .noWriter
  let keywords ← (content.toKeywords job.defaultKeyword code).mapError .message
  match w.reply? job code keywords with
  | none => return w
  | some reply =>
    let some state := w.writers[writer]? | throw .noWriter
    let state ← state.accept.mapError .writer
    return { w with writers := w.writers.set writer state }.enter (.wrote id writer reply)

/-! ## Changing a status -/

/-- Makes an operation stop. One that sleeps is gone at once. -/
def abort (w : Jobs) (id : OperationId) : Jobs :=
  { w with operations := w.operations.filterMap fun o =>
      if o.id = id then if o.isAwake then some { o with isAborted := true } else none
      else some o }

/-- Disarms the timer of a job and stops its operation. -/
def windUp (w : Jobs) (id : JobId) : Jobs :=
  let stopped := match (w.job? id).bind (·.operation) with
    | some o => w.abort o
    | none => w
  stopped.updateJob id fun job => { job with timer := none, operation := none }

/-- Puts a job into a status. The errand of the result is to call the callbacks, unless this is
being done already. -/
def record (w : Jobs) (id : JobId) (status : JobStatus) : Jobs × List Errand :=
  let isNotifying := (w.job? id).any (·.isNotifying)
  let w := w.updateJob id (·.moveTo status)
  let w := { w with streams := w.streams.map fun (n, s) => (n, StatusStream.offer s id status) }
  let w := w.enter (.changed id status)
  (if status.isDone then w.windUp id else w, if isNotifying then [] else [.notify id])

/-- Writes the reply that tells of a status, if a writer is attached. -/
def announce (w : Jobs) (id : JobId) (status : JobStatus) (content : Content) :
    Except JobError Jobs :=
  match (w.job? id).bind (·.writer) with
  | some _ => w.write id status.code content
  | none => .ok w

/-- Changes the status of a job that is not done. To set the status that it has changes nothing. -/
def setStatus (w : Jobs) (id : JobId) (status : JobStatus) (content : Content) :
    Except JobError (Jobs × List Errand) :=
  match w.job? id with
  | none => .ok (w, [])
  | some job =>
    if job.status.isDone then .error (.alreadyDone job.status status)
    else if job.status = status then .ok (w, [])
    else (w.announce id status content).map fun w => w.record id status

end Jobs

end ActorHub
