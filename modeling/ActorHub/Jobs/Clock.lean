import ActorHub.Jobs.Agenda

/-!
# Time

Time goes by in whole milliseconds. At each of them everything that is due is done: timers end
their jobs and operations go on.
-/

namespace ActorHub.Jobs

/-- What waits for a moment. -/
inductive Due where
  | operation (id : OperationId)
  | timer (id : JobId)

/-- What is due now. -/
def due (w : Jobs) : List Due :=
  let operations := w.operations.filter fun o => o.wake ≤ w.now
  let timers := (List.range w.jobs.length).filter fun id =>
    ((w.job? id).bind (·.timer)).any fun t => t ≤ w.now
  operations.map (.operation ·.id) ++ timers.map .timer

/-- Ends a job whose time is up, if anybody still holds it. -/
def timeOut (w : Jobs) (id : JobId) : Jobs :=
  match (w.job? id).bind (·.timer) with
  | none => w
  | some _ =>
    let disarmed := w.updateJob id fun job => { job with timer := none }
    if w.isHeld id then disarmed.perform .nobody id (.set .timedOut .empty) else disarmed

def begin (w : Jobs) : Due → Jobs
  | .operation id =>
    (w.updateOperation id fun o => { o with isAwake := true }).push [.operate id]
  | .timer id => w.timeOut id

/-- Does everything that is due. -/
def settle (w : Jobs) : Jobs :=
  w.due.foldl (fun w d => (w.begin d).run) w

/-- One millisecond. -/
def tick (w : Jobs) : Jobs :=
  if w.hasClock then { w with now := w.now + 1 }.settle else w

def tickFor : Nat → Jobs → Jobs
  | 0, w => w
  | n + 1, w => tickFor n w.tick

/-- Lets a number of milliseconds go by. -/
def advance (w : Jobs) (milliseconds : Nat) : Jobs :=
  if w.hasClock then tickFor milliseconds w.settle else w

/-- Lets time go by until a test holds, and no more than a number of milliseconds. -/
def waitFor (p : Jobs → Bool) : Nat → Jobs → Jobs
  | 0, w => w
  | n + 1, w => if p w then w else waitFor p n w.tick

/-- Whether a job shows a status of some kind to those who wait for it. -/
def shows (w : Jobs) (id : JobId) (p : JobStatus → Bool) : Bool :=
  (w.job? id).any fun job => p job.watched

/-- The status that a job shows once it is done, unless this takes too long. -/
def awaitDone (w : Jobs) (id : JobId) (limit : Nat) : Jobs × Option JobStatus :=
  let w := waitFor (·.shows id JobStatus.isDone) limit w.settle
  (w, ((w.job? id).map (·.watched)).filter JobStatus.isDone)

/-- Whether a job shows a status before this takes too long. -/
def awaitStatus (w : Jobs) (id : JobId) (status : JobStatus) (limit : Nat) : Jobs × Bool :=
  let w := waitFor (·.shows id (· == status)) limit w.settle
  (w, w.shows id (· == status))

/-! ## Streams -/

/-- Opens a stream of the changes of a job from now on. -/
def openStream (w : Jobs) (name : String) (id : JobId) : Jobs :=
  let s : StatusStream := ⟨id, [], w.isDone id⟩
  { w with streams := (name, s) :: w.streams.filter (·.1 != name) }

/-- The changes that wait in a stream, and whether it has ended: behind the last change of its job,
or with the job itself. -/
def readStream (w : Jobs) (s : StatusStream) : List JobStatus × Bool :=
  (s.unread, s.isFinished || s.unread.any (·.isDone) || !w.isHeld s.job)

def drain (w : Jobs) (name : String) : Jobs × Option (List JobStatus × Bool) :=
  match w.streams.lookup name with
  | none => (w, none)
  | some s =>
    let (statuses, ended) := w.readStream s
    let s := { s with unread := [], isFinished := ended }
    ({ w with streams := (name, s) :: w.streams.filter (·.1 != name) }, some (statuses, ended))

end ActorHub.Jobs
