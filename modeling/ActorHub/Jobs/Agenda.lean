import ActorHub.Jobs

/-!
# The agenda

Errands are done one at a time, the first of the agenda first; what an errand entails is put before
the rest. `step` does one errand and `run` does errands until none is left.
-/

namespace ActorHub.Jobs

/-! ## Requests -/

/-- Tells the maker of a request what became of it. -/
def tell (w : Jobs) (asker : Asker) (outcome : Outcome) : Jobs :=
  match asker with
  | .reaction label on => w.enter (.reacted label on outcome)
  | .operation label => w.enter (.worked label outcome)
  | .caller | .nobody => w

/-- Tells the asker what the job made of its request. -/
def conclude (w : Jobs) (asker : Asker) (result : Except JobError Unit) : Jobs :=
  match asker with
  | .caller => { w with answer := result }
  | _ => w.tell asker (result.mapError .job)

/-- Sets a status. What is to be done afterwards waits until all callbacks have been called. -/
def changeFor (w : Jobs) (asker : Asker) (id : JobId) (status : JobStatus) (content : Content)
    (afterwards : List Errand) : Jobs :=
  match w.setStatus id status content with
  | .ok (w, errands) => w.push (errands ++ afterwards)
  | .error e => w.conclude asker (.error e)

/-- Adds a callback behind those that a job has. -/
def addCallback (w : Jobs) (id : JobId) (c : Callback) : Jobs :=
  w.updateJob id fun job => { job with callbacks := job.callbacks ++ [c] }

/-- Does what is asked of a job. -/
def perform (w : Jobs) (asker : Asker) (id : JobId) : Act → Jobs
  | .set status content => w.changeFor asker id status content [.report asker]
  | .write code content =>
    match w.write id code content with
    | .ok w => w.conclude asker (.ok ())
    | .error e => w.conclude asker (.error e)
  | .cancel =>
    if w.isDone id then w.conclude asker (.ok ())
    else w.changeFor asker id .cancelling .empty [.completeCancel id asker]
  | .listen c => (w.addCallback id c).conclude asker (.ok ())

/-- Does what is asked of a job, or says why it cannot be done. -/
def handle (w : Jobs) (asker : Asker) (id : JobId) (r : Request) : Jobs :=
  match r.act with
  | .ok act => w.perform asker id act
  | .error e => w.tell asker (.error e)

/-- Makes a request to the job of a name. -/
def handleNamed (w : Jobs) (asker : Asker) (name : String) (r : Request) : Jobs :=
  match w.named? name with
  | some id => w.handle asker id r
  | none => w.tell asker (.error .noJob)

/-! ## Operations -/

def operation? (w : Jobs) (id : OperationId) : Option Operation :=
  w.operations.find? (·.id == id)

def updateOperation (w : Jobs) (id : OperationId) (f : Operation → Operation) : Jobs :=
  { w with operations := w.operations.map fun o => if o.id = id then f o else o }

def dropOperation (w : Jobs) (id : OperationId) : Jobs :=
  { w with operations := w.operations.filter (·.id != id) }

/-- Starts a script. It becomes the operation that ends with the job, and does its first step when
it is next due. -/
def start (w : Jobs) (id : JobId) (script : Script) : Jobs :=
  if w.isDone id then w
  else
    let o : Operation := ⟨w.started, id, script, w.now, false, false⟩
    { w with operations := w.operations ++ [o], started := w.started + 1 }.updateJob id
      fun job => { job with operation := some o.id }

/-- Ends an operation, and with it the job. -/
def complete (w : Jobs) (o : Operation) : Jobs :=
  let w := w.dropOperation o.id
  match o.script.failure with
  | none => w.perform .nobody o.job (.finish .empty)
  | some message => w.perform .nobody o.job (.fail (.text message))

/-- Puts an operation to sleep, unless it is to stop. -/
def sleep (w : Jobs) (o : Operation) (milliseconds : Nat) : Jobs :=
  if o.isAborted then w.dropOperation o.id
  else w.updateOperation o.id fun o => { o with wake := w.now + milliseconds, isAwake := false }

/-- Does the next step of an operation. A sleep of no length is none. -/
def operate (w : Jobs) (o : Operation) : Jobs :=
  match o.script.steps with
  | [] => w.complete o
  | first :: rest =>
    let w := w.updateOperation o.id fun o => { o with script := { o.script with steps := rest } }
    match first with
    | .sleep 0 => w.push [.operate o.id]
    | .sleep (n + 1) => w.sleep o (n + 1)
    | .ask r => (w.push [.operate o.id]).handle (.operation r.label) o.job r

/-! ## Errands -/

/-- Takes the oldest change that waits and calls the callbacks with it. -/
def notify (w : Jobs) (id : JobId) : Jobs :=
  match w.job? id with
  | none => w
  | some job =>
    match job.pending with
    | [] => w.updateJob id fun job => { job with isNotifying := false }
    | status :: rest =>
      (w.updateJob id fun job => { job with pending := rest }).push
        [.call id status 0 job.callbacks, .notify id]

/-- Calls one callback. -/
def callOne (w : Jobs) (status : JobStatus) : Callback → Jobs
  | .scripted _ reactions => w.push [.react (reactions.filter (·.trigger == some status))]
  | .untrack mid => if status.isDone then w.untrackDone mid else w

/-- Does an errand that has been taken off the agenda. -/
def carryOut (w : Jobs) : Errand → Jobs
  | .notify id => w.notify id
  | .call _ _ _ [] => w
  | .call id status place (c :: rest) =>
    ((w.push [.call id status (place + 1) rest]).enter
      (.called id place c.name? status)).callOne status c
  | .react [] => w
  | .react (r :: rest) =>
    (w.push [.react rest]).handleNamed (.reaction r.request.label r.on) r.on r.request
  | .report asker => w.conclude asker (.ok ())
  | .completeCancel id asker => w.perform asker id (.set .cancelled .empty)
  | .attach id script asker => (w.start id script).conclude asker (.ok ())
  | .operate id =>
    match w.operation? id with
    | some o => w.operate o
    | none => w

/-- Does the first errand of the agenda, if there is one. -/
def step (w : Jobs) : Option Jobs :=
  match w.agenda with
  | [] => none
  | e :: rest => some ({ w with agenda := rest }.carryOut e)

/-- Does errands until none is left, and no more than a number of them. -/
def runFor : Nat → Jobs → Jobs
  | 0, w => w
  | n + 1, w =>
    match w.step with
    | some w => runFor n w
    | none => w

/-- Callbacks that ask for change after change without end are cut off here. -/
def errandLimit : Nat := 10000000

def run (w : Jobs) : Jobs :=
  runFor errandLimit w

/-! ## From outside -/

/-- Asks something of a job and does all that follows. -/
def ask (w : Jobs) (id : JobId) (act : Act) : Jobs × Except JobError Unit :=
  let w := (w.perform .caller id act).run
  (w, w.answer)

/-- Runs a script as the body of a job, which is running from now on. -/
def spawn (w : Jobs) (id : JobId) (script : Script) : Jobs × Except JobError Unit :=
  if w.hasClock then
    let w := (w.changeFor .caller id .running .empty [.attach id script .caller]).run
    (w, w.answer)
  else (w, .error (.noClock .operation))

/-- How a job is built. -/
structure Blueprint where
  order : JobOrder
  /-- Where the job writes, if not through the writer of its parent. -/
  writer : Option Writer
  callbacks : List Callback
  /-- Whether the callbacks are called with the first status. -/
  callsNow : Bool
  /-- After how many milliseconds the job times out. -/
  timeout : Option Nat

/-- The writer of a new job: one of its own, or else the one of its parent. -/
def writerFor (w : Jobs) (b : Blueprint) : Jobs × Option WriterId :=
  match b.writer with
  | some writer => ({ w with writers := w.writers ++ [writer] }, some w.writers.length)
  | none => (w, (b.order.parent.bind w.job?).bind (·.writer))

/-- Adds a job. Its first status waits for the callbacks if they are called with it. -/
def add (w : Jobs) (b : Blueprint) : Jobs :=
  let id := w.jobs.length
  let (w, writer) := w.writerFor b
  let job := Job.ofOrder b.order writer b.callbacks
  let job := { job with timer := b.timeout.map (w.now + ·) }
  if b.callsNow then
    { w with jobs := w.jobs ++ [{ job with pending := [.ready], isNotifying := true }] }.push
      [.notify id]
  else { w with jobs := w.jobs ++ [job] }

/-- Builds a job, which needs a clock if it is to time out. -/
def build (w : Jobs) (b : Blueprint) : Jobs × Except JobError JobId :=
  if b.timeout.isSome && !w.hasClock then (w, .error (.noClock .timeout))
  else ((w.add b).run, .ok w.jobs.length)

end ActorHub.Jobs
