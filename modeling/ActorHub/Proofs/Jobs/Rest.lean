import ActorHub.Proofs.Jobs.Final

/-!
# Jobs at rest

Jobs that only tell the tracking of their message ids when they change. What is asked of one of them is
done after a few errands (`Runs`), and all that comes of it is seen on the roster: the status of the
job, and that it is not tracked any more once it is done.
-/

namespace ActorHub

/-- A job of which no delivery is under way and whose only callback is the one that ends its
tracking. -/
structure Job.Resting (job : Job) : Prop where
  writer : job.writer = none
  callbacks : job.callbacks = [.untrack job.commandId]
  pending : job.pending = []
  isNotifying : job.isNotifying = false
  operation : job.operation = none

/-- A job of which no delivery is under way and of whose changes only the tracking hears. -/
structure Job.Quiet (job : Job) : Prop where
  writer : job.writer = none
  callbacks : job.callbacks = [.untrack job.commandId]
  pending : job.pending = []
  isNotifying : job.isNotifying = false

theorem Job.Resting.quiet {job : Job} (h : job.Resting) : job.Quiet :=
  ⟨h.writer, h.callbacks, h.pending, h.isNotifying⟩

/-- What there is to know of jobs at rest: the message id and the status of each, and which of them
are tracked. -/
structure Roster where
  entries : List (Nat × JobStatus)
  tracked : List (Nat × JobId)

namespace Roster

def isDone (r : Roster) (id : JobId) : Bool :=
  (r.entries[id]?).any (·.2.isDone)

def untrackDone (r : Roster) (mid : Nat) : Roster :=
  match r.tracked.lookup mid with
  | some id => if r.isDone id then { r with tracked := r.tracked.filter (·.1 != mid) } else r
  | none => r

def put (r : Roster) (id : JobId) (status : JobStatus) : Roster :=
  { r with entries := r.entries.modify id fun e => (e.1, status) }

def change (r : Roster) (id : JobId) (status : JobStatus) : Roster :=
  match r.entries[id]? with
  | none => r
  | some (mid, old) =>
    if old.isDone || old == status then r
    else if status.isDone then (r.put id status).untrackDone mid
    else r.put id status

def Changes : Roster → Roster → Prop :=
  Relation.ReflTransGen fun r r' => ∃ id status, r' = r.change id status

theorem changes_change (r : Roster) (id : JobId) (status : JobStatus) :
    r.Changes (r.change id status) :=
  .single ⟨id, status, rfl⟩

theorem change_of_done {r : Roster} {id : JobId} (h : r.isDone id = true) (status : JobStatus) :
    r.change id status = r := by
  unfold isDone at h
  unfold change
  split
  · rfl
  · next mid old hentry =>
    rw [hentry, Option.any_some] at h
    simp [h]

end Roster

namespace Jobs

def roster (w : Jobs) : Roster where
  entries := w.jobs.map fun job => (job.commandId, job.status)
  tracked := w.tracked

structure Resting (w : Jobs) : Prop where
  jobs : ∀ id job, w.job? id = some job → job.Resting
  operations : w.operations = []

/-! ## Runs -/

def Runs (k : Nat) (w w' : Jobs) : Prop :=
  ∀ n, runFor (n + k) w = runFor n w'

section
variable {k l : Nat} {u v w : Jobs}

theorem Runs.refl (w : Jobs) : Runs 0 w w :=
  fun _ => rfl

theorem Runs.trans (h : Runs k u v) (h' : Runs l v w) : Runs (k + l) u w := by
  intro n
  rw [← h' n, ← h (n + l), Nat.add_assoc, Nat.add_comm l k]

theorem runs_errand {e : Errand} {rest : List Errand} (h : w.agenda = e :: rest) :
    Runs 1 w (({ w with agenda := rest } : Jobs).carryOut e) := by
  intro n
  rw [runFor, step, h]

theorem runFor_of_idle (h : w.agenda = []) (n : Nat) : runFor n w = w := by
  cases n with
  | zero => rfl
  | succ n => simp only [runFor, step, h]

theorem run_of_runs (h : Runs k u w) (hk : k ≤ errandLimit) (hw : w.agenda = []) : u.run = w := by
  obtain ⟨n, hn⟩ := Nat.exists_eq_add_of_le hk
  rw [run, hn, Nat.add_comm, h n, runFor_of_idle hw]

end

/-! ## Rosters -/

section
variable (w : Jobs)

theorem entries_roster (id : JobId) :
    w.roster.entries[id]? = (w.job? id).map fun job => (job.commandId, job.status) := by
  simp only [roster, List.getElem?_map, job?]

theorem isDone_roster (id : JobId) : w.roster.isDone id = w.isDone id := by
  rw [Roster.isDone, entries_roster, isDone]
  cases w.job? id <;> rfl

theorem roster_untrackDone (mid : Nat) : (w.untrackDone mid).roster = w.roster.untrackDone mid := by
  have htracked : w.roster.tracked = w.tracked := rfl
  unfold untrackDone Roster.untrackDone
  rw [htracked]
  cases w.tracked.lookup mid with
  | none => rfl
  | some id =>
    simp only [isDone_roster]
    split <;> rfl

theorem roster_updateJob (id : JobId) {f : Job → Job}
    (hf : ∀ job, (f job).commandId = job.commandId ∧ (f job).status = job.status) :
    (w.updateJob id f).roster = w.roster := by
  have hentries : (w.updateJob id f).roster.entries = w.roster.entries := by
    refine List.ext_getElem? fun i => ?_
    rw [entries_roster, entries_roster, job?_updateJob]
    split
    · cases w.job? i <;> simp [hf]
    · rfl
  exact congrArg (Roster.mk · w.tracked) hentries

theorem roster_recorded (id : JobId) (status : JobStatus) :
    (w.recorded id status).roster = w.roster.put id status := by
  have hentries : (w.recorded id status).roster.entries = (w.roster.put id status).entries := by
    refine List.ext_getElem? fun i => ?_
    change ((w.updateJob id _).roster).entries[i]? = _
    rw [entries_roster, job?_updateJob, Roster.put, List.getElem?_modify, entries_roster]
    by_cases hi : id = i
    · subst hi
      cases w.job? id <;> simp [Job.moveTo]
    · simp [hi]
  exact congrArg (Roster.mk · w.tracked) hentries

end

/-! ## The delivery of one change -/

structure OnlyAt (before : Jobs) (id : JobId) (job : Job) (agenda : List Errand) (w : Jobs) : Prop where
  job : w.job? id = some job
  others : ∀ i, i ≠ id → w.job? i = before.job? i
  operations : w.operations = before.operations
  agenda : w.agenda = agenda

section
variable {before : Jobs} {id : JobId} {job : Job} {rest : List Errand} {w : Jobs}

theorem OnlyAt.updateJob {agenda : List Errand} (h : OnlyAt before id job agenda w) (f : Job → Job) :
    OnlyAt before id (f job) agenda (w.updateJob id f) where
  job := by rw [job?_updateJob, if_pos rfl, h.job, Option.map_some]
  others i hi := by rw [job?_updateJob, if_neg hi.symm, h.others i hi]
  operations := h.operations
  agenda := h.agenda

theorem OnlyAt.begin {status : JobStatus} {later : List JobStatus} {cs : List Callback}
    (h : OnlyAt before id job (.notify id :: rest) w) (hp : job.pending = status :: later)
    (hc : job.callbacks = cs) :
    ∃ w', Runs 1 w w' ∧ w'.roster = w.roster ∧
      OnlyAt before id { job with pending := later } (.call id status 0 cs :: .notify id :: rest) w' := by
  subst hc
  let u : Jobs := { w with agenda := rest }
  have hu : OnlyAt before id job rest u := ⟨h.job, h.others, h.operations, rfl⟩
  have hset := hu.updateJob fun job => { job with pending := later }
  let w' := (u.updateJob id fun job => { job with pending := later }).push
    [.call id status 0 job.callbacks, .notify id]
  have hnotify : u.notify id = w' := by
    unfold notify
    rw [hu.job]
    simp only [hp]
    rfl
  have hruns : Runs 1 w (u.notify id) := runs_errand h.agenda
  rw [hnotify] at hruns
  refine ⟨w', hruns, roster_updateJob u id fun _ => ⟨rfl, rfl⟩, hset.job, hset.others,
    hset.operations, ?_⟩
  change _ ++ (u.updateJob id _).agenda = _
  rw [hset.agenda]
  rfl

theorem jobs_untrackDone (w : Jobs) (mid : Nat) : (w.untrackDone mid).jobs = w.jobs ∧
    (w.untrackDone mid).agenda = w.agenda ∧ (w.untrackDone mid).operations = w.operations := by
  unfold untrackDone
  split
  · split
    · exact ⟨rfl, rfl, rfl⟩
    · exact ⟨rfl, rfl, rfl⟩
  · exact ⟨rfl, rfl, rfl⟩

theorem OnlyAt.untrackDone {agenda : List Errand} (h : OnlyAt before id job agenda w) (mid : Nat) :
    OnlyAt before id job agenda (w.untrackDone mid) := by
  obtain ⟨hjobs, hagenda, hoperations⟩ := jobs_untrackDone w mid
  have hjob : ∀ i, (w.untrackDone mid).job? i = w.job? i := by
    intro i
    rw [job?, hjobs, job?]
  exact ⟨(hjob id).trans h.job, fun i hi => (hjob i).trans (h.others i hi),
    hoperations.trans h.operations, hagenda.trans h.agenda⟩

theorem OnlyAt.call {status : JobStatus} {mid : Nat}
    (h : OnlyAt before id job (.call id status 0 [.untrack mid] :: rest) w) :
    ∃ w', Runs 2 w w' ∧
      w'.roster = (if status.isDone then w.roster.untrackDone mid else w.roster) ∧
      OnlyAt before id job rest w' := by
  let called : Jobs :=
    { w with agenda := .call id status 1 [] :: rest }.enter (.called id 0 none status)
  have hcalled : OnlyAt before id job (.call id status 1 [] :: rest) called :=
    ⟨h.job, h.others, h.operations, rfl⟩
  have hroster : called.roster = w.roster := rfl
  have hfirst : Runs 1 w (called.callOne status (.untrack mid)) := runs_errand h.agenda
  have hlast : ∀ u, OnlyAt before id job (.call id status 1 [] :: rest) u →
      ∃ w', Runs 1 u w' ∧ w'.roster = u.roster ∧ OnlyAt before id job rest w' := by
    intro u hu
    exact ⟨_, runs_errand hu.agenda, rfl, hu.job, hu.others, hu.operations, rfl⟩
  cases hs : status.isDone with
  | false =>
    have hone : called.callOne status (.untrack mid) = called := by simp [callOne, hs]
    obtain ⟨w', hruns, hroster', hw'⟩ := hlast called hcalled
    rw [hone] at hfirst
    refine ⟨w', hfirst.trans hruns, ?_, hw'⟩
    simpa [hroster] using hroster'
  | true =>
    have hone : called.callOne status (.untrack mid) = called.untrackDone mid := by
      simp [callOne, hs]
    obtain ⟨w', hruns, hroster', hw'⟩ := hlast _ (hcalled.untrackDone mid)
    rw [hone] at hfirst
    refine ⟨w', hfirst.trans hruns, ?_, hw'⟩
    rw [hroster', roster_untrackDone, hroster, if_pos rfl]

theorem OnlyAt.finish (h : OnlyAt before id job (.notify id :: rest) w) (hp : job.pending = []) :
    ∃ w', Runs 1 w w' ∧ w'.roster = w.roster ∧
      OnlyAt before id { job with isNotifying := false } rest w' := by
  let u : Jobs := { w with agenda := rest }
  have hu : OnlyAt before id job rest u := ⟨h.job, h.others, h.operations, rfl⟩
  have hset := hu.updateJob fun job => { job with isNotifying := false }
  have hnotify : u.notify id = u.updateJob id fun job => { job with isNotifying := false } := by
    unfold notify
    rw [hu.job]
    simp only [hp]
  have hruns : Runs 1 w (u.notify id) := runs_errand h.agenda
  rw [hnotify] at hruns
  exact ⟨_, hruns, roster_updateJob u id fun _ => ⟨rfl, rfl⟩, hset⟩

theorem OnlyAt.deliver {status : JobStatus} {mid : Nat}
    (h : OnlyAt before id job (.notify id :: rest) w) (hp : job.pending = [status])
    (hc : job.callbacks = [.untrack mid]) :
    ∃ w', Runs 4 w w' ∧
      w'.roster = (if status.isDone then w.roster.untrackDone mid else w.roster) ∧
      OnlyAt before id { job with pending := [], isNotifying := false } rest w' := by
  obtain ⟨w₁, hruns₁, hroster₁, h₁⟩ := h.begin hp hc
  obtain ⟨w₂, hruns₂, hroster₂, h₂⟩ := h₁.call
  obtain ⟨w₃, hruns₃, hroster₃, h₃⟩ := h₂.finish rfl
  refine ⟨w₃, (hruns₁.trans hruns₂).trans hruns₃, ?_, h₃⟩
  rw [hroster₃, hroster₂, hroster₁]

end

/-! ## Changes at rest -/

/-- One job is being dealt with and all others are at rest. -/
structure Attends (id : JobId) (job : Job) (agenda : List Errand) (w : Jobs) : Prop where
  job : w.job? id = some job
  others : ∀ i other, i ≠ id → w.job? i = some other → other.Resting
  operations : w.operations = []
  agenda : w.agenda = agenda

section
variable {id : JobId} {job : Job} {w : Jobs}

theorem Resting.attends (h : w.Resting) (hj : w.job? id = some job) :
    Attends id job w.agenda w :=
  ⟨hj, fun i other _ hother => h.jobs i other hother, h.operations, rfl⟩

theorem Attends.updateJob {agenda : List Errand} (h : Attends id job agenda w) (f : Job → Job) :
    Attends id (f job) agenda (w.updateJob id f) where
  job := by rw [job?_updateJob, if_pos rfl, h.job, Option.map_some]
  others i other hi hother := by
    rw [job?_updateJob, if_neg hi.symm] at hother
    exact h.others i other hi hother
  operations := h.operations
  agenda := h.agenda

theorem Attends.resting {agenda : List Errand} (h : Attends id job agenda w) (hj : job.Resting) :
    w.Resting := by
  refine ⟨fun i other hother => ?_, h.operations⟩
  by_cases hi : i = id
  · subst hi
    obtain rfl := Option.some.inj (h.job.symm.trans hother)
    exact hj
  · exact h.others i other hi hother

theorem Resting.quiet (h : w.Resting) : ∀ job, w.job? id = some job → job.Quiet :=
  fun job hj => (h.jobs id job hj).quiet

theorem job?_windUp (w : Jobs) (id i : JobId) : (w.windUp id).job? i =
    (w.updateJob id fun job => { job with timer := none, operation := none }).job? i := by
  unfold windUp
  dsimp only
  split
  · rw [job?_updateJob, job?_updateJob]
    rfl
  · rfl

theorem roster_windUp (w : Jobs) (id : JobId) : (w.windUp id).roster = w.roster := by
  unfold windUp
  dsimp only
  split <;> exact roster_updateJob _ id fun _ => ⟨rfl, rfl⟩

theorem agenda_windUp (w : Jobs) (id : JobId) : (w.windUp id).agenda = w.agenda := by
  unfold windUp
  dsimp only
  split <;> rfl

theorem operations_windUp (h : w.operations = []) (id : JobId) : (w.windUp id).operations = [] := by
  unfold windUp
  dsimp only
  split
  · show w.operations.filterMap _ = []
    rw [h, List.filterMap_nil]
  · exact h

theorem record_quiet (hj : w.job? id = some job) (hq : job.Quiet) (status : JobStatus) :
    let v := (w.record id status).1
    ∃ job', v.job? id = some job' ∧ (∀ i, i ≠ id → v.job? i = w.job? i) ∧ v.agenda = w.agenda ∧
      job'.pending = [status] ∧ job'.callbacks = [.untrack job.commandId] ∧
      (w.Resting → v.operations = [] ∧ { job' with pending := [], isNotifying := false }.Resting) ∧
      v.roster = w.roster.put id status := by
  intro v
  have hpending : job.pending ++ [status] = [status] := by rw [hq.pending, List.nil_append]
  let changed : Job := job.moveTo status
  have hrecorded : ∀ i, (w.recorded id status).job? i = (w.updateJob id (·.moveTo status)).job? i :=
    fun i => rfl
  have hat : ∀ f : Job → Job, (w.updateJob id f).job? id = some (f job) := by
    intro f
    rw [job?_updateJob, if_pos rfl, hj, Option.map_some]
  have hother : ∀ (u : Jobs) (f : Job → Job) i, i ≠ id → (u.updateJob id f).job? i = u.job? i := by
    intro u f i hi
    rw [job?_updateJob, if_neg hi.symm]
  have hv : v = if status.isDone then (w.recorded id status).windUp id else w.recorded id status :=
    record_fst id status
  by_cases hd : status.isDone = true
  · rw [if_pos hd] at hv
    rw [hv]
    refine ⟨{ changed with timer := none, operation := none }, ?_, fun i hi => ?_,
      agenda_windUp _ id, hpending, hq.callbacks, fun h => ?_, ?_⟩
    · rw [job?_windUp, job?_updateJob, if_pos rfl, hrecorded, hat, Option.map_some]
    · rw [job?_windUp, hother _ _ i hi, hrecorded, hother _ _ i hi]
    · exact ⟨operations_windUp (w := w.recorded id status) h.operations id, hq.writer, hq.callbacks, rfl, rfl, rfl⟩
    · rw [roster_windUp, roster_recorded]
  · rw [if_neg hd] at hv
    rw [hv]
    refine ⟨changed, (hrecorded id).trans (hat _),
      fun i hi => (hrecorded i).trans (hother _ _ i hi), rfl, hpending, hq.callbacks, fun h => ?_, roster_recorded w id status⟩
    exact ⟨h.operations, hq.writer, hq.callbacks, rfl, rfl, (h.jobs id job hj).operation⟩

theorem Resting.congr {w' : Jobs} (h : w.Resting) (hjobs : w'.jobs = w.jobs)
    (hoperations : w'.operations = w.operations) : w'.Resting := by
  refine ⟨fun i other hother => h.jobs i other ?_, hoperations.trans h.operations⟩
  rwa [job?, ← hjobs]

theorem roster_conclude (w : Jobs) (asker : Asker) (result : Except JobError Unit) :
    (w.conclude asker result).roster = w.roster := by
  cases asker <;> rfl

theorem Resting.conclude (h : w.Resting) (asker : Asker) (result : Except JobError Unit) :
    (w.conclude asker result).Resting :=
  have hanswers := conclude_onlyAnswers w asker result
  h.congr hanswers.jobs hanswers.operations

theorem roster_change_of_kept (hj : w.job? id = some job) {status : JobStatus}
    (hs : job.status.isDone = true ∨ job.status = status) : w.roster.change id status = w.roster := by
  unfold Roster.change
  rw [entries_roster, hj, Option.map_some]
  rcases hs with hs | hs <;> simp [hs]

theorem roster_change_of_changed (hj : w.job? id = some job) {status : JobStatus}
    (hd : job.status.isDone = false) (hs : job.status ≠ status) :
    w.roster.change id status =
      if status.isDone then (w.roster.put id status).untrackDone job.commandId
      else w.roster.put id status := by
  unfold Roster.change
  rw [entries_roster, hj, Option.map_some]
  simp [hd, hs]

theorem setStatus_of_changed (hj : w.job? id = some job) (hwriter : job.writer = none)
    {status : JobStatus} (hd : job.status.isDone = false) (hs : job.status ≠ status)
    (content : Content) : w.setStatus id status content = .ok (w.record id status) := by
  have hannounce : w.announce id status content = .ok w := by
    unfold announce
    rw [hj, Option.bind_some, hwriter]
  simp [setStatus, hj, hd, hs, hannounce, Except.map]

/-- What becomes of a request to one job: its change is seen on the roster, and the other jobs stay as
they are. -/
structure Becomes (id : JobId) (status : JobStatus) (agenda : List Errand) (w w' : Jobs) : Prop where
  roster : w'.roster = w.roster.change id status
  others : ∀ i, i ≠ id → w'.job? i = w.job? i
  resting : w.Resting → w'.Resting
  agenda : w'.agenda = agenda

theorem deliver_record (hj : w.job? id = some job) (hq : job.Quiet) {status : JobStatus}
    (hd : job.status.isDone = false) (hs : job.status ≠ status) (afterwards : List Errand) :
    ∃ w', Runs 4 ((w.record id status).1.push ((w.record id status).2 ++ afterwards)) w' ∧
      Becomes id status (afterwards ++ w.agenda) w w' := by
  have herrands : (w.record id status).2 = [.notify id] := by
    simp [record, hj, hq.isNotifying]
  obtain ⟨job', hjob, hothers, hagenda, hp, hc, hresting, hroster⟩ := record_quiet hj hq status
  have hpushed : OnlyAt (w.record id status).1 id job' (.notify id :: (afterwards ++ w.agenda))
      ((w.record id status).1.push (.notify id :: afterwards)) :=
    ⟨hjob, fun _ _ => rfl, rfl, by simp [push, hagenda]⟩
  have hput : ((w.record id status).1.push (.notify id :: afterwards)).roster =
      w.roster.put id status := hroster
  obtain ⟨w', hruns, hroster', hw'⟩ := hpushed.deliver hp hc
  have hkept : ∀ i, i ≠ id → w'.job? i = w.job? i := fun i hi => (hw'.others i hi).trans (hothers i hi)
  rw [herrands]
  refine ⟨w', hruns, ?_, hkept, fun h => ?_, hw'.agenda⟩
  · rw [hroster', hput, roster_change_of_changed hj hd hs]
  · have hattends : Attends id _ (afterwards ++ w.agenda) w' :=
      ⟨hw'.job, fun i other hi hother => h.jobs i other ((hkept i hi).symm.trans hother),
        hw'.operations.trans (hresting h).1, hw'.agenda⟩
    exact hattends.resting (hresting h).2

theorem changeFor_quiet (hq : ∀ job, w.job? id = some job → job.Quiet) (asker : Asker)
    (status : JobStatus) (content : Content) (afterwards : List Errand) :
    ∃ k ≤ 4, ∃ w', Runs k (w.changeFor asker id status content afterwards) w' ∧
      Becomes id status (if w.isDone id then w.agenda else afterwards ++ w.agenda) w w' := by
  have hkeep : w.setStatus id status content = .ok (w, []) → w.isDone id = false →
      w.roster.change id status = w.roster → ∃ k ≤ 4, ∃ w',
        Runs k (w.changeFor asker id status content afterwards) w' ∧
        Becomes id status (if w.isDone id then w.agenda else afterwards ++ w.agenda) w w' := by
    intro hset hd hroster
    refine ⟨0, Nat.zero_le 4, w.push afterwards, ?_, hroster.symm, fun _ _ => rfl,
      fun h => h.congr rfl rfl, ?_⟩
    · rw [changeFor, hset]
      exact .refl _
    · rw [hd]
      rfl
  cases hj : w.job? id with
  | none =>
    refine hkeep (by simp [setStatus, hj]) (by simp [isDone, hj]) ?_
    unfold Roster.change
    rw [entries_roster, hj, Option.map_none]
  | some job =>
    cases hd : job.status.isDone with
    | true =>
      have hstatus : w.hasStatus id job.status = true := hasStatus_iff.2 ⟨job, hj, rfl⟩
      have hanswers := conclude_onlyAnswers w asker (.error (.alreadyDone job.status status))
      refine ⟨0, Nat.zero_le 4, w.conclude asker (.error (.alreadyDone job.status status)), ?_,
        ?_, fun i _ => ?_, fun h => h.conclude asker _, ?_⟩
      · rw [changeFor_of_done hstatus hd]
        exact .refl _
      · rw [roster_conclude, roster_change_of_kept hj (.inl hd)]
      · rw [job?, hanswers.jobs, job?]
      · rw [hanswers.agenda, isDone_of_hasStatus hstatus hd, if_pos rfl]
    | false =>
      have hnot : w.isDone id = false := by simp [isDone, hj, hd]
      by_cases hs : job.status = status
      · subst hs
        exact hkeep (by simp [setStatus, hj, hd]) hnot (roster_change_of_kept hj (.inr rfl))
      · obtain ⟨w', hruns, hw'⟩ := deliver_record hj (hq job hj) hd hs afterwards
        refine ⟨4, Nat.le_refl 4, w', ?_, ?_⟩
        · rw [changeFor, setStatus_of_changed hj (hq job hj).writer hd hs]
          exact hruns
        · rw [hnot]
          exact hw'

end

/-! ## Requests at rest -/

section
variable {w : Jobs}

theorem set_quiet {id : JobId} (hq : ∀ job, w.job? id = some job → job.Quiet) (hidle : w.agenda = [])
    (asker : Asker) (status : JobStatus) (content : Content) :
    ∃ k ≤ 5, ∃ w', Runs k (w.perform asker id (.set status content)) w' ∧ Becomes id status [] w w' ∧
      (asker = .caller → w.isDone id = false → w'.answer = .ok ()) := by
  obtain ⟨k, hk, u, hruns, hu⟩ := changeFor_quiet hq asker status content [.report asker]
  rw [hidle, List.append_nil] at hu
  cases hd : w.isDone id with
  | true =>
    rw [hd, if_pos rfl] at hu
    exact ⟨k, by omega, u, hruns, hu, nofun⟩
  | false =>
    rw [hd, if_neg Bool.false_ne_true] at hu
    have hreport : Runs 1 u (({ u with agenda := [] } : Jobs).conclude asker (.ok ())) :=
      runs_errand hu.agenda
    have hanswers := conclude_onlyAnswers { u with agenda := [] } asker (.ok ())
    refine ⟨k + 1, by omega, _, hruns.trans hreport, ⟨?_, fun i hi => ?_, fun h => ?_, ?_⟩, ?_⟩
    · rw [roster_conclude, ← hu.roster]
      rfl
    · rw [← hu.others i hi, job?, hanswers.jobs, job?]
    · have hrests : ({ u with agenda := [] } : Jobs).Resting := (hu.resting h).congr rfl rfl
      exact hrests.conclude asker _
    · rw [hanswers.agenda]
    · rintro rfl -
      rfl

theorem cancel_at_rest (h : w.Resting) (hidle : w.agenda = []) (asker : Asker) (id : JobId) :
    ∃ k ≤ 10, ∃ w', Runs k (w.perform asker id .cancel) w' ∧ w'.Resting ∧ w'.agenda = [] ∧
      w'.roster = (w.roster.change id .cancelling).change id .cancelled := by
  unfold perform
  dsimp only
  cases hd : w.isDone id with
  | true =>
    have hdone : w.roster.isDone id = true := (isDone_roster w id).trans hd
    refine ⟨0, Nat.zero_le 10, w.conclude asker (.ok ()), .refl _, h.conclude asker _, ?_, ?_⟩
    · rw [(conclude_onlyAnswers w asker _).agenda, hidle]
    · rw [roster_conclude, Roster.change_of_done hdone, Roster.change_of_done hdone]
  | false =>
    obtain ⟨k, hk, u, hruns, hu⟩ :=
      changeFor_quiet h.quiet asker .cancelling .empty [.completeCancel id asker]
    rw [hd, if_neg Bool.false_ne_true, hidle] at hu
    have hcancel : Runs 1 u
        (({ u with agenda := [] } : Jobs).perform asker id (.set .cancelled .empty)) :=
      runs_errand hu.agenda
    have hrests : ({ u with agenda := [] } : Jobs).Resting := (hu.resting h).congr rfl rfl
    obtain ⟨l, hl, w', hruns', hw', -⟩ := set_quiet hrests.quiet rfl asker .cancelled .empty
    refine ⟨k + 1 + l, by omega, w', (hruns.trans hcancel).trans hruns', hw'.resting hrests,
      hw'.agenda, ?_⟩
    rw [hw'.roster, ← hu.roster]
    rfl

theorem write_at_rest (h : w.Resting) (hidle : w.agenda = []) (asker : Asker) (id : JobId)
    (code : Char) (content : Content) :
    let w' := w.perform asker id (.write code content)
    w'.Resting ∧ w'.agenda = [] ∧ w'.roster = w.roster := by
  have hconclude : ∀ (u : Jobs) result, u.Resting → u.agenda = [] →
      (u.conclude asker result).Resting ∧ (u.conclude asker result).agenda = [] ∧
        (u.conclude asker result).roster = u.roster := by
    intro u result hu hidle'
    have hanswers := conclude_onlyAnswers u asker result
    exact ⟨hu.conclude asker result, hanswers.agenda.trans hidle', roster_conclude u asker result⟩
  unfold perform
  dsimp only
  split
  · next u hu =>
    rcases wrote_of_write hu with rfl | ⟨writer, writers, reply, rfl⟩
    · exact hconclude u _ h hidle
    · exact hconclude _ _ (h.congr rfl rfl) hidle
  · exact hconclude w _ h hidle

theorem timeOut_at_rest (h : w.Resting) (hidle : w.agenda = []) (id : JobId) :
    ∃ k ≤ 5, ∃ w', Runs k (w.timeOut id) w' ∧ w'.Resting ∧ w'.agenda = [] ∧
      (w'.roster = w.roster ∨ w'.roster = w.roster.change id .timedOut) := by
  unfold timeOut
  cases ht : (w.job? id).bind (·.timer) with
  | none => exact ⟨0, Nat.zero_le 5, w, .refl w, h, hidle, .inl rfl⟩
  | some time =>
    obtain ⟨job, hj, -⟩ := Option.bind_eq_some_iff.1 ht
    let disarmed := w.updateJob id fun job => { job with timer := none }
    have hattends := (h.attends hj).updateJob fun job => { job with timer := none }
    have hr := h.jobs id job hj
    have hrests : disarmed.Resting := hattends.resting
      ⟨hr.writer, hr.callbacks, hr.pending, hr.isNotifying, hr.operation⟩
    have hroster : disarmed.roster = w.roster := roster_updateJob w id fun _ => ⟨rfl, rfl⟩
    dsimp only
    split
    · obtain ⟨k, hk, w', hruns, hw', -⟩ := set_quiet hrests.quiet hidle .nobody .timedOut .empty
      exact ⟨k, hk, w', hruns, hw'.resting hrests, hw'.agenda, .inr (hroster ▸ hw'.roster)⟩
    · exact ⟨0, Nat.zero_le 5, disarmed, .refl _, hrests, hidle, .inl hroster⟩

end

/-! ## Operations at rest -/

structure Idle (w : Jobs) : Prop extends w.Resting where
  agenda : w.agenda = []

section
variable {w : Jobs}

theorem idle_empty (hasClock : Bool) : (empty hasClock).Idle := by
  refine ⟨⟨fun id job hj => ?_, rfl⟩, rfl⟩
  simp [job?, empty] at hj

theorem ask_quiet {id : JobId} (hq : ∀ job, w.job? id = some job → job.Quiet) (hidle : w.agenda = [])
    (status : JobStatus) (content : Content) :
    Becomes id status [] w (w.ask id (.set status content)).1 ∧
      (w.isDone id = false → (w.ask id (.set status content)).2 = .ok ()) := by
  obtain ⟨k, hk, w', hruns, hw', hanswer⟩ := set_quiet hq hidle .caller status content
  have hrun := run_of_runs hruns (by unfold errandLimit; omega) hw'.agenda
  unfold ask
  rw [hrun]
  exact ⟨hw', hanswer rfl⟩

theorem Idle.set (h : w.Idle) (id : JobId) (status : JobStatus) (content : Content) :
    (w.ask id (.set status content)).1.Idle ∧
      (w.ask id (.set status content)).1.roster = w.roster.change id status ∧
      (w.isDone id = false → (w.ask id (.set status content)).2 = .ok ()) := by
  obtain ⟨hw', hanswer⟩ := ask_quiet h.quiet h.agenda status content
  exact ⟨⟨hw'.resting h.toResting, hw'.agenda⟩, hw'.roster, hanswer⟩

theorem Idle.cancel (h : w.Idle) (id : JobId) : (w.ask id .cancel).1.Idle ∧
    (w.ask id .cancel).1.roster = (w.roster.change id .cancelling).change id .cancelled := by
  obtain ⟨k, hk, w', hruns, hw', hidle, hroster⟩ :=
    cancel_at_rest h.toResting h.agenda .caller id
  have hrun := run_of_runs hruns (by unfold errandLimit; omega) hidle
  unfold ask
  rw [hrun]
  exact ⟨⟨hw', hidle⟩, hroster⟩

theorem Idle.write (h : w.Idle) (id : JobId) (code : Char) (content : Content) :
    (w.ask id (.write code content)).1.Idle ∧
      (w.ask id (.write code content)).1.roster = w.roster := by
  obtain ⟨hw', hidle, hroster⟩ := write_at_rest h.toResting h.agenda .caller id code content
  unfold ask
  rw [run_of_idle hidle]
  exact ⟨⟨hw', hidle⟩, hroster⟩

theorem Idle.settle (h : w.Idle) : w.settle.Idle ∧ w.roster.Changes w.settle.roster := by
  have htimers : ∀ (ids : List JobId) (u : Jobs), u.Idle →
      let u' := (ids.map Due.timer).foldl (fun u d => (u.begin d).run) u
      u'.Idle ∧ u.roster.Changes u'.roster := by
    intro ids
    induction ids with
    | nil => exact fun u hu => ⟨hu, .refl⟩
    | cons id ids ih =>
      intro u hu
      obtain ⟨k, hk, v, hruns, hv, hidle, hroster⟩ := timeOut_at_rest hu.toResting hu.agenda id
      have hrun : (u.begin (.timer id)).run = v :=
        run_of_runs hruns (by unfold errandLimit; omega) hidle
      have hchanges : u.roster.Changes v.roster := by
        rcases hroster with hroster | hroster
        · rw [hroster]
          exact .refl
        · rw [hroster]
          exact u.roster.changes_change id .timedOut
      obtain ⟨hlast, hlater⟩ := ih v ⟨hv, hidle⟩
      rw [List.map_cons, List.foldl_cons, hrun]
      exact ⟨hlast, hchanges.trans hlater⟩
  have hdue : w.due = (((List.range w.jobs.length).filter fun id =>
      ((w.job? id).bind (·.timer)).any fun t => t ≤ w.now).map .timer) := by
    simp [due, h.operations]
  unfold Jobs.settle
  rw [hdue]
  exact htimers _ w h

theorem Idle.tick (h : w.Idle) : w.tick.Idle ∧ w.roster.Changes w.tick.roster := by
  unfold Jobs.tick
  split
  · have hlater : ({ w with now := w.now + 1 } : Jobs).Idle := ⟨h.congr rfl rfl, h.agenda⟩
    exact hlater.settle
  · exact ⟨h, .refl⟩

theorem Idle.advance (h : w.Idle) (milliseconds : Nat) : (w.advance milliseconds).Idle ∧
    w.roster.Changes (w.advance milliseconds).roster := by
  have hticks : ∀ n (u : Jobs), u.Idle → (tickFor n u).Idle ∧ u.roster.Changes (tickFor n u).roster := by
    intro n
    induction n with
    | zero => exact fun u hu => ⟨hu, .refl⟩
    | succ n ih =>
      intro u hu
      obtain ⟨htick, hchanges⟩ := hu.tick
      obtain ⟨hlast, hlater⟩ := ih u.tick htick
      exact ⟨hlast, hchanges.trans hlater⟩
  unfold Jobs.advance
  split
  · obtain ⟨hsettled, hchanges⟩ := h.settle
    obtain ⟨hlast, hlater⟩ := hticks milliseconds w.settle hsettled
    exact ⟨hlast, hchanges.trans hlater⟩
  · exact ⟨h, .refl⟩

end

end Jobs

end ActorHub
