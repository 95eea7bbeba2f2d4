import ActorHub.Proofs.Jobs.Effects
import ActorHub.Proofs.Jobs.Ending

/-!
# All or nothing

What a request for a status comes to. It is refused, and nothing comes of it but an answer; or the job has the
status already, and nothing comes of it at all; or everything that belongs to the change is done at once
(`Commits`): the reply is written, the status is put down, shown to those who wait for the job and queued for
the callbacks, the streams are offered it, and what ends with the job ends. Callbacks are called afterwards.
-/

namespace ActorHub

/-- A job that a change was recorded for. -/
def Job.changed (job : Job) (status : JobStatus) : Job :=
  { job with
    status
    watched := status
    watched_eq := rfl
    pending := job.pending ++ [status]
    isNotifying := true
    timer := if status.isDone then none else job.timer
    operation := if status.isDone then none else job.operation }

namespace Jobs

/-! ## Refusals -/

inductive Mute (w : Jobs) (job : Job) (code : Char) (content : Content) : JobError → Prop
  | noWriter : job.writer = none → Mute w job code content .noWriter
  | message {writer : WriterId} {e : MessageError} : job.writer = some writer →
      content.toKeywords job.defaultKeyword code = .error e → Mute w job code content (.message e)
  | writer {writer : WriterId} {keywords : Keywords} {reply : OutgoingReply} {state : Writer}
      {fault : WriterFault} : job.writer = some writer →
      content.toKeywords job.defaultKeyword code = .ok keywords →
      w.reply? job code keywords = some reply → w.writers[writer]? = some state →
      state.accept = .error fault → Mute w job code content (.writer fault)
  | missing {writer : WriterId} {keywords : Keywords} {reply : OutgoingReply} : job.writer = some writer →
      content.toKeywords job.defaultKeyword code = .ok keywords →
      w.reply? job code keywords = some reply → w.writers[writer]? = none →
      Mute w job code content .noWriter

/-- Why a status is refused. A job without a writer says nothing, so nothing can go wrong with it. -/
inductive Refusal (w : Jobs) (job : Job) (status : JobStatus) (content : Content) : JobError → Prop
  | done : job.status.isDone = true → Refusal w job status content (.alreadyDone job.status status)
  | mute {e : JobError} : job.status.isDone = false → job.status ≠ status → job.writer ≠ none →
      Mute w job status.code content e → Refusal w job status content e

/-! ## Changes -/

/-- What a job says with a change, and the writers afterwards. -/
inductive Said (w : Jobs) (id : JobId) (job : Job) (code : Char) (content : Content) :
    List JournalEntry → List Writer → Prop
  | silent : job.writer = none → Said w id job code content [] w.writers
  /-- The reply of a child that its parent does not give. -/
  | dropped {writer : WriterId} {p : JobId} {keywords : Keywords} : job.writer = some writer →
      content.toKeywords job.defaultKeyword code = .ok keywords → job.parent = some p →
      (∀ parent, w.job? p = some parent → childCode? code keywords = none) →
      Said w id job code content [] w.writers
  | reply {writer : WriterId} {keywords : Keywords} {reply : OutgoingReply} {state state' : Writer} :
      job.writer = some writer → content.toKeywords job.defaultKeyword code = .ok keywords →
      w.reply? job code keywords = some reply → w.writers[writer]? = some state →
      state.accept = .ok state' →
      Said w id job code content [.wrote id writer reply] (w.writers.set writer state')

/-- All that belongs to a change of a status is done, and nothing else. -/
structure Commits (w : Jobs) (id : JobId) (job : Job) (status : JobStatus) (content : Content) (w' : Jobs) :
    Prop where
  jobs : w'.jobs = w.jobs.set id (job.changed status)
  said : ∃ replies, Said w id job status.code content replies w'.writers ∧
    w'.journal = w.journal ++ replies ++ [.changed id status]
  streams : w'.streams = w.streams.map fun (n, s) => (n, s.offer id status)
  operations : w'.operations =
    if status.isDone then (match job.operation with
      | some o => (w.abort o).operations
      | none => w.operations)
    else w.operations
  others : w' = { w with
    jobs := w'.jobs
    writers := w'.writers
    journal := w'.journal
    streams := w'.streams
    operations := w'.operations
    agenda := w'.agenda }

section
variable {w w' : Jobs} {id : JobId} {job : Job} {code : Char} {content : Content} {status : JobStatus}

theorem reply?_eq_none_iff {keywords : Keywords} : w.reply? job code keywords = none ↔
    ∃ p, job.parent = some p ∧ ∀ parent, w.job? p = some parent → childCode? code keywords = none := by
  unfold reply?
  cases job.parent with
  | none => simp
  | some p => cases w.job? p <;> cases childCode? code keywords <;> simp

theorem mute_of_write (hj : w.job? id = some job) {e : JobError} (h : w.write id code content = .error e) :
    Mute w job code content e := by
  unfold write at h
  rw [hj] at h
  dsimp only at h
  split at h
  · next writer hwriter =>
    obtain h | ⟨keywords, hkeywords, h⟩ := bind_eq_error_iff.mp h
    · obtain ⟨e', he', rfl⟩ := mapError_eq_error_iff.mp h
      exact .message hwriter he'
    · rw [mapError_eq_ok_iff] at hkeywords
      split at h
      · cases h
      · next reply hreply =>
        split at h
        · next state hstate =>
          obtain h | ⟨state', -, h⟩ := bind_eq_error_iff.mp h
          · obtain ⟨fault, hfault, rfl⟩ := mapError_eq_error_iff.mp h
            exact .writer hwriter hkeywords hreply hstate hfault
          · cases h
        · next hstate =>
          cases h
          exact .missing hwriter hkeywords hreply (Option.eq_none_iff_forall_ne_some.mpr hstate)
  · next hwriter =>
    cases h
    exact .noWriter (Option.eq_none_iff_forall_ne_some.mpr hwriter)

theorem said_of_write (hj : w.job? id = some job) (h : w.write id code content = .ok w') :
    ∃ replies, Said w id job code content replies w'.writers ∧
      w' = { w with writers := w'.writers, journal := w.journal ++ replies } := by
  obtain ⟨writer, hwriter, keywords, hkeywords, h⟩ := (write_eq_ok_iff hj).mp h
  cases hreply : w.reply? job code keywords with
  | none =>
    rw [hreply] at h
    obtain rfl := h
    obtain ⟨p, hparent, hdropped⟩ := reply?_eq_none_iff.mp hreply
    exact ⟨[], .dropped hwriter hkeywords hparent hdropped, by rw [List.append_nil]⟩
  | some reply =>
    rw [hreply] at h
    obtain ⟨state, hstate, state', haccept, rfl⟩ := h
    exact ⟨_, .reply hwriter hkeywords hreply hstate haccept, rfl⟩

theorem said_of_announce (hj : w.job? id = some job) (h : w.announce id status content = .ok w') :
    ∃ replies, Said w id job status.code content replies w'.writers ∧
      w' = { w with writers := w'.writers, journal := w.journal ++ replies } := by
  unfold announce at h
  rw [hj] at h
  cases hwriter : job.writer with
  | none =>
    rw [Option.bind_some, hwriter] at h
    obtain rfl := Except.ok.inj h
    exact ⟨[], .silent hwriter, by rw [List.append_nil]⟩
  | some writer =>
    rw [Option.bind_some, hwriter] at h
    exact said_of_write hj h

theorem mute_of_announce (hj : w.job? id = some job) {e : JobError}
    (h : w.announce id status content = .error e) : job.writer ≠ none ∧ Mute w job status.code content e := by
  unfold announce at h
  rw [hj] at h
  cases hwriter : job.writer with
  | none => rw [Option.bind_some, hwriter] at h; cases h
  | some writer =>
    rw [Option.bind_some, hwriter] at h
    exact ⟨Option.some_ne_none writer, mute_of_write hj h⟩

theorem modify_eq_set {xs : List Job} {i : Nat} {x : Job} (hx : xs[i]? = some x) (f : Job → Job) :
    xs.modify i f = xs.set i (f x) := by
  rw [List.modify_eq_set_getElem?, hx]
  rfl

theorem recorded_eq (hj : w.job? id = some job) (status : JobStatus) :
    w.recorded id status = { w with
      jobs := w.jobs.set id (job.moveTo status)
      streams := w.streams.map fun (n, s) => (n, s.offer id status)
      journal := w.journal ++ [.changed id status] } := by
  rw [recorded, updateJob, modify_eq_set hj]

theorem windUp_eq (hj : w.job? id = some job) : w.windUp id = { w with
    jobs := w.jobs.set id { job with timer := none, operation := none }
    operations := match job.operation with
      | some o => (w.abort o).operations
      | none => w.operations } := by
  unfold windUp
  rw [hj, Option.bind_some]
  cases job.operation with
  | none => dsimp only; rw [updateJob, modify_eq_set hj]
  | some o =>
    have hj' : (w.abort o).job? id = some job := hj
    dsimp only
    rw [updateJob, modify_eq_set hj']
    rfl

theorem job?_recorded (hj : w.job? id = some job) (status : JobStatus) :
    (w.recorded id status).job? id = some (job.moveTo status) := by
  obtain ⟨hlt, -⟩ := List.getElem?_eq_some_iff.mp hj
  rw [recorded_eq hj]
  exact List.getElem?_set_self hlt

theorem commits_record {u : Jobs} {replies : List JournalEntry} (hj : w.job? id = some job)
    (hsaid : Said w id job status.code content replies u.writers)
    (hu : u = { w with writers := u.writers, journal := w.journal ++ replies }) :
    Commits w id job status content (u.record id status).1 := by
  generalize u.writers = writers at hsaid hu
  subst hu
  have hju : ({ w with writers, journal := w.journal ++ replies } : Jobs).job? id = some job := hj
  rw [record_fst]
  cases hdone : status.isDone with
  | false =>
    rw [if_neg Bool.false_ne_true, recorded_eq hju]
    refine ⟨?_, ⟨replies, hsaid, rfl⟩, rfl, ?_, rfl⟩
    · simp only [Job.moveTo, Job.changed, hdone, Bool.false_eq_true, if_false]
    · rw [hdone, if_neg Bool.false_ne_true]
  | true =>
    rw [if_pos rfl, windUp_eq (job?_recorded hju status), recorded_eq hju]
    refine ⟨?_, ⟨replies, hsaid, rfl⟩, rfl, ?_, rfl⟩
    · simp only [Job.moveTo, Job.changed, hdone, if_true, List.set_set]
    · rw [hdone, if_pos rfl]
      rfl

theorem Leads.journal (h : w.Leads w') (hj : w.job? id = some job) : w.journal <+: w'.journal := by
  obtain ⟨changes, hchanges⟩ := h.hasHistory id (by rw [hj]; rfl)
  obtain ⟨more, hmore, -⟩ := hchanges.journal
  exact ⟨more, hmore.symm⟩

theorem Commits.job? (h : Commits w id job status content w') (hj : w.job? id = some job) :
    w'.job? id = some (job.changed status) := by
  obtain ⟨hlt, -⟩ := List.getElem?_eq_some_iff.mp hj
  rw [Jobs.job?, h.jobs]
  exact List.getElem?_set_self hlt

theorem Commits.push (h : Commits w id job status content w') (errands : List Errand) :
    Commits w id job status content (w'.push errands) := by
  refine ⟨h.jobs, h.said, h.streams, h.operations, ?_⟩
  have hothers := congrArg (fun u : Jobs => u.push errands) h.others
  exact hothers

/-! ## Outcomes of a request -/

theorem setStatus_of_refusal (hj : w.job? id = some job) {e : JobError}
    (h : w.setStatus id status content = .error e) : Refusal w job status content e := by
  unfold setStatus at h
  rw [hj] at h
  dsimp only at h
  by_cases hdone : job.status.isDone = true
  · rw [if_pos hdone] at h
    cases h
    exact .done hdone
  · rw [if_neg hdone] at h
    by_cases hsame : job.status = status
    · rw [if_pos hsame] at h
      cases h
    · rw [if_neg hsame, map_eq_error_iff] at h
      obtain ⟨hwriter, hmute⟩ := mute_of_announce hj h
      exact .mute (by simpa using hdone) hsame hwriter hmute

theorem setStatus_of_ok (hj : w.job? id = some job) {errands : List Errand}
    (h : w.setStatus id status content = .ok (w', errands)) : job.status.isDone = false ∧
      (job.status = status ∧ w' = w ∧ errands = [] ∨
        job.status ≠ status ∧ Commits w id job status content w' ∧ w'.agenda = w.agenda ∧
          errands = if job.isNotifying then [] else [.notify id]) := by
  unfold setStatus at h
  rw [hj] at h
  dsimp only at h
  by_cases hdone : job.status.isDone = true
  · rw [if_pos hdone] at h
    cases h
  · rw [if_neg hdone] at h
    refine ⟨by simpa using hdone, ?_⟩
    by_cases hsame : job.status = status
    · rw [if_pos hsame] at h
      cases h
      exact .inl ⟨hsame, rfl, rfl⟩
    · rw [if_neg hsame, map_eq_ok_iff] at h
      obtain ⟨u, hu, hrecord⟩ := h
      obtain ⟨replies, hsaid, hwritten⟩ := said_of_announce hj hu
      have hju : u.job? id = some job := by rw [hwritten]; exact hj
      have hnotify : (u.record id status).2 = if job.isNotifying then [] else [.notify id] := by
        rw [record, hju]
        rfl
      have hcommits := commits_record hj hsaid hwritten
      have hagenda : (u.record id status).1.agenda = w.agenda := by rw [agenda_record, hwritten]
      rw [hrecord] at hnotify hcommits hagenda
      exact .inr ⟨hsame, hcommits, hagenda, hnotify⟩

theorem ask_of_perform {act : Act} {result : Except JobError Unit} (hidle : w.agenda = [])
    (h : w.perform .caller id act = w.conclude .caller result) :
    w.ask id act = ({ w with answer := result }, result) := by
  have hrun : (w.conclude .caller result).run = { w with answer := result } := run_of_idle hidle
  rw [ask, h, hrun]

theorem ask_of_report {act : Act} (hidle : w.agenda = [])
    (h : w.perform .caller id act = w.push [.report .caller]) :
    w.ask id act = ({ w with answer := .ok () }, .ok ()) := by
  have hpushed : (w.push [.report .caller]).agenda = .report .caller :: w.agenda := rfl
  have hruns : Runs 1 (w.push [.report .caller]) { w with answer := .ok () } := runs_errand hpushed
  have hrun := run_of_runs hruns (by decide) hidle
  rw [ask, h, hrun]

/-- A request for a status is refused and changes nothing, or asks for the status that the job has and
changes nothing either, or is carried out as a whole before any callback is called. Whoever asks is told
that it failed in the first case and that it is done in the others. -/
theorem status_change_all_or_nothing (hj : w.job? id = some job) (asker : Asker) (status : JobStatus)
    (content : Content) :
    let act := Act.set status content
    let w' := w.perform asker id act
    (∃ e, Refusal w job status content e ∧ w' = w.conclude asker (.error e) ∧ w.OnlyAnswers w' ∧
      (w.agenda = [] → w.ask id act = ({ w with answer := .error e }, .error e))) ∨
    (job.status.isDone = false ∧ job.status = status ∧ w' = w.push [.report asker] ∧
      (w.agenda = [] → w.ask id act = ({ w with answer := .ok () }, .ok ()))) ∨
    (job.status.isDone = false ∧ job.status ≠ status ∧ Commits w id job status content w' ∧
      w'.agenda = (if job.isNotifying then [] else [.notify id]) ++ .report asker :: w.agenda ∧
      (∀ w'', w'.Leads w'' → w'.journal <+: w''.journal) ∧
      (w.agenda = [] → (w.ask id act).1.agenda = [] → (w.ask id act).2 = .ok ())) := by
  intro act w'
  have hperform : ∀ asker, w.perform asker id act =
      w.changeFor asker id status content [.report asker] := fun _ => rfl
  cases hset : w.setStatus id status content with
  | error e =>
    simp only [changeFor, hset] at hperform
    have hw' : w' = w.conclude asker (.error e) := hperform asker
    exact .inl ⟨e, setStatus_of_refusal hj hset, hw', hw' ▸ conclude_onlyAnswers w asker _,
      fun hidle => ask_of_perform hidle (hperform .caller)⟩
  | ok p =>
    obtain ⟨u, errands⟩ := p
    simp only [changeFor, hset] at hperform
    obtain ⟨hdone, ⟨hsame, rfl, rfl⟩ | ⟨hne, hcommits, hagenda, rfl⟩⟩ := setStatus_of_ok hj hset
    · exact .inr (.inl ⟨hdone, hsame, hperform asker, fun hidle => ask_of_report hidle (hperform .caller)⟩)
    · have hpushed : ∀ asker, (w.perform asker id act).agenda =
          (if job.isNotifying then [] else [.notify id]) ++ .report asker :: w.agenda := by
        intro asker
        rw [hperform]
        change _ ++ u.agenda = _
        rw [hagenda, List.append_assoc]
        rfl
      have hcommitted : Commits w id job status content w' := by
        change Commits w id job status content (w.perform asker id act)
        rw [hperform]
        exact hcommits.push _
      refine .inr (.inr ⟨hdone, hne, hcommitted, hpushed asker, fun w'' hl => ?_, fun hidle hend => ?_⟩)
      · exact hl.journal (hcommitted.job? hj)
      · have hlast := hpushed .caller
        rw [hidle] at hlast
        exact answer_of_report hlast hend

end

/-- A log with room for one reply takes the first change of a job and refuses the second. -/
theorem status_change_all_or_nothing_refused : ∃ w : Jobs, w.hasStatus 0 .running = true ∧
    w.ask 0 (.finish (.text "well")) =
      ({ w with answer := .error (.writer .refused) }, .error (.writer .refused)) := by
  obtain ⟨w, job, hj, hrunning, hidle, hend, hrefused⟩ : ∃ (w : Jobs) (job : Job), w.job? 0 = some job ∧
      w.hasStatus 0 .running = true ∧ w.agenda = [] ∧
      (w.ask 0 (.set .done (.text "well"))).1.agenda = [] ∧
      (w.ask 0 (.set .done (.text "well"))).2 = .error (.writer .refused) := by
    refine ⟨(((empty true).add ⟨⟨"a.b", 7, "act", "", "note", none⟩, some (.log (some 1)),
      [.scripted "watch" []], false, some 5⟩).ask 0 (.set .running .empty)).1, _, rfl, ?_, ?_, ?_, ?_⟩
    · decide
    · exact List.isEmpty_iff.mp (by decide)
    · exact List.isEmpty_iff.mp (by decide)
    · decide
  refine ⟨w, hrunning, ?_⟩
  obtain ⟨e, -, -, -, hask⟩ | ⟨-, -, -, hask⟩ | ⟨-, -, -, -, -, hask⟩ :=
    status_change_all_or_nothing hj .caller .done (.text "well")
  · have hanswer := congrArg Prod.snd (hask hidle)
    cases hrefused.symm.trans hanswer
    exact hask hidle
  · cases hrefused.symm.trans (congrArg Prod.snd (hask hidle))
  · cases hrefused.symm.trans (hask hidle hend)

end Jobs

end ActorHub
