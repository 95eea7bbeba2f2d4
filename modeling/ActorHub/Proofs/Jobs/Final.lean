import ActorHub.Proofs.Jobs.History

/-!
# Being done

A job that is done stays as it is. Its status does not change, whoever asks for a change is refused
before anything is written or anybody told, and what its callbacks and streams still learn are
changes from before.
-/

namespace ActorHub.Jobs

def hasStatus (w : Jobs) (id : JobId) (status : JobStatus) : Bool :=
  (w.job? id).any (·.status == status)

theorem hasStatus_iff {w : Jobs} {id : JobId} {s : JobStatus} :
    w.hasStatus id s = true ↔ ∃ job, w.job? id = some job ∧ job.status = s := by
  simp [hasStatus, Option.any_eq_true]

theorem hasStatus_unique {w : Jobs} {id : JobId} {s s' : JobStatus} (h : w.hasStatus id s = true)
    (h' : w.hasStatus id s' = true) : s = s' := by
  obtain ⟨job, hj, rfl⟩ := hasStatus_iff.1 h
  obtain ⟨job', hj', rfl⟩ := hasStatus_iff.1 h'
  rw [Option.some.inj (hj.symm.trans hj')]

theorem isDone_of_hasStatus {w : Jobs} {id : JobId} {s : JobStatus} (h : w.hasStatus id s = true)
    (hs : s.isDone = true) : w.isDone id = true := by
  obtain ⟨job, hj, rfl⟩ := hasStatus_iff.1 h
  simp [isDone, hj, hs]

/-- Nothing comes of a request but an answer to whoever made it. -/
structure OnlyAnswers (w w' : Jobs) : Prop where
  jobs : w'.jobs = w.jobs
  agenda : w'.agenda = w.agenda
  streams : w'.streams = w.streams
  writers : w'.writers = w.writers
  operations : w'.operations = w.operations
  journal : ∃ notes, w'.journal = w.journal ++ notes ∧ ∀ e ∈ notes,
    (∃ label on outcome, e = .reacted label on outcome) ∨ ∃ label outcome, e = .worked label outcome

theorem conclude_onlyAnswers (w : Jobs) (asker : Asker) (result : Except JobError Unit) :
    w.OnlyAnswers (w.conclude asker result) := by
  cases asker with
  | caller | nobody => exact ⟨rfl, rfl, rfl, rfl, rfl, [], by simp [conclude, tell]⟩
  | reaction label on =>
    refine ⟨rfl, rfl, rfl, rfl, rfl, [.reacted label on (result.mapError .job)], rfl, ?_⟩
    intro e he
    exact .inl ⟨label, on, _, List.mem_singleton.1 he⟩
  | operation label =>
    refine ⟨rfl, rfl, rfl, rfl, rfl, [.worked label (result.mapError .job)], rfl, ?_⟩
    intro e he
    exact .inr ⟨label, _, List.mem_singleton.1 he⟩

/-- A job for which nothing changes any more: by request of anybody, by cancellation, by the end of
an operation, by time. -/
structure IsFinal (w : Jobs) (id : JobId) (s : JobStatus) : Prop where
  status : w.hasStatus id s = true
  setStatus : ∀ status content, w.setStatus id status content = .error (.alreadyDone s status)
  refused : ∀ asker status content afterwards,
    w.changeFor asker id status content afterwards =
      w.conclude asker (.error (.alreadyDone s status)) ∧
    w.OnlyAnswers (w.changeFor asker id status content afterwards)
  asked : w.agenda = [] → ∀ status content,
    w.ask id (.set status content) =
      ({ w with answer := .error (.alreadyDone s status) }, .error (.alreadyDone s status))
  cancel : ∀ asker, w.perform asker id .cancel = w.conclude asker (.ok ()) ∧
    w.OnlyAnswers (w.perform asker id .cancel)
  complete : ∀ o : Operation, o.job = id → w.complete o = w.dropOperation o.id
  timeOut : w.timeOut id = w ∨ w.timeOut id = w.updateJob id fun job => { job with timer := none }
  await : ∀ limit, (w.awaitDone id limit).2 = some s

section
variable {w w' : Jobs} {id : JobId} {s : JobStatus}

theorem setStatus_of_done (h : w.hasStatus id s = true) (hs : s.isDone = true) (status : JobStatus)
    (content : Content) : w.setStatus id status content = .error (.alreadyDone s status) := by
  obtain ⟨job, hj, rfl⟩ := hasStatus_iff.1 h
  simp only [Jobs.setStatus, hj, hs, if_true]

theorem changeFor_of_done (h : w.hasStatus id s = true) (hs : s.isDone = true) (asker : Asker)
    (status : JobStatus) (content : Content) (afterwards : List Errand) :
    w.changeFor asker id status content afterwards =
      w.conclude asker (.error (.alreadyDone s status)) := by
  simp only [changeFor, setStatus_of_done h hs]

theorem run_of_idle (h : w.agenda = []) : w.run = w := by
  unfold run errandLimit
  simp only [runFor, step, h]

theorem Leads.history (h : w.Leads w') (hw : w.hasStatus id s = true) (hs : s.isDone = true) :
    History id w w' [] := by
  obtain ⟨job, hj, rfl⟩ := hasStatus_iff.1 hw
  obtain ⟨changes, hc⟩ := h.hasHistory id (by simp [hj])
  obtain ⟨job', -, hpath, -⟩ := hc.job job hj
  rwa [(hpath.eq_of_isDone hs).1] at hc

theorem Leads.hasStatus (h : w.Leads w') (hw : w.hasStatus id s = true) (hs : s.isDone = true) :
    w'.hasStatus id s = true := by
  obtain ⟨job, hj, rfl⟩ := hasStatus_iff.1 hw
  obtain ⟨job', hj', hpath, -⟩ := (h.history hw hs).job job hj
  exact hasStatus_iff.2 ⟨job', hj', (hpath.eq_of_isDone hs).2⟩

theorem hasStatus_of_await {limit : Nat} (h : w.awaitDone id limit = (w', some s)) :
    w'.hasStatus id s = true ∧ s.isDone = true := by
  simp only [awaitDone, Prod.mk.injEq] at h
  obtain ⟨rfl, h⟩ := h
  obtain ⟨h, hs⟩ := Option.filter_eq_some_iff.1 h
  obtain ⟨job, hj, hwatched⟩ := Option.map_eq_some_iff.1 h
  exact ⟨hasStatus_iff.2 ⟨job, hj, job.watched_eq.symm.trans hwatched⟩, hs⟩

theorem await_of_done (h : w.hasStatus id s = true) (hs : s.isDone = true) (limit : Nat) :
    (w.awaitDone id limit).2 = some s := by
  have hlater := (leads_awaitDone w id limit).hasStatus h hs
  obtain ⟨job, hj, rfl⟩ := hasStatus_iff.1 hlater
  unfold awaitDone at hj ⊢
  dsimp only at hj ⊢
  rw [hj, Option.map_some, job.watched_eq, Option.filter_some, hs]
  rfl

theorem isFinal_of_done (h : w.hasStatus id s = true) (hs : s.isDone = true) : w.IsFinal id s where
  status := h
  setStatus := setStatus_of_done h hs
  refused asker status content afterwards := by
    have hrefused := changeFor_of_done h hs asker status content afterwards
    exact ⟨hrefused, hrefused ▸ conclude_onlyAnswers w asker _⟩
  asked hidle status content := by
    have hrefused : w.perform .caller id (.set status content) =
        { w with answer := .error (.alreadyDone s status) } :=
      changeFor_of_done h hs .caller status content _
    have hrun : ({ w with answer := .error (.alreadyDone s status) } : Jobs).run =
        { w with answer := .error (.alreadyDone s status) } := run_of_idle hidle
    unfold ask
    rw [hrefused, hrun]
  cancel asker := by
    have hcancel : w.perform asker id .cancel = w.conclude asker (.ok ()) := by
      simp only [perform, isDone_of_hasStatus h hs, if_true]
    exact ⟨hcancel, hcancel ▸ conclude_onlyAnswers w asker _⟩
  complete o ho := by
    have hdropped : (w.dropOperation o.id).hasStatus o.job s = true := ho ▸ h
    unfold Jobs.complete
    dsimp only
    split
    · exact changeFor_of_done hdropped hs .nobody _ _ _
    · exact changeFor_of_done hdropped hs .nobody _ _ _
  timeOut := by
    unfold Jobs.timeOut
    split
    · exact .inl rfl
    · refine .inr ?_
      dsimp only
      split
      · refine changeFor_of_done ?_ hs .nobody _ _ _
        obtain ⟨job, hj, rfl⟩ := hasStatus_iff.1 h
        exact hasStatus_iff.2 ⟨{ job with timer := none }, by simp [job?_updateJob, hj], rfl⟩
      · rfl
  await := await_of_done h hs

/-! ## Without changes -/

theorem History.only_owed (h : History id w w' []) : ∃ more, w'.journal = w.journal ++ more ∧
    ∀ status, .changed id status ∉ more ∧
      ∀ place name, .called id place name status ∈ more → w.Owes id status := by
  obtain ⟨more, hm, hchanges, hcalled⟩ := h.journal
  refine ⟨more, hm, fun status => ⟨fun hc => ?_, fun place name hc => ?_⟩⟩
  · have hchange := List.filterMap_eq_nil_iff.1 hchanges _ hc
    simp [JournalEntry.change?] at hchange
  · have howes := hcalled status (List.mem_filterMap.2 ⟨_, hc, by simp [JournalEntry.delivery?]⟩)
    simpa using howes

theorem History.only_unread (h : History id w w' []) {name : String} {t' : StatusStream}
    (ht' : (name, t') ∈ w'.streams) (hjob : t'.job = id) (hne : t'.unread ≠ []) :
    ∃ t, (name, t) ∈ w.streams ∧ t.job = id ∧ t'.unread.Sublist t.unread := by
  obtain ⟨old, hsub, hold⟩ := h.streams name t' ht' hjob
  rw [List.append_nil] at hsub
  rcases hold with rfl | ⟨t, ht, htjob, rfl⟩
  · exact absurd (List.sublist_nil.1 hsub) hne
  · exact ⟨t, ht, htjob, hsub⟩

theorem await_agrees (h : w.hasStatus id s = true) (hs : s.isDone = true) {u v : Jobs} {limit : Nat}
    {s' : JobStatus} (hu : u.awaitDone id limit = (v, some s')) (hv : v.Leads w ∨ w.Leads v) :
    s' = s := by
  obtain ⟨hstatus, hs'⟩ := hasStatus_of_await hu
  rcases hv with hvw | hwv
  · exact hasStatus_unique (hvw.hasStatus hstatus hs') h
  · exact hasStatus_unique hstatus (hwv.hasStatus h hs)

/-- What is done stays done, and no request, timer or end of an operation tells anybody otherwise:
callbacks are called with what they were owed, and streams lose what they have. -/
theorem done_is_final (h : w.hasStatus id s = true) (hs : s.isDone = true) (hl : w.Leads w') :
    w'.IsFinal id s ∧
      (∃ more, w'.journal = w.journal ++ more ∧ ∀ status, .changed id status ∉ more ∧
        ∀ place name, .called id place name status ∈ more → w.Owes id status) ∧
      (∀ job, w.job? id = some job → ∃ job', w'.job? id = some job' ∧ job'.pending <:+ job.pending) ∧
      (∀ name t', (name, t') ∈ w'.streams → t'.job = id → t'.unread ≠ [] →
        ∃ t, (name, t) ∈ w.streams ∧ t.job = id ∧ t'.unread.Sublist t.unread) ∧
      ∀ (u v : Jobs) limit s', u.awaitDone id limit = (v, some s') → v.Leads w ∨ w.Leads v → s' = s := by
  have hhistory := hl.history h hs
  refine ⟨isFinal_of_done (hl.hasStatus h hs) hs, hhistory.only_owed, ?_, ?_, ?_⟩
  · intro job hj
    obtain ⟨job', hj', -, hpending⟩ := hhistory.job job hj
    exact ⟨job', hj', by simpa using hpending⟩
  · intro name t' ht' hjob hne
    exact hhistory.only_unread ht' hjob hne
  · intro u v limit s' hu hv
    exact await_agrees h hs hu hv

end

/-- A callback asks for another change when it is called, then the caller does, then a script is to be
the body of the job, and last the timer would go off. -/
theorem done_is_final_queued :
    let order : JobOrder := ⟨"me", 1, "actor", "", "text", none⟩
    let again : Reaction := ⟨"x", some .done, "again", .ok (.set .running .empty)⟩
    let b : Blueprint := ⟨order, some .channel, [.scripted "watch" [again]], false, some 5⟩
    let w := (((empty true).add b).hold "x" 0).perform .caller 0 (.finish .empty)
    let w' := ((w.run.ask 0 (.set .done .empty)).1.spawn 0 ⟨[], none⟩).1.advance 10
    w.agenda.length = 2 ∧ w.hasStatus 0 .done = true ∧ w.Leads w' ∧ w'.IsFinal 0 .done := by
  intro order again b w w'
  have hdone : w.hasStatus 0 .done = true := by decide
  have hasked := (leads_run w).trans (leads_ask w.run 0 (.set .done .empty))
  have hspawned := hasked.trans (leads_spawn _ 0 ⟨[], none⟩)
  have hl : w.Leads w' := hspawned.trans (leads_advance _ 10)
  exact ⟨by decide, hdone, hl, (done_is_final hdone rfl hl).1⟩

end ActorHub.Jobs
