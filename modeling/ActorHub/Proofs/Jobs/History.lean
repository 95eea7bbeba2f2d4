import ActorHub.Proofs.Jobs.Move
import ActorHub.Proofs.Outcome

/-!
# Histories

What a job goes through between two moments of a run: the changes of its status, and what the
callbacks, the streams and the journal have of them. A change is recorded in one place only
(`history_record`); everything else that can happen to the jobs is put together from edits that
change no status. A job that is done has no changes to come, which is what being done means.
-/

namespace ActorHub

/-- The changes that lead from a status to another. None follows a status that is done, and each is
a change indeed. -/
inductive JobStatus.Path : JobStatus → List JobStatus → JobStatus → Prop
  | nil (s : JobStatus) : Path s [] s
  | cons {s t u : JobStatus} {ts : List JobStatus} :
      s.isDone = false → s ≠ t → Path t ts u → Path s (t :: ts) u

namespace JobStatus.Path

variable {s t u : JobStatus} {ss ts : List JobStatus}

theorem append (h : Path s ss t) (h' : Path t ts u) : Path s (ss ++ ts) u := by
  induction h with
  | nil => exact h'
  | cons hd hne _ ih => exact .cons hd hne (ih h')

theorem eq_of_isDone (h : Path s ss t) (hs : s.isDone = true) : ss = [] ∧ t = s := by
  cases h with
  | nil => exact ⟨rfl, rfl⟩
  | cons hd => simp [hs] at hd

end JobStatus.Path

def JournalEntry.change? (id : JobId) : JournalEntry → Option JobStatus
  | .changed job status => if job = id then some status else none
  | _ => none

def JournalEntry.delivery? (id : JobId) : JournalEntry → Option JobStatus
  | .called job _ _ status => if job = id then some status else none
  | _ => none

namespace Jobs

/-- A change that callbacks of a job are still to be called with: it waits, or the calls are among
the errands. -/
def Owes (w : Jobs) (id : JobId) (status : JobStatus) : Prop :=
  (∃ job, w.job? id = some job ∧ status ∈ job.pending) ∨
    ∃ place callbacks, Errand.call id status place callbacks ∈ w.agenda

/-- What a job goes through from one moment to another. -/
structure History (id : JobId) (w w' : Jobs) (changes : List JobStatus) : Prop where
  job : ∀ job, w.job? id = some job → ∃ job', w'.job? id = some job' ∧
    job.status.Path changes job'.status ∧ job'.pending <:+ job.pending ++ changes
  journal : ∃ more, w'.journal = w.journal ++ more ∧ more.filterMap (·.change? id) = changes ∧
    ∀ s ∈ more.filterMap (·.delivery? id), w.Owes id s ∨ s ∈ changes
  owes : ∀ s, w'.Owes id s → w.Owes id s ∨ s ∈ changes
  /-- A stream of the job has what it had and the changes, or what is left of them. -/
  streams : ∀ n t', (n, t') ∈ w'.streams → t'.job = id → ∃ old, t'.unread.Sublist (old ++ changes) ∧
    (old = [] ∨ ∃ t, (n, t) ∈ w.streams ∧ t.job = id ∧ t.unread = old)

def HasHistory (id : JobId) (w w' : Jobs) : Prop :=
  (w.job? id).isSome → ∃ changes, History id w w' changes

section
variable {id : JobId} {w w' w'' : Jobs}

theorem History.refl (id : JobId) (w : Jobs) : History id w w [] where
  job job hj := ⟨job, hj, .nil _, by simp⟩
  journal := ⟨[], by simp⟩
  owes _ := .inl
  streams _ t ht hjob := ⟨t.unread, by simp, .inr ⟨t, ht, hjob, rfl⟩⟩

theorem History.trans {changes changes' : List JobStatus} (h : History id w w' changes)
    (h' : History id w' w'' changes') : History id w w'' (changes ++ changes') where
  job job hj := by
    obtain ⟨job', hj', hpath, hpending⟩ := h.job job hj
    obtain ⟨job'', hj'', hpath', hpending'⟩ := h'.job job' hj'
    refine ⟨job'', hj'', hpath.append hpath', hpending'.trans ?_⟩
    rw [← List.append_assoc]
    obtain ⟨taken, ht⟩ := hpending
    exact ⟨taken, by rw [← List.append_assoc, ht]⟩
  journal := by
    obtain ⟨more, hm, hchanges, hcalled⟩ := h.journal
    obtain ⟨more', hm', hchanges', hcalled'⟩ := h'.journal
    refine ⟨more ++ more', by rw [hm', hm, List.append_assoc], by simp [hchanges, hchanges'], ?_⟩
    intro s hs
    rw [List.filterMap_append, List.mem_append] at hs
    have howes := h.owes s
    have := hcalled s
    have := hcalled' s
    grind
  owes s hs := by
    have howes := h.owes s
    have := h'.owes s hs
    grind
  streams n t'' ht'' hjob := by
    obtain ⟨old', hsub', hold'⟩ := h'.streams n t'' ht'' hjob
    rcases hold' with rfl | ⟨t', ht', hjob', rfl⟩
    · exact ⟨[], hsub'.trans (by simp), .inl rfl⟩
    · obtain ⟨old, hsub, hold⟩ := h.streams n t' ht' hjob'
      refine ⟨old, hsub'.trans ?_, hold⟩
      rw [← List.append_assoc]
      exact hsub.append_right changes'

theorem History.isSome {changes : List JobStatus} (h : History id w w' changes)
    (hj : (w.job? id).isSome) : (w'.job? id).isSome := by
  obtain ⟨job, hj⟩ := Option.isSome_iff_exists.1 hj
  obtain ⟨job', hj', -⟩ := h.job job hj
  simp [hj']

theorem HasHistory.refl (id : JobId) (w : Jobs) : HasHistory id w w :=
  fun _ => ⟨[], .refl id w⟩

theorem HasHistory.trans (h : HasHistory id w w') (h' : HasHistory id w' w'') :
    HasHistory id w w'' := by
  intro hj
  obtain ⟨changes, hc⟩ := h hj
  obtain ⟨changes', hc'⟩ := h' (hc.isSome hj)
  exact ⟨changes ++ changes', hc.trans hc'⟩

theorem HasHistory.of_quiet (hjob : ∀ job, w.job? id = some job → ∃ job', w'.job? id = some job' ∧
      job'.status = job.status ∧ job'.pending <:+ job.pending)
    (hjournal : ∃ more, w'.journal = w.journal ++ more ∧ more.filterMap (·.change? id) = [] ∧
      ∀ s ∈ more.filterMap (·.delivery? id), w.Owes id s)
    (howes : ∀ s place callbacks, Errand.call id s place callbacks ∈ w'.agenda → w.Owes id s)
    (hstreams : ∀ n t', (n, t') ∈ w'.streams → t'.unread = [] ∨ (n, t') ∈ w.streams) :
    HasHistory id w w' := by
  intro hj
  obtain ⟨job₀, hj₀⟩ := Option.isSome_iff_exists.1 hj
  refine ⟨[], fun job hj => ?_, ?_, ?_, ?_⟩
  · obtain ⟨job', hj', hstatus, hpending⟩ := hjob job hj
    exact ⟨job', hj', hstatus ▸ .nil _, by simpa using hpending⟩
  · obtain ⟨more, hm, hchanges, hcalled⟩ := hjournal
    exact ⟨more, hm, hchanges, fun s hs => .inl (hcalled s hs)⟩
  · rintro s (⟨job', hj', hs⟩ | ⟨place, callbacks, hs⟩)
    · obtain ⟨job'', hj'', -, hpending⟩ := hjob job₀ hj₀
      obtain rfl := Option.some.inj (hj'.symm.trans hj'')
      exact .inl (.inl ⟨job₀, hj₀, hpending.subset hs⟩)
    · exact .inl (howes s place callbacks hs)
  · intro n t' ht' hjob'
    rcases hstreams n t' ht' with hnil | ht
    · exact ⟨[], by simp [hnil], .inl rfl⟩
    · exact ⟨t'.unread, by simp, .inr ⟨t', ht, hjob', rfl⟩⟩

end

/-! ## Edits without changes -/

section
variable (id : JobId) (w : Jobs)

theorem HasHistory.of_eq {w w' : Jobs} (hjobs : w'.jobs = w.jobs) (hjournal : w'.journal = w.journal)
    (hstreams : w'.streams = w.streams) (hagenda : w'.agenda = w.agenda) : HasHistory id w w' := by
  refine .of_quiet (fun job hj => ⟨job, ?_, rfl, List.suffix_rfl⟩) ⟨[], by simp [hjournal]⟩
    (fun s place callbacks hs => .inr ⟨place, callbacks, hagenda ▸ hs⟩)
    (fun n t' ht' => .inr (hstreams ▸ ht'))
  rwa [job?, hjobs]

theorem history_enter (e : JournalEntry) (hc : e.change? id = none)
    (hd : ∀ s, e.delivery? id = some s → w.Owes id s) : HasHistory id w (w.enter e) := by
  refine .of_quiet (fun job hj => ⟨job, hj, rfl, List.suffix_rfl⟩) ⟨[e], rfl, by simp [hc], ?_⟩
    (fun s place callbacks hs => .inr ⟨place, callbacks, hs⟩) (fun n t' ht' => .inr ht')
  intro s hs
  exact hd s (by simpa using hs)

theorem history_agenda (agenda : List Errand)
    (h : ∀ s place callbacks, Errand.call id s place callbacks ∈ agenda → w.Owes id s) :
    HasHistory id w { w with agenda } :=
  .of_quiet (fun job hj => ⟨job, hj, rfl, List.suffix_rfl⟩) ⟨[], by simp⟩ h
    (fun n t' ht' => .inr ht')

theorem history_push (errands : List Errand)
    (h : ∀ s place callbacks, Errand.call id s place callbacks ∈ errands → w.Owes id s) :
    HasHistory id w (w.push errands) := by
  refine history_agenda id w _ fun s place callbacks hs => ?_
  rcases List.mem_append.1 hs with hs | hs
  · exact h s place callbacks hs
  · exact .inr ⟨place, callbacks, hs⟩

theorem job?_updateJob (i : JobId) (f : Job → Job) :
    (w.updateJob i f).job? id = if i = id then (w.job? id).map f else w.job? id := by
  simp only [job?, updateJob, List.getElem?_modify]
  split <;> simp

theorem history_updateJob (i : JobId) (f : Job → Job)
    (hf : ∀ job, w.job? i = some job → (f job).status = job.status ∧
      (f job).pending <:+ job.pending) : HasHistory id w (w.updateJob i f) := by
  refine .of_quiet (fun job hj => ?_) ⟨[], by simp [updateJob]⟩
    (fun s place callbacks hs => .inr ⟨place, callbacks, hs⟩) (fun n t' ht' => .inr ht')
  rw [job?_updateJob]
  split
  · next hi =>
    obtain ⟨hstatus, hpending⟩ := hf job (hi ▸ hj)
    exact ⟨f job, by simp [hj], hstatus, hpending⟩
  · exact ⟨job, hj, rfl, List.suffix_rfl⟩

theorem history_tell (asker : Asker) (outcome : Outcome) : HasHistory id w (w.tell asker outcome) := by
  cases asker with
  | caller | nobody => exact .refl id w
  | reaction label on | operation label =>
    exact history_enter id w _ rfl (by simp [JournalEntry.delivery?])

theorem history_conclude (asker : Asker) (result : Except JobError Unit) :
    HasHistory id w (w.conclude asker result) := by
  cases asker with
  | caller => exact .of_eq id rfl rfl rfl rfl
  | reaction label on => exact history_tell id w (.reaction label on) _
  | operation label => exact history_tell id w (.operation label) _
  | nobody => exact .refl id w

theorem history_windUp (i : JobId) : HasHistory id w (w.windUp i) := by
  unfold windUp
  dsimp only
  split
  · next o _ =>
    have haborted : HasHistory id w (w.abort o) := .of_eq id rfl rfl rfl rfl
    exact haborted.trans (history_updateJob id _ i _ fun _ _ => ⟨rfl, List.suffix_rfl⟩)
  · exact history_updateJob id w i _ fun _ _ => ⟨rfl, List.suffix_rfl⟩

end

/-! ## Changes -/

section
variable (id : JobId) {w w' : Jobs}

def recorded (w : Jobs) (i : JobId) (status : JobStatus) : Jobs :=
  { w.updateJob i (·.moveTo status) with
    streams := w.streams.map fun (n, t) => (n, t.offer i status)
    journal := w.journal ++ [.changed i status] }

theorem record_fst (i : JobId) (status : JobStatus) : (w.record i status).1 =
    if status.isDone then (w.recorded i status).windUp i else w.recorded i status :=
  rfl

theorem unread_offer (t : StatusStream) (i : JobId) (status : JobStatus) :
    (t.offer i status).unread.Sublist (t.unread ++ if t.job = i then [status] else []) := by
  unfold StatusStream.offer
  split
  · next h =>
    simp only [Bool.and_eq_true, decide_eq_true_eq] at h
    simp only [h.1, if_true]
    exact List.drop_sublist _ _
  · exact List.sublist_append_left _ _

theorem job_offer (t : StatusStream) (i : JobId) (status : JobStatus) :
    (t.offer i status).job = t.job := by
  unfold StatusStream.offer
  split <;> rfl

theorem history_recorded {i : JobId} {job : Job} {status : JobStatus} (hj : w.job? i = some job)
    (hdone : job.status.isDone = false) (hne : job.status ≠ status) :
    History id w (w.recorded i status) (if i = id then [status] else []) where
  job := by
    intro job' hj'
    change ∃ job'', (w.updateJob i _).job? id = some job'' ∧ _
    rw [job?_updateJob]
    split
    · next hi =>
      subst hi
      obtain rfl := Option.some.inj (hj.symm.trans hj')
      exact ⟨_, by rw [hj]; rfl, .cons hdone hne (.nil _), List.suffix_rfl⟩
    · exact ⟨job', hj', .nil _, by simp⟩
  journal := by
    refine ⟨[.changed i status], rfl, ?_, by simp [JournalEntry.delivery?]⟩
    by_cases hi : i = id <;> simp [JournalEntry.change?, hi]
  owes := by
    rintro s (⟨job', hj', hs⟩ | hs)
    · change (w.updateJob i _).job? id = some job' at hj'
      rw [job?_updateJob] at hj'
      split at hj'
      · next hi =>
        subst hi
        rw [hj] at hj'
        obtain rfl := Option.some.inj hj'
        rcases List.mem_append.1 hs with hs | hs
        · exact .inl (.inl ⟨job, hj, hs⟩)
        · exact .inr (by simpa using hs)
      · exact .inl (.inl ⟨job', hj', hs⟩)
    · exact .inl (.inr hs)
  streams := by
    intro n t' ht' hjob
    simp only [recorded, List.mem_map, Prod.mk.injEq, Prod.exists] at ht'
    obtain ⟨_, t, ht, rfl, rfl⟩ := ht'
    rw [job_offer] at hjob
    subst hjob
    refine ⟨t.unread, ?_, .inr ⟨t, ht, rfl, rfl⟩⟩
    simpa only [eq_comm] using unread_offer t i status

theorem history_record {i : JobId} {job : Job} {status : JobStatus} (hj : w.job? i = some job)
    (hdone : job.status.isDone = false) (hne : job.status ≠ status) :
    HasHistory id w (w.record i status).1 := by
  have hrecorded : HasHistory id w (w.recorded i status) :=
    fun _ => ⟨_, history_recorded id hj hdone hne⟩
  rw [record_fst]
  split
  · exact hrecorded.trans (history_windUp id _ i)
  · exact hrecorded

theorem record_errands (i : JobId) (status : JobStatus) :
    (w.record i status).2 = [] ∨ (w.record i status).2 = [.notify i] := by
  unfold record
  dsimp only
  split
  · exact .inl rfl
  · exact .inr rfl

def Wrote (i : JobId) (w w' : Jobs) : Prop :=
  w' = w ∨ ∃ writer writers reply, w' = { w with writers }.enter (.wrote i writer reply)

theorem wrote_of_write {i : JobId} {code : Char} {content : Content}
    (h : w.write i code content = .ok w') : Wrote i w w' := by
  unfold write at h
  split at h
  · split at h
    · obtain ⟨keywords, -, h⟩ := bind_eq_ok_iff.1 h
      split at h
      · exact .inl (pure_eq_ok_iff.1 h).symm
      · split at h
        · obtain ⟨state, -, h⟩ := bind_eq_ok_iff.1 h
          exact .inr ⟨_, _, _, (pure_eq_ok_iff.1 h).symm⟩
        · exact absurd h throw_ne_ok
    · exact absurd h throw_ne_ok
  · exact .inl (pure_eq_ok_iff.1 h).symm

theorem wrote_of_announce {i : JobId} {status : JobStatus} {content : Content}
    (h : w.announce i status content = .ok w') : Wrote i w w' := by
  unfold announce at h
  split at h
  · exact wrote_of_write h
  · exact .inl (Except.ok.inj h).symm

theorem history_wrote {i : JobId} (h : Wrote i w w') : HasHistory id w w' ∧ w'.jobs = w.jobs := by
  rcases h with rfl | ⟨writer, writers, reply, rfl⟩
  · exact ⟨.refl id w', rfl⟩
  · refine ⟨?_, rfl⟩
    have hwriters : HasHistory id w { w with writers } := .of_eq id rfl rfl rfl rfl
    exact hwriters.trans (history_enter id _ _ rfl (by simp [JournalEntry.delivery?]))

theorem setStatus_cases {i : JobId} {status : JobStatus} {content : Content} {errands : List Errand}
    (h : w.setStatus i status content = .ok (w', errands)) :
    (w' = w ∧ errands = [] ∧ ∀ job, w.job? i = some job → job.status = status) ∨
      ∃ job u, w.job? i = some job ∧ job.status.isDone = false ∧ job.status ≠ status ∧
        w.announce i status content = .ok u ∧ u.record i status = (w', errands) := by
  unfold setStatus at h
  split at h
  · next hj =>
    cases h
    exact .inl ⟨rfl, rfl, by simp [hj]⟩
  · next job hj =>
    split at h
    · cases h
    · next hdone =>
      split at h
      · next heq =>
        cases h
        refine .inl ⟨rfl, rfl, fun job' hj' => ?_⟩
        rwa [← Option.some.inj (hj.symm.trans hj')]
      · next hne =>
        obtain ⟨u, hu, hr⟩ := map_eq_ok_iff.1 h
        exact .inr ⟨job, u, hj, by simpa using hdone, hne, hu, hr⟩

theorem history_setStatus {i : JobId} {status : JobStatus} {content : Content}
    {errands : List Errand} (h : w.setStatus i status content = .ok (w', errands)) :
    HasHistory id w w' ∧ (errands = [] ∨ errands = [.notify i]) := by
  rcases setStatus_cases h with ⟨rfl, rfl, -⟩ | ⟨job, u, hj, hdone, hne, hu, hr⟩
  · exact ⟨.refl id w', .inl rfl⟩
  · obtain ⟨hwrote, hjobs⟩ := history_wrote id (wrote_of_announce hu)
    have hj' : u.job? i = some job := by rwa [job?, hjobs]
    have hrecord := history_record id hj' hdone hne
    have herrands := record_errands (w := u) i status
    rw [hr] at hrecord herrands
    exact ⟨hwrote.trans hrecord, herrands⟩

end

/-! ## Requests and operations -/

section
variable (id : JobId) (w : Jobs)

theorem history_changeFor (asker : Asker) (i : JobId) (status : JobStatus) (content : Content)
    (afterwards : List Errand) (h : ∀ s place callbacks, .call id s place callbacks ∉ afterwards) :
    HasHistory id w (w.changeFor asker i status content afterwards) := by
  unfold changeFor
  split
  · next u errands hs =>
    obtain ⟨hu, herrands⟩ := history_setStatus id hs
    refine hu.trans (history_push id u _ fun s place callbacks hc => ?_)
    rcases herrands with rfl | rfl <;> simp [h] at hc
  · exact history_conclude id w asker _

theorem history_perform (asker : Asker) (i : JobId) (act : Act) :
    HasHistory id w (w.perform asker i act) := by
  unfold perform
  cases act with
  | set status content => exact history_changeFor id w asker i status content _ (by simp)
  | write code content =>
    dsimp only
    split
    · next u hu => exact (history_wrote id (wrote_of_write hu)).1.trans (history_conclude id u asker _)
    · exact history_conclude id w asker _
  | cancel =>
    dsimp only
    split
    · exact history_conclude id w asker _
    · exact history_changeFor id w asker i _ _ _ (by simp)
  | listen c =>
    have hadd : HasHistory id w (w.addCallback i c) :=
      history_updateJob id w i _ fun _ _ => ⟨rfl, List.suffix_rfl⟩
    exact hadd.trans (history_conclude id _ asker _)

theorem history_handle (asker : Asker) (i : JobId) (r : Request) :
    HasHistory id w (w.handle asker i r) := by
  unfold handle
  split
  · exact history_perform id w asker i _
  · exact history_tell id w asker _

theorem history_handleNamed (asker : Asker) (name : String) (r : Request) :
    HasHistory id w (w.handleNamed asker name r) := by
  unfold handleNamed
  split
  · exact history_handle id w asker _ r
  · exact history_tell id w asker _

theorem history_operations (operations : List Operation) :
    HasHistory id w { w with operations } :=
  .of_eq id rfl rfl rfl rfl

theorem history_start (i : JobId) (script : Script) : HasHistory id w (w.start i script) := by
  unfold start
  split
  · exact .refl id w
  · have hstarted : HasHistory id w { w with
        operations := w.operations ++ [⟨w.started, i, script, w.now, false, false⟩]
        started := w.started + 1 } := .of_eq id rfl rfl rfl rfl
    exact hstarted.trans (history_updateJob id _ i _ fun _ _ => ⟨rfl, List.suffix_rfl⟩)

theorem history_complete (o : Operation) : HasHistory id w (w.complete o) := by
  unfold complete
  refine (history_operations id w _ : HasHistory id w (w.dropOperation o.id)).trans ?_
  dsimp only
  split
  · exact history_perform id _ .nobody o.job _
  · exact history_perform id _ .nobody o.job _

theorem history_operate (o : Operation) : HasHistory id w (w.operate o) := by
  unfold operate
  split
  · exact history_complete id w o
  · next first rest _ =>
    refine (history_operations id w _ : HasHistory id w (w.updateOperation o.id
      fun o => { o with script := { o.script with steps := rest } })).trans ?_
    dsimp only
    split
    · exact history_push id _ _ (by simp)
    · unfold sleep
      split
      · exact history_operations id _ _
      · exact history_operations id _ _
    · exact (history_push id _ _ (by simp)).trans (history_handle id _ _ _ _)

end

/-! ## Errands -/

section
variable (id : JobId) (w : Jobs)

/-- The change whose turn it is passes from those that wait to the calls among the errands. -/
theorem history_notify (i : JobId) : HasHistory id w (w.notify i) := by
  unfold notify
  split
  · exact .refl id w
  · next job hj =>
    split
    · exact history_updateJob id w i _ fun _ _ => ⟨rfl, List.suffix_rfl⟩
    · next status rest hp =>
      have hcall : HasHistory id w (w.push [.call i status 0 job.callbacks, .notify i]) := by
        refine history_push id w _ fun s place callbacks hc => .inl ⟨job, ?_⟩
        simp only [List.mem_cons, Errand.call.injEq, reduceCtorEq, List.not_mem_nil, or_false] at hc
        obtain ⟨rfl, rfl, -, -⟩ := hc
        exact ⟨hj, by simp [hp]⟩
      refine hcall.trans (history_updateJob id (w.push _) i _ fun job' hj' => ⟨rfl, ?_⟩)
      obtain rfl := Option.some.inj (hj.symm.trans hj')
      exact ⟨[status], by simp [hp]⟩

theorem history_untrackDone (mid : Nat) : HasHistory id w (w.untrackDone mid) := by
  unfold untrackDone
  split
  · split
    · exact .of_eq id rfl rfl rfl rfl
    · exact .refl id w
  · exact .refl id w

theorem history_callOne (status : JobStatus) (c : Callback) : HasHistory id w (w.callOne status c) := by
  unfold callOne
  split
  · exact history_push id w _ (by simp)
  · split
    · exact history_untrackDone id w _
    · exact .refl id w

theorem history_drop {rest : List Errand} {e : Errand} (h : w.agenda = e :: rest) :
    HasHistory id w { w with agenda := rest } :=
  history_agenda id w rest fun _ place callbacks hs =>
    .inr ⟨place, callbacks, h ▸ List.mem_cons_of_mem e hs⟩

theorem history_call {i : JobId} {status : JobStatus} {place : Nat} {c : Callback}
    {callbacks : List Callback} {rest : List Errand}
    (h : w.agenda = .call i status place (c :: callbacks) :: rest) :
    HasHistory id w ({ w with agenda := rest }.carryOut (.call i status place (c :: callbacks))) := by
  let called := w.enter (.called i place c.name? status)
  have howes : ∀ s, i = id → status = s → w.Owes id s := by
    rintro s rfl rfl
    exact .inr ⟨place, c :: callbacks, by simp [h]⟩
  have hcalled : HasHistory id w called := by
    refine history_enter id w _ rfl fun s hs => ?_
    simp only [JournalEntry.delivery?, Option.ite_none_right_eq_some, Option.some.injEq] at hs
    exact howes s hs.1 hs.2
  have hnext : HasHistory id called
      { called with agenda := .call i status (place + 1) callbacks :: rest } := by
    refine history_agenda id called _ fun s place' callbacks' hs => ?_
    rcases List.mem_cons.1 hs with hs | hs
    · cases hs
      exact howes _ rfl rfl
    · exact .inr ⟨place', callbacks', h ▸ List.mem_cons_of_mem _ hs⟩
  exact (hcalled.trans hnext).trans (history_callOne id _ status c)

theorem history_carryOut (e : Errand) (he : ∀ i s place callbacks, e ≠ .call i s place callbacks) :
    HasHistory id w (w.carryOut e) := by
  cases e with
  | notify i => exact history_notify id w i
  | call i s place callbacks => exact absurd rfl (he i s place callbacks)
  | react reactions =>
    cases reactions with
    | nil => exact .refl id w
    | cons r rest =>
      exact (history_push id w [.react rest] (by simp)).trans (history_handleNamed id _ _ _ _)
  | report asker => exact history_conclude id w asker _
  | completeCancel i asker => exact history_perform id w asker i (.set .cancelled .empty)
  | attach i script asker => exact (history_start id w i script).trans (history_conclude id _ asker _)
  | operate o =>
    unfold carryOut
    dsimp only
    split
    · exact history_operate id w _
    · exact .refl id w

theorem history_step {w' : Jobs} (h : w.step = some w') : HasHistory id w w' := by
  unfold step at h
  split at h
  · cases h
  · next e rest ha =>
    obtain rfl := Option.some.inj h
    by_cases hcall : ∃ i s place callbacks, e = .call i s place callbacks
    · obtain ⟨i, s, place, callbacks, rfl⟩ := hcall
      cases callbacks with
      | nil => exact history_drop id w ha
      | cons c callbacks => exact history_call id w ha
    · push Not at hcall
      exact (history_drop id w ha).trans (history_carryOut id _ e hcall)

end

/-! ## Whole runs -/

section
variable (id : JobId) (w : Jobs)

theorem history_addJob (job : Job) : HasHistory id w { w with jobs := w.jobs ++ [job] } := by
  refine .of_quiet (fun job' hj => ⟨job', ?_, rfl, List.suffix_rfl⟩) ⟨[], by simp⟩
    (fun s place callbacks hs => .inr ⟨place, callbacks, hs⟩) (fun n t' ht' => .inr ht')
  obtain ⟨hlt, -⟩ := List.getElem?_eq_some_iff.1 hj
  rwa [job?, List.getElem?_append_left hlt]

theorem history_add (b : Blueprint) : HasHistory id w (w.add b) := by
  have hwriter : HasHistory id w (w.writerFor b).1 := by
    unfold writerFor
    split
    · exact .of_eq id rfl rfl rfl rfl
    · exact .refl id w
  unfold add
  dsimp only
  split
  · exact hwriter.trans ((history_addJob id _ _).trans (history_push id _ _ (by simp)))
  · exact hwriter.trans (history_addJob id _ _)

theorem history_timeOut (i : JobId) : HasHistory id w (w.timeOut i) := by
  unfold timeOut
  split
  · exact .refl id w
  · have hdisarmed : HasHistory id w (w.updateJob i fun job => { job with timer := none }) :=
      history_updateJob id w i _ fun _ _ => ⟨rfl, List.suffix_rfl⟩
    dsimp only
    split
    · exact hdisarmed.trans (history_perform id _ .nobody i _)
    · exact hdisarmed

theorem history_begin (d : Due) : HasHistory id w (w.begin d) := by
  cases d with
  | operation o => exact (history_operations id w _).trans (history_push id _ _ (by simp))
  | timer i => exact history_timeOut id w i

theorem history_streams (streams : List (String × StatusStream))
    (h : ∀ n t, (n, t) ∈ streams → t.unread = [] ∨ (n, t) ∈ w.streams) :
    HasHistory id w { w with streams } :=
  .of_quiet (fun job hj => ⟨job, hj, rfl, List.suffix_rfl⟩) ⟨[], by simp⟩
    (fun _ place callbacks hs => .inr ⟨place, callbacks, hs⟩) h

theorem history_openStream (name : String) (i : JobId) : HasHistory id w (w.openStream name i) := by
  refine history_streams id w _ fun n t ht => ?_
  rcases List.mem_cons.1 ht with ht | ht
  · cases ht
    exact .inl rfl
  · exact .inr (List.mem_of_mem_filter ht)

theorem history_drain (name : String) : HasHistory id w (w.drain name).1 := by
  unfold drain
  split
  · exact .refl id w
  · refine history_streams id w _ fun n t ht => ?_
    rcases List.mem_cons.1 ht with ht | ht
    · cases ht
      exact .inl rfl
    · exact .inr (List.mem_of_mem_filter ht)

variable {w} {w' : Jobs}

theorem Move.hasHistory (h : Move w w') : HasHistory id w w' := by
  cases h with
  | errand hs => exact history_step id w hs
  | ask i act => exact history_perform id w .caller i act
  | spawn i script => exact history_changeFor id w .caller i _ _ _ (by simp)
  | add b => exact history_add id w b
  | due d => exact history_begin id w d
  | openStream name i => exact history_openStream id w name i
  | drain name => exact history_drain id w name
  | tick | hold | release | track | untrack => exact .of_eq id rfl rfl rfl rfl

theorem Leads.hasHistory (h : w.Leads w') : HasHistory id w w' := by
  induction h with
  | refl => exact .refl id w
  | tail _ hmove ih => exact ih.trans (hmove.hasHistory id)

end

end Jobs
end ActorHub
