import ActorHub.Proofs.Jobs.History

/-!
# Deliveries

What a run looks like from one job and its callbacks: the part of the job that delivering reads, the
errands that deliver, and what the journal has of the job. Whatever moves, this view of it stays as it
is or takes one step (`Move.view_cases`), and there are few kinds of steps.
-/

namespace ActorHub

def JournalEntry.isOf (id : JobId) : JournalEntry → Bool
  | .changed i _ | .wrote i _ _ | .called i _ _ _ => i == id
  | .reacted .. | .worked .. => false

def Errand.delivers (id : JobId) : Errand → Bool
  | .notify i | .call i _ _ _ => i == id
  | .react _ | .report _ | .completeCancel .. | .attach .. | .operate _ => false

/-- What delivering needs of a job. -/
structure Notifier where
  parent : Option JobId
  writer : Option WriterId
  callbacks : List Callback
  pending : List JobStatus
  isNotifying : Bool

def Job.notifier (job : Job) : Notifier :=
  ⟨job.parent, job.writer, job.callbacks, job.pending, job.isNotifying⟩

structure View where
  notifier : Option Notifier
  errands : List Errand
  entries : List JournalEntry

def Jobs.view (w : Jobs) (id : JobId) : View where
  notifier := (w.job? id).map Job.notifier
  errands := w.agenda.filter (·.delivers id)
  entries := w.journal.filter (·.isOf id)

/-- What a change writes before it is recorded. A job with a parent may have nothing to say. -/
inductive Announces (id : JobId) (n : Notifier) (status : JobStatus) : List JournalEntry → Prop
  | unattached : n.writer = none → Announces id n status []
  | unsaid : n.parent ≠ none → Announces id n status []
  | said {writer : WriterId} (reply : OutgoingReply) : n.writer = some writer →
      (n.parent = none → reply.code = status.code) →
      Announces id n status [.wrote id writer reply]

inductive View.Step (id : JobId) : View → View → Prop
  | listen (n : Notifier) (c : Callback) (es : List Errand) (js : List JournalEntry) :
      View.Step id ⟨some n, es, js⟩ ⟨some { n with callbacks := n.callbacks ++ [c] }, es, js⟩
  | write {n : Notifier} {writer : WriterId} (reply : OutgoingReply) (es : List Errand)
      (js : List JournalEntry) : n.writer = some writer →
      View.Step id ⟨some n, es, js⟩ ⟨some n, es, js ++ [.wrote id writer reply]⟩
  | change {n : Notifier} {status : JobStatus} {notes : List JournalEntry} (es : List Errand)
      (js : List JournalEntry) : Announces id n status notes →
      View.Step id ⟨some n, es, js⟩
        ⟨some { n with pending := n.pending ++ [status], isNotifying := true },
          (if n.isNotifying then [] else [.notify id]) ++ es, js ++ notes ++ [.changed id status]⟩
  | rest {n : Notifier} (es : List Errand) (js : List JournalEntry) : n.pending = [] →
      View.Step id ⟨some n, .notify id :: es, js⟩ ⟨some { n with isNotifying := false }, es, js⟩
  | begin {n : Notifier} {status : JobStatus} {rest : List JobStatus} (es : List Errand)
      (js : List JournalEntry) : n.pending = status :: rest →
      View.Step id ⟨some n, .notify id :: es, js⟩
        ⟨some { n with pending := rest }, .call id status 0 n.callbacks :: .notify id :: es, js⟩
  | call (n : Notifier) (status : JobStatus) (place : Nat) (c : Callback) (cs : List Callback)
      (es : List Errand) (js : List JournalEntry) :
      View.Step id ⟨some n, .call id status place (c :: cs) :: es, js⟩
        ⟨some n, .call id status (place + 1) cs :: es, js ++ [.called id place c.name? status]⟩
  | called (n : Notifier) (status : JobStatus) (place : Nat) (es : List Errand)
      (js : List JournalEntry) :
      View.Step id ⟨some n, .call id status place [] :: es, js⟩ ⟨some n, es, js⟩

def View.Advances (id : JobId) (v v' : View) : Prop :=
  v' = v ∨ View.Step id v v'

namespace Jobs

/-! ## Edits, seen from a job -/

section
variable (id : JobId) (w : Jobs)

theorem view_enter (e : JournalEntry) : (w.enter e).view id =
    { w.view id with entries := (w.view id).entries ++ if e.isOf id then [e] else [] } := by
  simp only [view, enter, job?, List.filter_append, List.filter_singleton, Bool.cond_eq_ite]

theorem view_push (errands : List Errand) : (w.push errands).view id =
    { w.view id with errands := errands.filter (·.delivers id) ++ (w.view id).errands } := by
  simp only [view, push, job?, List.filter_append]

theorem view_updateJob (i : JobId) (f : Job → Job) : (w.updateJob i f).view id =
    { w.view id with
      notifier := if i = id then (w.job? id).map fun job => (f job).notifier
        else (w.view id).notifier } := by
  unfold view
  rw [job?_updateJob]
  by_cases hi : i = id
  · simp only [hi, if_true, Option.map_map]
    rfl
  · simp only [hi, if_false]
    rfl

theorem view_enter_quiet {e : JournalEntry} (he : e.isOf id = false) :
    (w.enter e).view id = w.view id := by
  simp [view_enter, he]

theorem view_push_quiet {errands : List Errand} (h : ∀ e ∈ errands, e.delivers id = false) :
    (w.push errands).view id = w.view id := by
  have hnone : errands.filter (·.delivers id) = [] := List.filter_eq_nil_iff.2 (by simpa using h)
  simp [view_push, hnone]

theorem view_updateJob_quiet (i : JobId) {f : Job → Job}
    (hf : ∀ job, (f job).notifier = job.notifier) : (w.updateJob i f).view id = w.view id := by
  rw [view_updateJob]
  simp only [hf, view, ite_self]

theorem view_updateJob_ne {i : JobId} (hi : i ≠ id) (f : Job → Job) :
    (w.updateJob i f).view id = w.view id := by
  simp only [view_updateJob, hi, if_false]

theorem view_tell (asker : Asker) (outcome : Outcome) :
    (w.tell asker outcome).view id = w.view id := by
  cases asker with
  | caller | nobody => rfl
  | reaction label on | operation label => exact view_enter_quiet id w rfl

theorem view_conclude (asker : Asker) (result : Except JobError Unit) :
    (w.conclude asker result).view id = w.view id := by
  cases asker with
  | caller => rfl
  | reaction label on => exact view_tell id w (.reaction label on) _
  | operation label => exact view_tell id w (.operation label) _
  | nobody => rfl

theorem view_windUp (i : JobId) : (w.windUp i).view id = w.view id := by
  unfold windUp
  dsimp only
  split
  · exact view_updateJob_quiet id _ i fun _ => rfl
  · exact view_updateJob_quiet id w i fun _ => rfl

theorem view_start (i : JobId) (script : Script) : (w.start i script).view id = w.view id := by
  unfold start
  split
  · rfl
  · exact view_updateJob_quiet id _ i fun _ => rfl

theorem view_sleep (o : Operation) (milliseconds : Nat) :
    (w.sleep o milliseconds).view id = w.view id := by
  unfold sleep
  split <;> rfl

theorem view_untrackDone (mid : Nat) : (w.untrackDone mid).view id = w.view id := by
  unfold untrackDone
  split
  · split <;> rfl
  · rfl

theorem view_callOne (status : JobStatus) (c : Callback) :
    (w.callOne status c).view id = w.view id := by
  unfold callOne
  split
  · exact view_push_quiet id w (by simp [Errand.delivers])
  · split
    · exact view_untrackDone id w _
    · rfl

theorem view_writerFor (b : Blueprint) : (w.writerFor b).1.view id = w.view id := by
  unfold writerFor
  split <;> rfl

theorem view_drain (name : String) : (w.drain name).1.view id = w.view id := by
  unfold drain
  split <;> rfl

theorem view_agenda {e : Errand} {rest : List Errand} (ha : w.agenda = e :: rest) :
    w.view id = { ({ w with agenda := rest } : Jobs).view id with
      errands := (if e.delivers id then [e] else []) ++
        (({ w with agenda := rest } : Jobs).view id).errands } := by
  simp only [view, job?, ha, List.filter_cons]
  split <;> rfl

end

section
variable {id : JobId} {w : Jobs} {job : Job}

theorem view_of_job (hj : w.job? id = some job) :
    w.view id = ⟨some job.notifier, (w.view id).errands, (w.view id).entries⟩ := by
  simp only [view, hj, Option.map_some]

theorem view_updateJob_of_job (hj : w.job? id = some job) (f : Job → Job) :
    (w.updateJob id f).view id = { w.view id with notifier := some (f job).notifier } := by
  simp only [view_updateJob, hj, if_true, Option.map_some]

end

/-! ## Writing and changing -/

section
variable (id : JobId) {w w' : Jobs}

theorem wrote_cases {i : JobId} {code : Char} {content : Content}
    (h : w.write i code content = .ok w') :
    (w' = w ∧ ∀ job, w.job? i = some job → job.parent ≠ none) ∨
    ∃ job writer writers reply, w.job? i = some job ∧ job.writer = some writer ∧
      (job.parent = none → reply.code = code) ∧
      w' = { w with writers }.enter (.wrote i writer reply) := by
  unfold write at h
  split at h
  · next job hj =>
    split at h
    · next writer hw =>
      obtain ⟨keywords, -, h⟩ := bind_eq_ok_iff.1 h
      split at h
      · next hr =>
        refine .inl ⟨(pure_eq_ok_iff.1 h).symm, fun job' hj' hp => ?_⟩
        obtain rfl := Option.some.inj (hj.symm.trans hj')
        simp [reply?, hp] at hr
      · next reply hr =>
        split at h
        · obtain ⟨state, -, h⟩ := bind_eq_ok_iff.1 h
          refine .inr ⟨job, writer, _, reply, hj, hw, fun hp => ?_, (pure_eq_ok_iff.1 h).symm⟩
          simp only [reply?, hp, Option.some.injEq] at hr
          rw [← hr]
        · exact absurd h throw_ne_ok
    · exact absurd h throw_ne_ok
  · next hj =>
    exact .inl ⟨(pure_eq_ok_iff.1 h).symm, fun job hj' => (hj job hj').elim⟩

theorem view_wrote (i : JobId) (writer : WriterId) (writers : List Writer) (reply : OutgoingReply) :
    ({ w with writers }.enter (.wrote i writer reply)).view id =
      { w.view id with
        entries := (w.view id).entries ++ if i = id then [.wrote i writer reply] else [] } := by
  simp only [view_enter, JournalEntry.isOf, beq_iff_eq]
  rfl

theorem advances_write {i : JobId} {code : Char} {content : Content}
    (h : w.write i code content = .ok w') : View.Advances id (w.view id) (w'.view id) := by
  rcases wrote_cases h with ⟨rfl, -⟩ | ⟨job, writer, writers, reply, hj, hw, -, rfl⟩
  · exact .inl rfl
  · rw [view_wrote]
    by_cases hi : i = id
    · subst hi
      rw [view_of_job hj, if_pos rfl]
      exact .inr (.write reply _ _ hw)
    · simp only [hi, if_false, List.append_nil]
      exact .inl rfl

theorem announces_of_announce {job : Job} {status : JobStatus} {content : Content}
    (hj : w.job? id = some job) (h : w.announce id status content = .ok w') :
    w'.job? id = some job ∧ ∃ notes, Announces id job.notifier status notes ∧
      w'.view id = { w.view id with entries := (w.view id).entries ++ notes } := by
  have hsame : w.view id = { w.view id with entries := (w.view id).entries ++ [] } := by simp
  unfold announce at h
  split at h
  · rcases wrote_cases h with ⟨rfl, hp⟩ | ⟨job', writer, writers, reply, hj', hw, hcode, rfl⟩
    · exact ⟨hj, [], .unsaid (hp job hj), hsame⟩
    · obtain rfl := Option.some.inj (hj.symm.trans hj')
      refine ⟨hj, _, .said reply hw hcode, ?_⟩
      rw [view_wrote, if_pos rfl]
  · next hw =>
    obtain rfl := Except.ok.inj h
    have hnone : job.writer = none := by simpa [hj] using hw
    exact ⟨hj, [], .unattached hnone, hsame⟩

theorem view_recorded (i : JobId) (status : JobStatus) : (w.recorded i status).view id =
    ((w.updateJob i (·.moveTo status)).enter (.changed i status)).view id :=
  rfl

theorem view_record (i : JobId) (status : JobStatus) :
    (w.record i status).1.view id = (w.recorded i status).view id := by
  rw [record_fst]
  split
  · exact view_windUp id _ i
  · rfl

end

section
variable (id : JobId) (w : Jobs)

theorem advances_changeFor (asker : Asker) (i : JobId) (status : JobStatus) (content : Content)
    {afterwards : List Errand} (h : ∀ e ∈ afterwards, e.delivers id = false) :
    View.Advances id (w.view id) ((w.changeFor asker i status content afterwards).view id) := by
  have hnone : afterwards.filter (·.delivers id) = [] := List.filter_eq_nil_iff.2 (by simpa using h)
  unfold changeFor
  split
  · next u errands hs =>
    rcases setStatus_cases hs with ⟨rfl, rfl, -⟩ | ⟨job, v, hj, -, -, hv, hr⟩
    · exact .inl (view_push_quiet id u h)
    · obtain rfl : (v.record i status).1 = u := congrArg Prod.fst hr
      obtain rfl : (v.record i status).2 = errands := congrArg Prod.snd hr
      rw [view_push, view_record, view_recorded, view_enter, List.filter_append, hnone]
      by_cases hi : i = id
      · subst hi
        obtain ⟨hjv, notes, hnotes, hview⟩ := announces_of_announce i hj hv
        have herrands : (v.record i status).2.filter (·.delivers i) =
            if job.isNotifying then [] else [.notify i] := by
          simp only [record, hjv, Option.any_some]
          cases job.isNotifying <;> simp [Errand.delivers]
        have hstep := View.Step.change (w.view i).errands (w.view i).entries hnotes
        rw [herrands, view_updateJob_of_job hjv, hview, view_of_job hj]
        simp only [JournalEntry.isOf, beq_self_eq_true, if_true, List.append_nil]
        exact .inr hstep
      · have herrands : (v.record i status).2.filter (·.delivers id) = [] := by
          rcases record_errands (w := v) i status with he | he <;> simp [he, Errand.delivers, hi]
        rw [herrands, view_updateJob_ne id v hi]
        refine .inl ?_
        rcases wrote_of_announce hv with rfl | ⟨writer, writers, reply, rfl⟩
        · simp [JournalEntry.isOf, hi]
        · simp [view_wrote, JournalEntry.isOf, hi]
  · exact .inl (view_conclude id w asker _)

theorem advances_perform (asker : Asker) (i : JobId) (act : Act) :
    View.Advances id (w.view id) ((w.perform asker i act).view id) := by
  unfold perform
  cases act with
  | set status content =>
    exact advances_changeFor id w asker i status content (by simp [Errand.delivers])
  | write code content =>
    dsimp only
    split
    · next u hu =>
      rw [view_conclude]
      exact advances_write id hu
    · exact .inl (view_conclude id w asker _)
  | cancel =>
    dsimp only
    split
    · exact .inl (view_conclude id w asker _)
    · exact advances_changeFor id w asker i _ _ (by simp [Errand.delivers])
  | listen c =>
    dsimp only
    rw [view_conclude, addCallback]
    by_cases hi : i = id
    · subst hi
      cases hj : w.job? i with
      | none =>
        refine .inl ?_
        rw [view_updateJob]
        simp [view, hj]
      | some job =>
        rw [view_updateJob_of_job hj, view_of_job hj]
        exact .inr (.listen job.notifier c _ _)
    · exact .inl (view_updateJob_ne id w hi _)

theorem advances_handle (asker : Asker) (i : JobId) (r : Request) :
    View.Advances id (w.view id) ((w.handle asker i r).view id) := by
  unfold handle
  split
  · exact advances_perform id w asker i _
  · exact .inl (view_tell id w asker _)

theorem advances_handleNamed (asker : Asker) (name : String) (r : Request) :
    View.Advances id (w.view id) ((w.handleNamed asker name r).view id) := by
  unfold handleNamed
  split
  · exact advances_handle id w asker _ r
  · exact .inl (view_tell id w asker _)

theorem advances_complete (o : Operation) :
    View.Advances id (w.view id) ((w.complete o).view id) := by
  have hdropped : (w.dropOperation o.id).view id = w.view id := rfl
  unfold complete
  dsimp only
  rw [← hdropped]
  split
  · exact advances_perform id _ .nobody o.job _
  · exact advances_perform id _ .nobody o.job _

theorem advances_operate (o : Operation) : View.Advances id (w.view id) ((w.operate o).view id) := by
  unfold operate
  split
  · exact advances_complete id w o
  · next first rest _ =>
    dsimp only
    generalize hu : w.updateOperation o.id
      (fun o => { o with script := { o.script with steps := rest } }) = u
    have hview : u.view id = w.view id := hu ▸ rfl
    have hpush : (u.push [.operate o.id]).view id = w.view id :=
      (view_push_quiet id u (by simp [Errand.delivers])).trans hview
    split
    · exact .inl hpush
    · exact .inl ((view_sleep id u o _).trans hview)
    · rw [← hpush]
      exact advances_handle id _ _ _ _

end

/-! ## Errands -/

section
variable (id : JobId) (w : Jobs)

/-- Errands that do not deliver, and those that deliver changes of another job. -/
theorem advances_carryOut {e : Errand} (he : e.delivers id = false) :
    View.Advances id (w.view id) ((w.carryOut e).view id) := by
  cases e with
  | notify i =>
    have hi : i ≠ id := by simpa [Errand.delivers] using he
    refine .inl ?_
    unfold carryOut notify
    dsimp only
    split
    · rfl
    · split
      · exact view_updateJob_ne id w hi _
      · rw [view_push_quiet id _ (by simp [Errand.delivers, hi])]
        exact view_updateJob_ne id w hi _
  | call i status place callbacks =>
    have hi : i ≠ id := by simpa [Errand.delivers] using he
    refine .inl ?_
    cases callbacks with
    | nil => rfl
    | cons c callbacks =>
      unfold carryOut
      rw [view_callOne, view_enter_quiet id _ (by simp [JournalEntry.isOf, hi])]
      exact view_push_quiet id w (by simp [Errand.delivers, hi])
  | react reactions =>
    cases reactions with
    | nil => exact .inl rfl
    | cons r rest =>
      have hpushed : (w.push [.react rest]).view id = w.view id :=
        view_push_quiet id w (by simp [Errand.delivers])
      unfold carryOut
      rw [← hpushed]
      exact advances_handleNamed id _ _ _ _
  | report asker => exact .inl (view_conclude id w asker _)
  | completeCancel i asker => exact advances_perform id w asker i (.set .cancelled .empty)
  | attach i script asker =>
    exact .inl ((view_conclude id _ asker _).trans (view_start id w i script))
  | operate o =>
    unfold carryOut
    dsimp only
    split
    · exact advances_operate id w _
    · exact .inl rfl

variable {id} {w} {job : Job}

theorem step_notify (hj : w.job? id = some job) :
    View.Step id { w.view id with errands := .notify id :: (w.view id).errands }
      ((w.notify id).view id) := by
  rw [view_of_job hj]
  unfold notify
  rw [hj]
  cases hp : job.pending with
  | nil =>
    simp only [hp]
    rw [view_updateJob_of_job hj]
    exact .rest (n := job.notifier) _ _ hp
  | cons status later =>
    simp only [hp]
    rw [view_push, view_updateJob_of_job hj]
    simpa [Errand.delivers, Job.notifier] using View.Step.begin (n := job.notifier) _ _ hp

theorem step_call (hj : w.job? id = some job) (status : JobStatus) (place : Nat)
    (cs : List Callback) :
    View.Step id { w.view id with errands := .call id status place cs :: (w.view id).errands }
      ((w.carryOut (.call id status place cs)).view id) := by
  rw [view_of_job hj]
  cases cs with
  | nil =>
    have hcalled : w.carryOut (.call id status place []) = w := rfl
    rw [hcalled, view_of_job hj]
    exact .called job.notifier status place _ _
  | cons c cs =>
    unfold carryOut
    rw [view_callOne, view_enter, view_push, view_of_job hj]
    simpa [Errand.delivers, JournalEntry.isOf] using View.Step.call job.notifier status place c cs _ _

theorem advances_step {w' : Jobs} (h : w.step = some w')
    (hborn : (w.view id).errands ≠ [] → (w.job? id).isSome) :
    View.Advances id (w.view id) (w'.view id) := by
  unfold step at h
  split at h
  · cases h
  · next e rest ha =>
    obtain rfl := Option.some.inj h
    rw [view_agenda id w ha] at hborn ⊢
    have hjob : w.job? id = ({ w with agenda := rest } : Jobs).job? id := rfl
    rw [hjob] at hborn
    generalize ({ w with agenda := rest } : Jobs) = u at hborn ⊢
    cases he : e.delivers id with
    | false =>
      simp only [Bool.false_eq_true, if_false, List.nil_append]
      exact advances_carryOut id u he
    | true =>
      simp only [he, if_true, List.singleton_append] at hborn ⊢
      obtain ⟨job, hj⟩ := Option.isSome_iff_exists.1 (hborn (List.cons_ne_nil _ _))
      refine .inr ?_
      cases e with
      | notify i =>
        obtain rfl : i = id := by simpa [Errand.delivers] using he
        exact step_notify hj
      | call i status place cs =>
        obtain rfl : i = id := by simpa [Errand.delivers] using he
        exact step_call hj status place cs
      | _ => cases he

end

/-! ## Moves -/

section
variable (id : JobId) (w : Jobs)

theorem advances_timeOut (i : JobId) : View.Advances id (w.view id) ((w.timeOut i).view id) := by
  have hdisarmed : (w.updateJob i fun job => { job with timer := none }).view id = w.view id :=
    view_updateJob_quiet id w i fun _ => rfl
  unfold timeOut
  split
  · exact .inl rfl
  · dsimp only
    split
    · rw [← hdisarmed]
      exact advances_perform id _ .nobody i _
    · exact .inl hdisarmed

theorem advances_begin (d : Due) : View.Advances id (w.view id) ((w.begin d).view id) := by
  cases d with
  | operation o => exact .inl (view_push_quiet id _ (by simp [Errand.delivers]))
  | timer i => exact advances_timeOut id w i

theorem getElem?_concat (jobs : List Job) (job : Job) (i : Nat) :
    (jobs ++ [job])[i]? = if i = jobs.length then some job else jobs[i]? := by
  by_cases hi : i = jobs.length
  · simp [hi]
  · rw [if_neg hi, List.getElem?_append]
    split
    · rfl
    · rw [List.getElem?_eq_none (by simp; omega), List.getElem?_eq_none (by omega)]

theorem jobs_writerFor (b : Blueprint) : (w.writerFor b).1.jobs = w.jobs := by
  unfold writerFor
  split <;> rfl

theorem job?_add (b : Blueprint) :
    ∃ job, (w.add b).job? w.jobs.length = some job ∧ job.status = .ready := by
  have hjobs := jobs_writerFor w b
  unfold add job? push
  dsimp only
  rw [hjobs]
  split
  · exact ⟨_, List.getElem?_concat_length, rfl⟩
  · exact ⟨_, List.getElem?_concat_length, rfl⟩

def fresh (b : Blueprint) : View where
  notifier := some
    { parent := b.order.parent
      writer := (w.writerFor b).2
      callbacks := b.callbacks
      pending := if b.callsNow then [.ready] else []
      isNotifying := b.callsNow }
  errands := (if b.callsNow then [.notify w.jobs.length] else []) ++ (w.view w.jobs.length).errands
  entries := (w.view w.jobs.length).entries

theorem view_add (b : Blueprint) :
    (w.add b).view id = if id = w.jobs.length then w.fresh b else w.view id := by
  have hwriter := view_writerFor id w b
  have hjobs := jobs_writerFor w b
  unfold add fresh
  generalize w.writerFor b = p at hwriter hjobs ⊢
  obtain ⟨u, writer⟩ := p
  dsimp only at hwriter hjobs ⊢
  by_cases hi : id = w.jobs.length
  · subst hi
    rw [if_pos rfl, ← hwriter]
    split
    · next hb =>
      rw [view_push]
      simp [view, job?, hjobs, hb, Errand.delivers, Job.notifier, Job.ofOrder]
    · next hb =>
      simp [view, job?, hjobs, hb, Errand.delivers, Job.notifier, Job.ofOrder]
  · rw [if_neg hi, ← hwriter]
    have hi' : w.jobs.length ≠ id := fun h => hi h.symm
    split
    · rw [view_push]
      simp [view, job?, getElem?_concat, hjobs, hi, hi', Errand.delivers]
    · simp [view, job?, getElem?_concat, hjobs, hi]

variable {w} {w' : Jobs}

theorem Move.view_cases (h : Move w w') (hborn : (w.view id).errands ≠ [] → (w.job? id).isSome) :
    View.Advances id (w.view id) (w'.view id) ∨
      ∃ b, w' = w.add b ∧ id = w.jobs.length ∧ w'.view id = w.fresh b := by
  cases h with
  | errand hs => exact .inl (advances_step hs hborn)
  | ask i act => exact .inl (advances_perform id w .caller i act)
  | spawn i script => exact .inl (advances_changeFor id w .caller i _ _ (by simp [Errand.delivers]))
  | add b =>
    by_cases hi : id = w.jobs.length
    · exact .inr ⟨b, rfl, hi, by rw [view_add, if_pos hi]⟩
    · exact .inl (.inl (by rw [view_add, if_neg hi]))
  | due d => exact .inl (advances_begin id w d)
  | drain name => exact .inl (.inl (view_drain id w name))
  | tick | hold | release | track | untrack | openStream => exact .inl (.inl rfl)

end

end Jobs
end ActorHub
