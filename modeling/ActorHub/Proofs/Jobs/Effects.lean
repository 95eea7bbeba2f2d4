import ActorHub.Proofs.Jobs.Stream

/-!
# What deeds do

A deed asks at most one thing of one job (`Deed.act?`). Apart from what is asked, and from the clock and a
timer that goes off, a deed is quiet: no status changes, nothing is written and no timer is touched
(`obeys_run`). So what becomes of a job is what one turn makes of it after another (`turn_run`).
-/

namespace ActorHub

/-- What of a job only changes by what is asked of it, or by its timer. -/
structure Face where
  order : JobOrder
  writer : Option WriterId
  status : JobStatus
  timer : Option Nat

def Job.face (job : Job) : Face :=
  ⟨job.toJobOrder, job.writer, job.status, job.timer⟩

def Face.change (f : Face) (status : JobStatus) : Face :=
  { f with status, timer := if status.isDone then none else f.timer }

def JournalEntry.isNews : JournalEntry → Bool
  | .changed .. | .wrote .. => true
  | .called .. | .reacted .. | .worked .. => false

/-! ## What is asked -/

/-- The status that an act asks for first, with what it says. -/
def Act.change? : Act → Option (JobStatus × Content)
  | .set status content => some (status, content)
  | .cancel => some (.cancelling, .empty)
  | .write .. | .listen _ => none

def Act.code? : Act → Option Char
  | .write code _ => some code
  | act => act.change?.map (·.1.code)

def Script.lastAct (s : Script) : Act :=
  match s.failure with
  | none => .finish .empty
  | some message => .fail (.text message)

def Operation.act? (o : Operation) : Option (JobId × Act) :=
  match o.script.steps with
  | [] => some (o.job, o.script.lastAct)
  | .ask r :: _ => r.act.toOption.map (o.job, ·)
  | .sleep _ :: _ => none

namespace Jobs

def Errand.act? (w : Jobs) : Errand → Option (JobId × Act)
  | .react (r :: _) => (w.named? r.on).bind fun id => r.request.act.toOption.map (id, ·)
  | .completeCancel id _ => some (id, .set .cancelled .empty)
  | .operate id => (w.operation? id).bind Operation.act?
  | .notify _ | .call .. | .react [] | .report _ | .attach .. => none

def Deed.act? (w : Jobs) : Deed → Option (JobId × Act)
  | errand => w.agenda.head?.bind (Errand.act? w)
  | ask id act => some (id, act)
  | spawn id _ => some (id, .set .running .empty)
  | due (.timer id) => some (id, .set .timedOut .empty)
  | due (.operation _) | add _ | tick | hold .. | release _ | track .. | untrack _ | openStream .. | poll _
  | drain _ => none

def Deed.isTimer (id : JobId) : Deed → Bool
  | due (.timer i) => i == id
  | _ => false

/-- What a deed does to the clock and to the timer that goes off. -/
def Deed.prepare (w : Jobs) : Deed → Jobs
  | due (.timer id) => w.updateJob id fun job => { job with timer := none }
  | tick => { w with now := w.now + 1 }
  | _ => w

/-! ## Quiet edits -/

structure Quiet (w w' : Jobs) : Prop where
  faces : w.jobs.map Job.face <+: w'.jobs.map Job.face
  writers : w.writers <+: w'.writers
  journal : ∃ more, w'.journal = w.journal ++ more ∧ ∀ e ∈ more, e.isNews = false
  now : w'.now = w.now

section
variable {w w' w'' : Jobs}

theorem Quiet.of_eq (hjobs : w'.jobs = w.jobs) (hwriters : w'.writers = w.writers)
    (hjournal : w'.journal = w.journal) (hnow : w'.now = w.now) : Quiet w w' where
  faces := by rw [hjobs]
  writers := by rw [hwriters]
  journal := ⟨[], by rw [hjournal, List.append_nil], nofun⟩
  now := hnow

theorem Quiet.refl (w : Jobs) : Quiet w w :=
  .of_eq rfl rfl rfl rfl

theorem Quiet.trans (h : Quiet w w') (h' : Quiet w' w'') : Quiet w w'' where
  faces := h.faces.trans h'.faces
  writers := h.writers.trans h'.writers
  journal := by
    obtain ⟨more, hmore, hquiet⟩ := h.journal
    obtain ⟨more', hmore', hquiet'⟩ := h'.journal
    refine ⟨more ++ more', by rw [hmore', hmore, List.append_assoc], fun e he => ?_⟩
    exact (List.mem_append.mp he).elim (hquiet e) (hquiet' e)
  now := h'.now.trans h.now

end

section
variable (w : Jobs)

theorem quiet_enter {e : JournalEntry} (he : e.isNews = false) : Quiet w (w.enter e) where
  faces := List.prefix_rfl
  writers := List.prefix_rfl
  journal := ⟨[e], rfl, by simpa using he⟩
  now := rfl

theorem quiet_push (errands : List Errand) : Quiet w (w.push errands) :=
  .of_eq rfl rfl rfl rfl

theorem quiet_updateJob (i : JobId) {f : Job → Job} (hf : ∀ job, (f job).face = job.face) :
    Quiet w (w.updateJob i f) where
  faces := by
    have hfaces : (w.updateJob i f).jobs.map Job.face = w.jobs.map Job.face := by
      refine List.ext_getElem? fun k => ?_
      rw [updateJob, List.getElem?_map, List.getElem?_map, List.getElem?_modify]
      cases w.jobs[k]? with
      | none => rfl
      | some job =>
        by_cases hk : i = k
        · simp [hk, hf]
        · simp [hk]
    rw [hfaces]
  writers := List.prefix_rfl
  journal := ⟨[], (List.append_nil _).symm, nofun⟩
  now := rfl

theorem quiet_tell (asker : Asker) (outcome : Outcome) : Quiet w (w.tell asker outcome) := by
  cases asker with
  | caller | nobody => exact .refl w
  | reaction label on | operation label => exact quiet_enter w rfl

theorem quiet_conclude (asker : Asker) (result : Except JobError Unit) :
    Quiet w (w.conclude asker result) := by
  cases asker with
  | caller => exact .of_eq rfl rfl rfl rfl
  | reaction label on => exact quiet_tell w (.reaction label on) _
  | operation label => exact quiet_tell w (.operation label) _
  | nobody => exact .refl w

theorem quiet_start (i : JobId) (script : Script) : Quiet w (w.start i script) := by
  unfold start
  split
  · exact .refl w
  · exact (Quiet.of_eq rfl rfl rfl rfl : Quiet w { w with
      operations := w.operations ++ [⟨w.started, i, script, w.now, false, false⟩]
      started := w.started + 1 }).trans (quiet_updateJob _ i fun _ => rfl)

theorem quiet_sleep (o : Operation) (milliseconds : Nat) : Quiet w (w.sleep o milliseconds) := by
  unfold sleep
  split
  · exact .of_eq rfl rfl rfl rfl
  · exact .of_eq rfl rfl rfl rfl

theorem quiet_notify (i : JobId) : Quiet w (w.notify i) := by
  unfold notify
  split
  · exact .refl w
  · split
    · exact quiet_updateJob w i fun _ => rfl
    · refine (quiet_updateJob w i ?_).trans (quiet_push _ _)
      exact fun _ => rfl

theorem quiet_untrackDone (mid : Nat) : Quiet w (w.untrackDone mid) := by
  unfold untrackDone
  split
  · split
    · exact .of_eq rfl rfl rfl rfl
    · exact .refl w
  · exact .refl w

theorem quiet_callOne (status : JobStatus) (c : Callback) : Quiet w (w.callOne status c) := by
  unfold callOne
  split
  · exact quiet_push w _
  · split
    · exact quiet_untrackDone w _
    · exact .refl w

theorem quiet_setStream (name : String) (s : StatusStream) : Quiet w (w.setStream name s) :=
  .of_eq rfl rfl rfl rfl

theorem quiet_add (b : Blueprint) : Quiet w (w.add b) := by
  have hwriter : Quiet w (w.writerFor b).1 := by
    unfold writerFor
    split
    · exact ⟨List.prefix_rfl, List.prefix_append _ _, ⟨[], (List.append_nil _).symm, nofun⟩, rfl⟩
    · exact .refl w
  have hjob : ∀ (v : Jobs) job, Quiet v { v with jobs := v.jobs ++ [job] } := by
    intro v job
    refine ⟨?_, List.prefix_rfl, ⟨[], (List.append_nil _).symm, nofun⟩, rfl⟩
    rw [List.map_append]
    exact List.prefix_append _ _
  unfold add
  dsimp only
  split
  · exact hwriter.trans ((hjob _ _).trans (quiet_push _ _))
  · exact hwriter.trans (hjob _ _)

end

/-! ## Effects -/

/-- What is left of a write that is not refused: nothing, or a reply that the writer of the job takes. -/
inductive Says (w : Jobs) (id : JobId) (code : Char) : Jobs → Prop
  | nothing : Says w id code w
  | reply {job : Job} {writer : WriterId} {keywords : Keywords} {reply : OutgoingReply}
      {state state' : Writer} : w.job? id = some job → job.writer = some writer →
      w.reply? job code keywords = some reply → w.writers[writer]? = some state →
      state.accept = .ok state' →
      Says w id code ({ w with writers := w.writers.set writer state' }.enter (.wrote id writer reply))

/-- What an act that is not refused does to a job, apart from quiet edits. -/
inductive Effect (w : Jobs) (id : JobId) : Act → Jobs → Prop
  | write {code : Char} {content : Content} {w' : Jobs} : Says w id code w' →
      Effect w id (.write code content) w'
  | change {act : Act} {status : JobStatus} {content : Content} {job : Job} {v : Jobs} :
      act.change? = some (status, content) → w.job? id = some job → job.status.isDone = false →
      job.status ≠ status → Says w id status.code v → Effect w id act (v.record id status).1

def Obeys (asked : Option (JobId × Act)) (w w' : Jobs) : Prop :=
  Quiet w w' ∨ ∃ id act u u', asked = some (id, act) ∧ Quiet w u ∧ Effect u id act u' ∧ Quiet u' w'

section
variable {asked : Option (JobId × Act)} {u w w' : Jobs}

theorem Obeys.after (h : Obeys asked u w') (hu : Quiet w u) : Obeys asked w w' := by
  obtain h | ⟨id, act, v, v', hasked, hv, he, hv'⟩ := h
  · exact .inl (hu.trans h)
  · exact .inr ⟨id, act, v, v', hasked, hu.trans hv, he, hv'⟩

theorem Obeys.of_effect {id : JobId} {act : Act} (h : Effect w id act u) (hu : Quiet u w') :
    Obeys (some (id, act)) w w' :=
  .inr ⟨id, act, w, u, rfl, .refl w, h, hu⟩

end

section
variable {w w' : Jobs} {id : JobId}

theorem write_eq_ok_iff {job : Job} {code : Char} {content : Content} (hj : w.job? id = some job) :
    w.write id code content = .ok w' ↔
    ∃ writer, job.writer = some writer ∧ ∃ keywords,
      content.toKeywords job.defaultKeyword code = .ok keywords ∧
      match w.reply? job code keywords with
      | none => w' = w
      | some reply => ∃ state, w.writers[writer]? = some state ∧ ∃ state', state.accept = .ok state' ∧
          w' = { w with writers := w.writers.set writer state' }.enter (.wrote id writer reply) := by
  unfold write
  rw [hj]
  dsimp only
  cases hwriter : job.writer with
  | none => simp [throw_ne_ok]
  | some writer =>
    simp only [bind_eq_ok_iff, mapError_eq_ok_iff, Option.some.injEq, exists_eq_left']
    refine exists_congr fun keywords => and_congr_right fun _ => ?_
    cases w.reply? job code keywords with
    | none => exact pure_eq_ok_iff.trans eq_comm
    | some reply =>
      cases w.writers[writer]? with
      | none => simp [throw_ne_ok]
      | some state =>
        simp only [bind_eq_ok_iff, mapError_eq_ok_iff, Option.some.injEq, exists_eq_left']
        exact exists_congr fun state' => and_congr_right fun _ => pure_eq_ok_iff.trans eq_comm

theorem says_write {code : Char} {content : Content} (h : w.write id code content = .ok w') :
    Says w id code w' := by
  cases hj : w.job? id with
  | none =>
    rw [write, hj] at h
    exact pure_eq_ok_iff.mp h ▸ .nothing
  | some job =>
    obtain ⟨writer, hwriter, keywords, -, h⟩ := (write_eq_ok_iff hj).mp h
    cases hreply : w.reply? job code keywords with
    | none => rw [hreply] at h; exact h ▸ .nothing
    | some reply =>
      rw [hreply] at h
      obtain ⟨state, hstate, state', haccept, rfl⟩ := h
      exact .reply hj hwriter hreply hstate haccept

theorem says_announce {status : JobStatus} {content : Content}
    (h : w.announce id status content = .ok w') : Says w id status.code w' := by
  unfold announce at h
  split at h
  · exact says_write h
  · exact Except.ok.inj h ▸ .nothing

end

section
variable (w : Jobs) (asker : Asker) (id : JobId)

theorem obeys_changeFor {act : Act} {status : JobStatus} {content : Content}
    (hact : act.change? = some (status, content)) (afterwards : List Errand) :
    Obeys (some (id, act)) w (w.changeFor asker id status content afterwards) := by
  unfold changeFor
  split
  · next u errands hs =>
    obtain ⟨rfl, -, -⟩ | ⟨job, v, hj, hdone, hne, hv, hr⟩ := setStatus_cases hs
    · exact .inl (quiet_push u _)
    · obtain rfl : (v.record id status).1 = u := congrArg Prod.fst hr
      exact .of_effect (.change hact hj hdone hne (says_announce hv)) (quiet_push _ _)
  · exact .inl (quiet_conclude w asker _)

theorem obeys_perform (act : Act) : Obeys (some (id, act)) w (w.perform asker id act) := by
  unfold perform
  cases act with
  | set status content => exact obeys_changeFor w asker id rfl _
  | write code content =>
    dsimp only
    split
    · next u hu => exact .of_effect (.write (says_write hu)) (quiet_conclude u asker _)
    · exact .inl (quiet_conclude w asker _)
  | cancel =>
    dsimp only
    split
    · exact .inl (quiet_conclude w asker _)
    · exact obeys_changeFor w asker id rfl _
  | listen c =>
    have hadded : Quiet w (w.addCallback id c) := quiet_updateJob w id fun _ => rfl
    exact .inl (hadded.trans (quiet_conclude _ asker _))

theorem obeys_handle (r : Request) :
    Obeys (r.act.toOption.map (id, ·)) w (w.handle asker id r) := by
  unfold handle
  cases r.act with
  | ok act => exact obeys_perform w asker id act
  | error e => exact .inl (quiet_tell w asker _)

theorem obeys_complete (o : Operation) : Obeys (some (o.job, o.script.lastAct)) w (w.complete o) := by
  have hdropped : Quiet w (w.dropOperation o.id) := .of_eq rfl rfl rfl rfl
  have hlast : w.complete o = (w.dropOperation o.id).perform .nobody o.job o.script.lastAct := by
    unfold complete Script.lastAct
    cases o.script.failure <;> rfl
  rw [hlast]
  exact (obeys_perform _ .nobody o.job _).after hdropped

theorem obeys_operate (o : Operation) : Obeys o.act? w (w.operate o) := by
  have hdone : ∀ rest, Quiet w (w.updateOperation o.id fun o =>
      { o with script := { o.script with steps := rest } }) := fun rest => .of_eq rfl rfl rfl rfl
  unfold operate Operation.act?
  cases o.script.steps with
  | nil => exact obeys_complete w o
  | cons first rest =>
    cases first with
    | ask r => exact (obeys_handle _ _ o.job r).after ((hdone rest).trans (quiet_push _ _))
    | sleep milliseconds =>
      cases milliseconds with
      | zero => exact .inl ((hdone rest).trans (quiet_push _ _))
      | succ n => exact .inl ((hdone rest).trans (quiet_sleep _ o _))

theorem obeys_carryOut (e : Errand) : Obeys (Errand.act? w e) w (w.carryOut e) := by
  cases e with
  | notify i => exact .inl (quiet_notify w i)
  | call i status place callbacks =>
    cases callbacks with
    | nil => exact .inl (.refl w)
    | cons c callbacks =>
      exact .inl (((quiet_push w _).trans (quiet_enter _ rfl)).trans (quiet_callOne _ status c))
  | react reactions =>
    cases reactions with
    | nil => exact .inl (.refl w)
    | cons r rest =>
      have hpushed := quiet_push w [.react rest]
      have hnamed : (w.push [.react rest]).named? r.on = w.named? r.on := rfl
      unfold carryOut handleNamed Errand.act?
      dsimp only
      rw [hnamed]
      cases w.named? r.on with
      | none => exact .inl (hpushed.trans (quiet_tell _ _ _))
      | some i =>
        have hhandled := (obeys_handle _ (.reaction r.request.label r.on) i r.request).after hpushed
        cases hr : r.request.act <;> simpa [hr] using hhandled
  | report asker => exact .inl (quiet_conclude w asker _)
  | completeCancel i asker => exact obeys_perform w asker i _
  | attach i script asker => exact .inl ((quiet_start w i script).trans (quiet_conclude _ asker _))
  | operate i =>
    unfold carryOut
    dsimp only
    split
    · next o ho =>
      have hact : Errand.act? w (.operate i) = o.act? := by rw [Errand.act?, ho, Option.bind_some]
      exact hact ▸ obeys_operate w o
    · exact .inl (.refl w)

theorem obeys_timeOut : Obeys (some (id, .set .timedOut .empty))
    (w.updateJob id fun job => { job with timer := none }) (w.timeOut id) := by
  unfold timeOut
  split
  · next hnone =>
    -- there is nothing to disarm
    refine .inl (.of_eq ?_ rfl rfl rfl)
    refine List.ext_getElem? fun i => ?_
    have hjob := job?_updateJob i w id fun job => { job with timer := none }
    rw [job?] at hjob
    rw [hjob]
    split
    · next hi =>
      subst hi
      change w.job? id = _
      cases hj : w.job? id with
      | none => rfl
      | some job =>
        rw [hj, Option.bind_some] at hnone
        rw [Option.map_some, ← hnone]
    · rfl
  · dsimp only
    split
    · exact obeys_perform _ .nobody id _
    · exact .inl (.refl _)

/-- Whatever a deed does beyond what it prepares is quiet or asked. -/
theorem obeys_run (d : Deed) : Obeys (d.act? w) (d.prepare w) (d.run w) := by
  cases d with
  | errand =>
    unfold Deed.run Deed.act? Deed.prepare step
    cases ha : w.agenda with
    | nil => exact .inl (.refl w)
    | cons e rest =>
      have htaken : Quiet w { w with agenda := rest } := .of_eq rfl rfl rfl rfl
      exact (obeys_carryOut { w with agenda := rest } e).after htaken
  | ask i act => exact obeys_perform w .caller i act
  | spawn i script => exact obeys_changeFor w .caller i rfl _
  | add b => exact .inl (quiet_add w b)
  | due d =>
    cases d with
    | operation i =>
      have hwoken : Quiet w (w.updateOperation i fun o => { o with isAwake := true }) :=
        .of_eq rfl rfl rfl rfl
      exact .inl (hwoken.trans (quiet_push _ _))
    | timer i => exact obeys_timeOut w i
  | openStream name i => exact .inl (quiet_setStream w name _)
  | poll name =>
    obtain h | ⟨s, h⟩ := poll_cases w name
    · exact .inl (by rw [Deed.run, h]; exact .refl w)
    · exact .inl (by rw [Deed.run, h]; exact quiet_setStream w name s)
  | drain name =>
    obtain h | ⟨s, h⟩ := drain_cases w name
    · exact .inl (by rw [Deed.run, h]; exact .refl w)
    · exact .inl (by rw [Deed.run, h]; exact quiet_setStream w name s)
  | hold name i | release name | track mid i | untrack mid => exact .inl (.of_eq rfl rfl rfl rfl)
  | tick => exact .inl (.refl _)

end

/-! ## Turns -/

def face? (w : Jobs) (id : JobId) : Option Face :=
  (w.job? id).map Job.face

inductive Turn (asked : Option (JobId × Act)) (id : JobId) (f : Face) : Face → List JobStatus → Prop
  | stays : Turn asked id f f []
  | changes {act : Act} {status : JobStatus} {content : Content} : asked = some (id, act) →
      act.change? = some (status, content) → f.status.isDone = false → f.status ≠ status →
      Turn asked id f (f.change status) [status]

section
variable {asked : Option (JobId × Act)} {w w' : Jobs} {id i : JobId} {f : Face} {code : Char}

theorem face?_of_job {job : Job} (hj : w.job? id = some job) : w.face? id = some job.face := by
  rw [face?, hj, Option.map_some]

theorem face?_of_jobs (h : w'.jobs = w.jobs) : w'.face? id = w.face? id := by
  rw [face?, face?, job?, job?, h]

theorem getElem?_of_isPrefix {α : Type} {xs ys : List α} (h : xs <+: ys) {n : Nat} {x : α}
    (hx : xs[n]? = some x) : ys[n]? = some x := by
  obtain ⟨later, rfl⟩ := h
  rwa [List.getElem?_append_left (List.getElem?_eq_some_iff.mp hx).1]

theorem Quiet.face? (h : Quiet w w') (hf : w.face? id = some f) : w'.face? id = some f := by
  rw [Jobs.face?, job?, ← List.getElem?_map] at hf ⊢
  exact getElem?_of_isPrefix h.faces hf

theorem Quiet.changes (h : Quiet w w') : w'.changes id = w.changes id := by
  obtain ⟨more, hmore, hquiet⟩ := h.journal
  have hnone : more.filterMap (·.change? id) = [] := by
    refine List.filterMap_eq_nil_iff.mpr fun e he => ?_
    cases e with
    | changed | wrote => cases hquiet _ he
    | _ => rfl
  rw [Jobs.changes, hmore, List.filterMap_append, hnone, List.append_nil, Jobs.changes]

theorem Says.jobs (h : Says w i code w') : w'.jobs = w.jobs := by
  cases h <;> rfl

theorem Says.changes (h : Says w i code w') : w'.changes id = w.changes id := by
  cases h with
  | nothing => rfl
  | reply => exact (List.filterMap_append ..).trans (List.append_nil _)

theorem face?_windUp (w : Jobs) : (w.windUp i).face? id =
    if i = id then (w.face? id).map ({ · with timer := none }) else w.face? id := by
  unfold windUp
  dsimp only
  split
  all_goals
    rw [face?, job?_updateJob]
    split
    · rw [face?, Option.map_map, Option.map_map]
      rfl
    · rfl

theorem face?_record (w : Jobs) (status : JobStatus) : (w.record i status).1.face? id =
    if i = id then (w.face? id).map (·.change status) else w.face? id := by
  have hrecorded : (w.recorded i status).face? id =
      if i = id then (w.face? id).map ({ · with status }) else w.face? id := by
    rw [face?, recorded, job?]
    change ((w.updateJob i _).job? id).map Job.face = _
    rw [job?_updateJob]
    split
    · rw [face?, Option.map_map, Option.map_map]
      rfl
    · rfl
  rw [record_fst]
  cases hdone : status.isDone with
  | true =>
    rw [if_pos rfl, face?_windUp, hrecorded]
    split
    · rw [Option.map_map]
      simp only [Face.change, hdone, if_true]
      rfl
    · rfl
  | false =>
    rw [if_neg Bool.false_ne_true, hrecorded]
    simp only [Face.change, hdone, Bool.false_eq_true, if_false]

theorem journal_windUp (w : Jobs) : (w.windUp i).journal = w.journal := by
  unfold windUp
  dsimp only
  split <;> rfl

theorem journal_record (w : Jobs) (status : JobStatus) :
    (w.record i status).1.journal = w.journal ++ [.changed i status] := by
  rw [record_fst]
  split
  · rw [journal_windUp]
    rfl
  · rfl

theorem changes_record (w : Jobs) (status : JobStatus) : (w.record i status).1.changes id =
    w.changes id ++ if i = id then [status] else [] := by
  rw [changes, journal_record, List.filterMap_append]
  by_cases hi : i = id <;> simp [JournalEntry.change?, changes, hi]

theorem Effect.turn {act : Act} (h : Effect w i act w') (hf : w.face? id = some f) :
    ∃ f' changes, w'.face? id = some f' ∧ w'.changes id = w.changes id ++ changes ∧
      Turn (some (i, act)) id f f' changes := by
  cases h with
  | write h => exact ⟨f, [], (face?_of_jobs h.jobs).trans hf, by rw [h.changes, List.append_nil], .stays⟩
  | @change _ status content job v hact hj hdone hne hv =>
    have hface : v.face? id = some f := (face?_of_jobs hv.jobs).trans hf
    rw [face?_record, hface, changes_record, hv.changes]
    by_cases hi : i = id
    · subst hi
      obtain rfl : job.face = f := Option.some.inj ((face?_of_job hj).symm.trans hf)
      rw [if_pos rfl, if_pos rfl]
      exact ⟨_, [status], rfl, rfl, .changes rfl hact hdone hne⟩
    · rw [if_neg hi, if_neg hi]
      exact ⟨f, [], rfl, rfl, .stays⟩

theorem Obeys.turn (h : Obeys asked w w') (hf : w.face? id = some f) :
    ∃ f' changes, w'.face? id = some f' ∧ w'.changes id = w.changes id ++ changes ∧
      Turn asked id f f' changes := by
  obtain h | ⟨i, act, u, u', rfl, hu, he, hw⟩ := h
  · exact ⟨f, [], h.face? hf, by rw [h.changes, List.append_nil], .stays⟩
  · obtain ⟨f', changes, hf', hchanges, hturn⟩ := he.turn (hu.face? hf)
    exact ⟨f', changes, hw.face? hf', by rw [hw.changes, hchanges, hu.changes], hturn⟩

theorem face?_prepare (d : Deed) (hf : w.face? id = some f) :
    (d.prepare w).face? id = some (if d.isTimer id then { f with timer := none } else f) := by
  cases d with
  | due d =>
    cases d with
    | operation => exact hf
    | timer i =>
      rw [Deed.prepare, face?, job?_updateJob]
      by_cases hi : i = id
      · simp only [hi, if_true, Deed.isTimer, beq_self_eq_true]
        rw [face?] at hf
        obtain ⟨job, hj, rfl⟩ := Option.map_eq_some_iff.mp hf
        rw [hj]
        rfl
      · simp only [hi, if_false, Deed.isTimer, beq_iff_eq]
        exact hf
  | _ => exact hf

theorem journal_prepare (w : Jobs) (d : Deed) : (d.prepare w).journal = w.journal := by
  cases d with
  | due d => cases d <;> rfl
  | _ => rfl

theorem face?_add (w : Jobs) (b : Blueprint) : (w.add b).face? w.jobs.length =
    some ⟨b.order, (w.writerFor b).2, .ready, b.timeout.map (w.now + ·)⟩ := by
  have hjobs := jobs_writerFor w b
  have hnow : (w.writerFor b).1.now = w.now := by
    unfold writerFor
    split <;> rfl
  unfold add
  generalize w.writerFor b = fresh at hjobs hnow ⊢
  obtain ⟨u, writer⟩ := fresh
  dsimp only at hjobs hnow ⊢
  rw [← hjobs, hnow]
  split
  all_goals
    rw [face?, job?]
    dsimp only [push]
    rw [List.getElem?_concat_length]
    rfl

theorem journal_add (w : Jobs) (b : Blueprint) : (w.add b).journal = w.journal := by
  have hwriter : (w.writerFor b).1.journal = w.journal := by
    unfold writerFor
    split <;> rfl
  unfold add
  dsimp only
  split
  · exact hwriter
  · exact hwriter

theorem turn_run (d : Deed) (hf : w.face? id = some f) :
    ∃ f' changes, (d.run w).face? id = some f' ∧ (d.run w).changes id = w.changes id ++ changes ∧
      Turn (d.act? w) id (if d.isTimer id then { f with timer := none } else f) f' changes := by
  obtain ⟨f', changes, hf', hchanges, hturn⟩ := (obeys_run w d).turn (face?_prepare d hf)
  refine ⟨f', changes, hf', ?_, hturn⟩
  rw [hchanges, Jobs.changes, journal_prepare, ← Jobs.changes]

end

end Jobs

end ActorHub
