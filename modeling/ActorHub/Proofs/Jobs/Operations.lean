import ActorHub.Proofs.Jobs.Schedule
import ActorHub.Proofs.Jobs.Transition
import Mathlib.Data.List.Nodup

/-!
# Operations

Which operations are left, and which are told to stop. A job has one place for an operation that ends with
it, and each new operation takes that place. So when the job is done, the operation that was attached last
is told to stop, and an earlier one that has not come to its end goes on (`operation_goes_on_iff`).
-/

namespace ActorHub.Jobs

/-! ## What deeds attach and end -/

def Deed.attached? (w : Jobs) : Deed → Option (JobId × OperationId)
  | errand =>
    match w.agenda with
    | .attach id _ _ :: _ => if w.isDone id then none else some (id, w.started)
    | _ => none
  | _ => none

def Deed.ended? (w : Jobs) : Deed → Option OperationId
  | errand =>
    match w.agenda with
    | .operate k :: _ => (w.operation? k).bind fun o => if o.script.steps.isEmpty then some k else none
    | _ => none
  | _ => none

def gather {α : Type} (f : Jobs → Deed → Option α) : Jobs → List Deed → List α
  | _, [] => []
  | w, d :: ds => (f w d).toList ++ gather f (d.run w) ds

def attachedTo (id : JobId) (log : List (JobId × OperationId)) : List OperationId :=
  (log.filter (·.1 == id)).map (·.2)

def Deed.Placed (w : Jobs) : Deed → Prop
  | spawn id _ => (w.job? id).isSome = true
  | _ => True

section
variable {log : List (JobId × OperationId)} {id i : JobId} {k : OperationId}

theorem mem_attachedTo : k ∈ attachedTo id log ↔ (id, k) ∈ log := by
  simp [attachedTo]

theorem mem_log_of_last (h : (attachedTo id log).getLast? = some k) : (id, k) ∈ log :=
  mem_attachedTo.mp (List.mem_of_getLast? h)

theorem attachedTo_concat : attachedTo i (log ++ [(id, k)]) =
    if id = i then attachedTo i log ++ [k] else attachedTo i log := by
  by_cases hi : id = i <;> simp [attachedTo, hi]

end

/-! ## The place for an operation -/

/-- Whether a job is done, and the operation in its place. -/
def post? (w : Jobs) (i : JobId) : Option (Bool × Option OperationId) :=
  (w.job? i).map fun job => (job.status.isDone, job.operation)

def Errand.Placed (w : Jobs) : Errand → Prop
  | .attach id _ _ => (w.job? id).isSome = true
  | _ => True

section
variable {w w' : Jobs} {i : JobId} {job : Job}

theorem post?_of_job (hj : w.job? i = some job) : w.post? i = some (job.status.isDone, job.operation) := by
  rw [post?, hj, Option.map_some]

theorem isDone_eq_post (w : Jobs) (i : JobId) : w.isDone i = (w.post? i).any (·.1) := by
  rw [isDone, post?]
  cases w.job? i <;> rfl

theorem isSome_post (w : Jobs) (i : JobId) : (w.post? i).isSome = (w.job? i).isSome :=
  Option.isSome_map ..

theorem Commits.post? {id : JobId} {status : JobStatus} {content : Content}
    (h : Commits w id job status content w') (hj : w.job? id = some job) (i : JobId) :
    w'.post? i = if i = id then some (status.isDone, if status.isDone then none else job.operation)
      else w.post? i := by
  split
  · next hi =>
    subst hi
    exact post?_of_job (h.job? hj)
  · next hi =>
    rw [Jobs.post?, Jobs.job?, h.jobs, List.getElem?_set_ne (Ne.symm hi)]
    rfl

theorem Commits.isSome {id : JobId} {status : JobStatus} {content : Content}
    (h : Commits w id job status content w') (hj : w.job? id = some job) (i : JobId) :
    (w'.job? i).isSome = (w.job? i).isSome := by
  rw [← isSome_post, h.post? hj, ← isSome_post]
  split
  · next hi => rw [hi, post?_of_job hj]; rfl
  · rfl

theorem post?_of_jobs (h : w'.jobs = w.jobs) (i : JobId) : w'.post? i = w.post? i := by
  rw [post?, job?, h]
  rfl

end

/-! ## Edits that leave operations alone -/

/-- The place of each job is as before, or the job is new. -/
def Extends (w w' : Jobs) : Prop :=
  ∀ i, w'.post? i = w.post? i ∨ w.post? i = none ∧ w'.post? i = some (false, none)

/-- All operations and their places are as before, and what was to be done still is. -/
structure Aside (w w' : Jobs) : Prop where
  operations : w'.operations = w.operations
  started : w'.started = w.started
  posts : Extends w w'
  agenda : ∃ more, w'.agenda = more ++ w.agenda ∧ ∀ e ∈ more, Errand.Placed w' e

section
variable {w w' w'' : Jobs}

theorem Errand.Placed.mono {e : Errand} (h : Errand.Placed w e)
    (hjobs : ∀ i, (w.job? i).isSome = true → (w'.job? i).isSome = true) : Errand.Placed w' e := by
  cases e with
  | attach id script asker => exact hjobs id h
  | _ => trivial

theorem Extends.isSome (h : Extends w w') (i : JobId) (hjob : (w.job? i).isSome = true) :
    (w'.job? i).isSome = true := by
  rw [← isSome_post] at hjob ⊢
  obtain hi | ⟨hi, -⟩ := h i
  · rw [hi]
    exact hjob
  · rw [hi] at hjob
    cases hjob

theorem Extends.isDone (h : Extends w w') (i : JobId) : w'.isDone i = w.isDone i := by
  rw [isDone_eq_post, isDone_eq_post]
  obtain hi | ⟨hi, hi'⟩ := h i
  · rw [hi]
  · rw [hi, hi']
    rfl

theorem Extends.trans (h : Extends w w') (h' : Extends w' w'') : Extends w w'' := by
  intro i
  obtain hi' | ⟨hi', hnew⟩ := h' i
  · rw [hi']
    exact h i
  · refine .inr ⟨?_, hnew⟩
    obtain hi | ⟨-, hi⟩ := h i
    · rw [← hi, hi']
    · rw [hi'] at hi
      cases hi

theorem Aside.of_eq (hoperations : w'.operations = w.operations) (hstarted : w'.started = w.started)
    (hjobs : w'.jobs = w.jobs) (hagenda : w'.agenda = w.agenda) : Aside w w' where
  operations := hoperations
  started := hstarted
  posts i := .inl (post?_of_jobs hjobs i)
  agenda := ⟨[], hagenda, nofun⟩

theorem Aside.refl (w : Jobs) : Aside w w :=
  .of_eq rfl rfl rfl rfl

theorem Aside.trans (h : Aside w w') (h' : Aside w' w'') : Aside w w'' where
  operations := h'.operations.trans h.operations
  started := h'.started.trans h.started
  posts := h.posts.trans h'.posts
  agenda := by
    obtain ⟨more, hmore, hplaced⟩ := h.agenda
    obtain ⟨more', hmore', hplaced'⟩ := h'.agenda
    refine ⟨more' ++ more, by rw [hmore', hmore, List.append_assoc], fun e he => ?_⟩
    exact (List.mem_append.mp he).elim (hplaced' e) fun he => (hplaced e he).mono h'.posts.isSome

end

section
variable (w : Jobs)

theorem aside_push {errands : List Errand} (h : ∀ e ∈ errands, Errand.Placed w e) :
    Aside w (w.push errands) where
  operations := rfl
  started := rfl
  posts _ := .inl rfl
  agenda := ⟨errands, rfl, h⟩

theorem aside_enter (e : JournalEntry) : Aside w (w.enter e) :=
  .of_eq rfl rfl rfl rfl

theorem aside_updateJob (i : JobId) {f : Job → Job}
    (hf : ∀ job, (f job).status = job.status ∧ (f job).operation = job.operation) :
    Aside w (w.updateJob i f) where
  operations := rfl
  started := rfl
  posts k := by
    refine .inl ?_
    rw [post?, post?, job?_updateJob]
    split
    · cases w.job? k with
      | none => rfl
      | some job => simp [hf]
    · rfl
  agenda := ⟨[], rfl, nofun⟩

theorem aside_tell (asker : Asker) (outcome : Outcome) : Aside w (w.tell asker outcome) := by
  cases asker with
  | caller | nobody => exact .refl w
  | reaction label on | operation label => exact aside_enter w _

theorem aside_conclude (asker : Asker) (result : Except JobError Unit) :
    Aside w (w.conclude asker result) := by
  cases asker with
  | caller => exact .of_eq rfl rfl rfl rfl
  | reaction label on => exact aside_tell w (.reaction label on) _
  | operation label => exact aside_tell w (.operation label) _
  | nobody => exact .refl w

theorem aside_notify (i : JobId) : Aside w (w.notify i) := by
  unfold notify
  split
  · exact .refl w
  · split
    · exact aside_updateJob w i fun _ => ⟨rfl, rfl⟩
    · refine (aside_updateJob w i ?_).trans (aside_push _ ?_)
      · exact fun _ => ⟨rfl, rfl⟩
      · simp [Errand.Placed]

theorem aside_callOne (status : JobStatus) (c : Callback) : Aside w (w.callOne status c) := by
  unfold callOne
  split
  · exact aside_push w (by simp [Errand.Placed])
  · split
    · unfold untrackDone
      split
      · split
        · exact .of_eq rfl rfl rfl rfl
        · exact .refl w
      · exact .refl w
    · exact .refl w

theorem aside_setStream (name : String) (s : StatusStream) : Aside w (w.setStream name s) :=
  .of_eq rfl rfl rfl rfl

theorem aside_add (b : Blueprint) : Aside w (w.add b) := by
  have hjobs := jobs_writerFor w b
  have hwriter : (w.writerFor b).1.operations = w.operations ∧ (w.writerFor b).1.started = w.started ∧
      (w.writerFor b).1.agenda = w.agenda := by
    unfold writerFor
    split <;> exact ⟨rfl, rfl, rfl⟩
  have hnew (u : Jobs) {job : Job} (hjob : job.status = .ready ∧ job.operation = none)
      (hu : u.jobs = w.jobs ++ [job]) : Extends w u := by
    intro i
    rw [post?, job?, hu, getElem?_concat]
    split
    · next hi =>
      refine .inr ⟨by simp [hi, post?, job?], ?_⟩
      rw [Option.map_some, hjob.1, hjob.2]
      rfl
    · exact .inl rfl
  obtain ⟨hoperations, hstarted, hagenda⟩ := hwriter
  unfold add
  dsimp only
  split
  · refine ⟨hoperations, hstarted, hnew _ ⟨rfl, rfl⟩ (congrArg (· ++ _) hjobs),
      [.notify w.jobs.length], ?_, ?_⟩
    · exact congrArg (_ :: ·) hagenda
    · simp [Errand.Placed]
  · exact ⟨hoperations, hstarted, hnew _ ⟨rfl, rfl⟩ (congrArg (· ++ _) hjobs), [], hagenda,
      List.forall_mem_nil _⟩

end

theorem aside_of_write {w w' : Jobs} {id : JobId} {code : Char} {content : Content}
    (h : w.write id code content = .ok w') : Aside w w' := by
  cases says_write h with
  | nothing => exact .refl w
  | reply => exact .of_eq rfl rfl rfl rfl

/-! ## Requests -/

/-- A request leaves operations alone, or else a status is changed. -/
inductive Acts (w w' : Jobs) : Prop
  | aside : Aside w w' → Acts w w'
  | change {v u : Jobs} {id : JobId} {job : Job} {status : JobStatus} {content : Content} : Aside w v →
      v.job? id = some job → job.status.isDone = false → Commits v id job status content u →
      u.agenda = v.agenda → Aside u w' → Acts w w'

theorem Acts.after {u w w' : Jobs} (h : Acts u w') (hu : Aside w u) : Acts w w' := by
  cases h with
  | aside h => exact .aside (hu.trans h)
  | change h hj hrunning hc hagenda h' => exact .change (hu.trans h) hj hrunning hc hagenda h'

section
variable (w : Jobs) (asker : Asker) (id : JobId)

theorem acts_changeFor (status : JobStatus) (content : Content) {afterwards : List Errand}
    (h : ∀ e ∈ afterwards, Errand.Placed w e) :
    Acts w (w.changeFor asker id status content afterwards) := by
  unfold changeFor
  split
  · next u errands hs =>
    cases hj : w.job? id with
    | none =>
      rw [setStatus, hj] at hs
      cases hs
      exact .aside (aside_push w h)
    | some job =>
      obtain ⟨hdone, ⟨-, rfl, rfl⟩ | ⟨-, hcommits, hagenda, herrands⟩⟩ := setStatus_of_ok hj hs
      · exact .aside (aside_push u h)
      · refine .change (.refl w) hj hdone hcommits hagenda
          (aside_push u (List.forall_mem_append.mpr ⟨?_, ?_⟩))
        · rw [herrands]
          split <;> simp [Errand.Placed]
        · exact fun e he => (h e he).mono fun i hi => (hcommits.isSome hj i).trans hi
  · exact .aside (aside_conclude w asker _)

theorem acts_perform (act : Act) : Acts w (w.perform asker id act) := by
  unfold perform
  cases act with
  | set status content => exact acts_changeFor w asker id status content (by simp [Errand.Placed])
  | write code content =>
    dsimp only
    split
    · next u hu => exact .aside ((aside_of_write hu).trans (aside_conclude u asker _))
    · exact .aside (aside_conclude w asker _)
  | cancel =>
    dsimp only
    split
    · exact .aside (aside_conclude w asker _)
    · exact acts_changeFor w asker id _ _ (by simp [Errand.Placed])
  | listen c =>
    have hadded : Aside w (w.addCallback id c) := aside_updateJob w id fun _ => ⟨rfl, rfl⟩
    exact .aside (hadded.trans (aside_conclude _ asker _))

theorem acts_handle (r : Request) : Acts w (w.handle asker id r) := by
  unfold handle
  split
  · exact acts_perform w asker id _
  · exact .aside (aside_tell w asker _)

theorem acts_handleNamed (name : String) (r : Request) : Acts w (w.handleNamed asker name r) := by
  unfold handleNamed
  split
  · exact acts_handle w asker _ r
  · exact .aside (aside_tell w asker _)

end

/-! ## Operations and what is noted of them -/

def Stopped (log : List (JobId × OperationId)) (w : Jobs) (id : JobId) (k : OperationId) : Prop :=
  w.isDone id = true ∧ (attachedTo id log).getLast? = some k

/-- The operations that are there are those that were attached and are not over, and the ones that were
told to stop are the last of jobs that are done. -/
structure Accounts (log : List (JobId × OperationId)) (ended : List OperationId) (w : Jobs) : Prop where
  distinct : (log.map (·.2)).Nodup
  below : ∀ p ∈ log, p.2 < w.started
  jobs : ∀ p ∈ log, (w.job? p.1).isSome = true
  origin : ∀ o ∈ w.operations, (o.job, o.id) ∈ log
  finished : ∀ k ∈ ended, k < w.started ∧ ∀ o ∈ w.operations, o.id ≠ k
  kept : ∀ i k, (i, k) ∈ log → k ∉ ended → ¬ Stopped log w i k → ∃ o ∈ w.operations, o.id = k
  aborted : ∀ o ∈ w.operations, o.isAborted = true ↔ Stopped log w o.job o.id
  place : ∀ i done k?, w.post? i = some (done, k?) →
    k? = if done then none else (attachedTo i log).getLast?

/-- Only an operation in the middle of its steps can have been told to stop, and its next step is on the
agenda, unless it is being done right now. -/
structure Poised (busy : Option OperationId) (w : Jobs) : Prop where
  awake : ∀ o ∈ w.operations, o.isAborted = true → o.isAwake = true
  operate : ∀ o ∈ w.operations, o.isAwake = true → busy = some o.id ∨ .operate o.id ∈ w.agenda
  placed : ∀ e ∈ w.agenda, Errand.Placed w e

section
variable {log : List (JobId × OperationId)} {ended : List OperationId} {busy : Option OperationId}
variable {w w' : Jobs} {id : JobId} {job : Job} {status : JobStatus} {content : Content} {o : Operation}
variable {k : OperationId}

theorem Accounts.unique (h : Accounts log ended w) {i j : JobId} (hi : (i, k) ∈ log) (hj : (j, k) ∈ log) :
    i = j :=
  congrArg Prod.fst (List.inj_on_of_nodup_map h.distinct hi hj rfl)

theorem Accounts.isAborted_eq (h : Accounts log ended w) {o' : Operation} (ho : o ∈ w.operations)
    (ho' : o' ∈ w.operations) (hid : o'.id = o.id) : o'.isAborted = o.isAborted := by
  have horigin := h.origin o' ho'
  rw [hid] at horigin
  rw [Bool.eq_iff_iff, h.aborted o ho, h.aborted o' ho', hid, h.unique horigin (h.origin o ho)]

theorem Accounts.extends (h : Accounts log ended w) (hoperations : w'.operations = w.operations)
    (hstarted : w'.started = w.started) (hposts : Extends w w') : Accounts log ended w' := by
  refine ⟨h.distinct, hstarted ▸ h.below, fun p hp => hposts.isSome p.1 (h.jobs p hp),
    hoperations ▸ h.origin, ?_, fun i k hlog hfinished hstop => ?_, fun o ho => ?_, fun i done k? hi => ?_⟩
  · rw [hoperations, hstarted]
    exact h.finished
  · rw [Stopped, hposts.isDone] at hstop
    rw [hoperations]
    exact h.kept i k hlog hfinished hstop
  · rw [Stopped, hposts.isDone]
    exact h.aborted o (hoperations ▸ ho)
  · obtain hsame | ⟨hnone, hnew⟩ := hposts i
    · exact h.place i done k? (hsame ▸ hi)
    · -- nothing was attached to the job before it existed
      cases hnew.symm.trans hi
      refine (Option.eq_none_iff_forall_ne_some.mpr fun k hk => ?_).symm
      have hjob := h.jobs _ (mem_log_of_last hk)
      rw [← isSome_post, hnone] at hjob
      cases hjob

theorem Accounts.aside (h : Accounts log ended w) (ha : Aside w w') : Accounts log ended w' :=
  h.extends ha.operations ha.started ha.posts

theorem Poised.aside (h : Poised busy w) (ha : Aside w w') : Poised busy w' := by
  obtain ⟨more, hmore, hplaced⟩ := ha.agenda
  refine ⟨?_, fun o ho hawake => ?_, fun e he => ?_⟩
  · rw [ha.operations]
    exact h.awake
  · rw [ha.operations] at ho
    rw [hmore]
    exact (h.operate o ho hawake).imp id (List.mem_append_right _)
  · rw [hmore, List.mem_append] at he
    exact he.elim (hplaced e) fun he => (h.placed e he).mono ha.posts.isSome

/-! ### Changes of a status -/

theorem mem_abort {o : Operation} : o ∈ (w.abort k).operations ↔ (o ∈ w.operations ∧ o.id ≠ k) ∨
    ∃ o' ∈ w.operations, o'.id = k ∧ o'.isAwake = true ∧ o = { o' with isAborted := true } := by
  rw [abort]
  simp only [List.mem_filterMap]
  constructor
  · intro h
    obtain ⟨o', ho', h⟩ := h
    split at h
    · next hk =>
      split at h
      · next hawake => exact .inr ⟨o', ho', hk, hawake, (Option.some.inj h).symm⟩
      · cases h
    · next hk =>
      obtain rfl := Option.some.inj h
      exact .inl ⟨ho', hk⟩
  · rintro (⟨ho, hk⟩ | ⟨o', ho', hk, hawake, rfl⟩)
    · exact ⟨o, ho, if_neg hk⟩
    · exact ⟨o', ho', by rw [if_pos hk, if_pos hawake]⟩

theorem Commits.mem_operations (h : Commits w id job status content w') (hdone : status.isDone = true) :
    o ∈ w'.operations ↔ (o ∈ w.operations ∧ job.operation ≠ some o.id) ∨
      ∃ o' ∈ w.operations, job.operation = some o'.id ∧ o'.isAwake = true ∧
        o = { o' with isAborted := true } := by
  rw [h.operations, if_pos hdone]
  cases job.operation with
  | none => simp
  | some k =>
    dsimp only
    rw [mem_abort]
    simp only [ne_eq, Option.some.injEq, eq_comm]

theorem Accounts.place_eq (h : Accounts log ended w) (hj : w.job? id = some job)
    (hrunning : job.status.isDone = false) : job.operation = (attachedTo id log).getLast? := by
  have hplace := h.place id _ _ (post?_of_job hj)
  rwa [hrunning] at hplace

theorem Commits.isDone_iff (hc : Commits w id job status content w') (hj : w.job? id = some job)
    (hdone : status.isDone = true) (i : JobId) : w'.isDone i = true ↔ i = id ∨ w.isDone i = true := by
  rw [isDone_eq_post, hc.post? hj, isDone_eq_post]
  by_cases hi : i = id <;> simp [hi, hdone]

theorem Commits.extends (hc : Commits w id job status content w') (hj : w.job? id = some job)
    (hrunning : job.status.isDone = false) (hdone : status.isDone = false) : Extends w w' := by
  intro i
  left
  rw [hc.post? hj]
  split
  · next hi => rw [hi, post?_of_job hj, hdone, hrunning]; rfl
  · rfl

theorem Accounts.finish (h : Accounts log ended w) (hj : w.job? id = some job)
    (hrunning : job.status.isDone = false) (hdone : status.isDone = true)
    (hc : Commits w id job status content w') : Accounts log ended w' := by
  have hstarted : w'.started = w.started := by rw [hc.others]
  have hplace := h.place_eq hj hrunning
  have hmem {o : Operation} := hc.mem_operations (o := o) hdone
  refine ⟨h.distinct, hstarted ▸ h.below, fun p hp => ?_, fun o ho => ?_, fun k hk => ?_,
    fun i k hlog hfinished hstop => ?_, fun o ho => ?_, fun i done k? hi => ?_⟩
  · rw [hc.isSome hj]
    exact h.jobs p hp
  · obtain ⟨ho, -⟩ | ⟨o', ho', -, -, rfl⟩ := hmem.mp ho
    · exact h.origin o ho
    · exact h.origin o' ho'
  · obtain ⟨hlt, hfinished⟩ := h.finished k hk
    refine ⟨hstarted ▸ hlt, fun o ho => ?_⟩
    obtain ⟨ho, -⟩ | ⟨o', ho', -, -, rfl⟩ := hmem.mp ho
    · exact hfinished o ho
    · exact hfinished o' ho'
  · rw [Stopped, hc.isDone_iff hj hdone] at hstop
    obtain ⟨o, ho, rfl⟩ := h.kept i k hlog hfinished fun hs => hstop ⟨.inr hs.1, hs.2⟩
    refine ⟨o, hmem.mpr (.inl ⟨ho, fun hlast => ?_⟩), rfl⟩
    rw [hplace] at hlast
    obtain rfl := h.unique hlog (mem_log_of_last hlast)
    exact hstop ⟨.inl rfl, hlast⟩
  · rw [Stopped, hc.isDone_iff hj hdone]
    obtain ⟨ho, hne⟩ | ⟨o', ho', hlast, -, rfl⟩ := hmem.mp ho
    · rw [h.aborted o ho, Stopped]
      refine and_congr_left fun hlast => (or_iff_right fun hi => ?_).symm
      rw [hplace, ← hi] at hne
      exact hne hlast
    · rw [hplace] at hlast
      obtain hi : o'.job = id := h.unique (h.origin o' ho') (mem_log_of_last hlast)
      exact iff_of_true rfl ⟨.inl hi, hi ▸ hlast⟩
  · rw [hc.post? hj] at hi
    split at hi
    · cases hi
      rw [hdone]
      rfl
    · exact h.place i done k? hi

theorem Accounts.commits (h : Accounts log ended w) (hj : w.job? id = some job)
    (hrunning : job.status.isDone = false) (hc : Commits w id job status content w') :
    Accounts log ended w' := by
  cases hdone : status.isDone with
  | false =>
    have hoperations : w'.operations = w.operations := by rw [hc.operations, hdone]; rfl
    have hstarted : w'.started = w.started := by rw [hc.others]
    exact h.extends hoperations hstarted (hc.extends hj hrunning hdone)
  | true => exact h.finish hj hrunning hdone hc

theorem Poised.commits (h : Poised busy w) (hj : w.job? id = some job)
    (hc : Commits w id job status content w') (hagenda : w'.agenda = w.agenda) : Poised busy w' := by
  have hplaced : ∀ e ∈ w'.agenda, Errand.Placed w' e := fun e he =>
    (h.placed e (hagenda ▸ he)).mono fun i hi => (hc.isSome hj i).trans hi
  cases hdone : status.isDone with
  | false =>
    have hsame : w'.operations = w.operations := by rw [hc.operations, hdone]; rfl
    exact ⟨hsame ▸ h.awake, by rw [hsame, hagenda]; exact h.operate, hplaced⟩
  | true =>
    refine ⟨fun o ho hstop => ?_, fun o ho hawake => ?_, hplaced⟩
    · obtain ⟨ho, -⟩ | ⟨o', -, -, hawake, rfl⟩ := (hc.mem_operations hdone).mp ho
      · exact h.awake o ho hstop
      · exact hawake
    · rw [hagenda]
      obtain ⟨ho, -⟩ | ⟨o', ho', -, hawake', rfl⟩ := (hc.mem_operations hdone).mp ho
      · exact h.operate o ho hawake
      · exact h.operate o' ho' hawake'

theorem Accounts.acts (h : Accounts log ended w) (ha : Acts w w') : Accounts log ended w' := by
  cases ha with
  | aside ha => exact h.aside ha
  | change ha hj hrunning hc _ ha' => exact ((h.aside ha).commits hj hrunning hc).aside ha'

theorem Poised.acts (h : Poised busy w) (ha : Acts w w') : Poised busy w' := by
  cases ha with
  | aside ha => exact h.aside ha
  | change ha hj _ hc hagenda ha' => exact ((h.aside ha).commits hj hc hagenda).aside ha'

/-! ### Starting, going on and coming to an end -/

theorem post?_start (hnot : w.isDone id = false) (script : Script) (i : JobId) :
    (w.start id script).post? i =
      if id = i then (w.post? i).map fun p => (p.1, some w.started) else w.post? i := by
  unfold Jobs.start
  rw [hnot, if_neg Bool.false_ne_true, Jobs.post?, job?_updateJob]
  split
  · rw [Jobs.post?, Option.map_map, Option.map_map]
    rfl
  · rfl

theorem isSome_start (script : Script) (i : JobId) :
    ((w.start id script).job? i).isSome = (w.job? i).isSome := by
  cases hdone : w.isDone id with
  | true => rw [Jobs.start, hdone, if_pos rfl]
  | false =>
    rw [← isSome_post, post?_start hdone, ← isSome_post]
    split
    · exact Option.isSome_map ..
    · rfl

theorem isDone_start (script : Script) (i : JobId) : (w.start id script).isDone i = w.isDone i := by
  cases hdone : w.isDone id with
  | true => rw [Jobs.start, hdone, if_pos rfl]
  | false =>
    rw [isDone_eq_post, post?_start hdone, isDone_eq_post]
    split
    · cases w.post? i <;> rfl
    · rfl

theorem operations_start (hnot : w.isDone id = false) (script : Script) :
    (w.start id script).operations =
      w.operations ++ [⟨w.started, id, script, w.now, false, false⟩] := by
  rw [Jobs.start, hnot, if_neg Bool.false_ne_true]
  rfl

theorem started_start (hnot : w.isDone id = false) (script : Script) :
    (w.start id script).started = w.started + 1 := by
  rw [Jobs.start, hnot, if_neg Bool.false_ne_true]
  rfl

theorem stopped_start (hnot : w.isDone id = false) (script : Script) (i : JobId) (k : OperationId) :
    Stopped (log ++ [(id, w.started)]) (w.start id script) i k ↔ Stopped log w i k := by
  rw [Stopped, Stopped, isDone_start, attachedTo_concat]
  by_cases hi : id = i
  · subst hi
    simp [hnot]
  · rw [if_neg hi]

theorem Accounts.place_start (h : Accounts log ended w) (hnot : w.isDone id = false)
    (script : Script) {i : JobId} {done : Bool} {k? : Option OperationId}
    (hi : (w.start id script).post? i = some (done, k?)) :
    k? = if done then none else (attachedTo i (log ++ [(id, w.started)])).getLast? := by
  rw [post?_start hnot] at hi
  rw [attachedTo_concat]
  split at hi
  · next hid =>
    subst hid
    obtain ⟨p, hp, he⟩ := Option.map_eq_some_iff.mp hi
    obtain ⟨rfl, rfl⟩ := Prod.mk.inj he
    rw [isDone_eq_post, hp, Option.any_some] at hnot
    simp [hnot]
  · next hid =>
    rw [if_neg hid]
    exact h.place i done k? hi

theorem Accounts.start (h : Accounts log ended w) (hjob : (w.job? id).isSome = true)
    (hnot : w.isDone id = false) (script : Script) :
    Accounts (log ++ [(id, w.started)]) ended (w.start id script) := by
  have hoperations := operations_start hnot script
  have hstarted := started_start hnot script
  refine ⟨?_, ?_, ?_, ?_, ?_, fun i k hlog hfinished hstop => ?_, fun o ho => ?_,
    fun i done k? => h.place_start hnot script⟩
  · rw [List.map_append, List.nodup_append]
    refine ⟨h.distinct, by simp, ?_⟩
    simp only [List.mem_map, List.map_cons, List.map_nil, List.mem_singleton]
    rintro k ⟨p, hp, rfl⟩ _ rfl
    exact Nat.ne_of_lt (h.below p hp)
  · rw [hstarted]
    refine List.forall_mem_append.mpr ⟨fun p hp => Nat.lt_succ_of_lt (h.below p hp), ?_⟩
    simp
  · refine List.forall_mem_append.mpr ⟨fun p hp => (isSome_start script p.1).trans (h.jobs p hp), ?_⟩
    simpa using (isSome_start script id).trans hjob
  · rw [hoperations]
    refine List.forall_mem_append.mpr ⟨fun o ho => List.mem_append_left _ (h.origin o ho), ?_⟩
    simp
  · intro k hk
    obtain ⟨hlt, hfinished⟩ := h.finished k hk
    rw [hstarted, hoperations]
    refine ⟨Nat.lt_succ_of_lt hlt, List.forall_mem_append.mpr ⟨hfinished, ?_⟩⟩
    simpa using (Nat.ne_of_lt hlt).symm
  · rw [stopped_start hnot] at hstop
    rw [hoperations]
    obtain hlog | hnew := List.mem_append.mp hlog
    · obtain ⟨o, ho, hk⟩ := h.kept i k hlog hfinished hstop
      exact ⟨o, List.mem_append_left _ ho, hk⟩
    · cases List.mem_singleton.mp hnew
      exact ⟨_, List.mem_append_right _ (List.mem_singleton_self _), rfl⟩
  · rw [stopped_start hnot]
    rw [hoperations] at ho
    obtain ho | hnew := List.mem_append.mp ho
    · exact h.aborted o ho
    · obtain rfl := List.mem_singleton.mp hnew
      simp [Stopped, hnot]

theorem Poised.start (h : Poised busy w) (script : Script) : Poised busy (w.start id script) := by
  have hplaced : ∀ e ∈ (w.start id script).agenda, Errand.Placed (w.start id script) e := by
    have hagenda : (w.start id script).agenda = w.agenda := by
      unfold Jobs.start
      split <;> rfl
    exact fun e he => (h.placed e (hagenda ▸ he)).mono fun i hi => (isSome_start script i).trans hi
  unfold Jobs.start at hplaced ⊢
  split
  · exact h
  · next hnot =>
    rw [if_neg hnot] at hplaced
    exact ⟨List.forall_mem_append.mpr ⟨h.awake, by simp⟩,
      List.forall_mem_append.mpr ⟨h.operate, by simp⟩, hplaced⟩

theorem mem_dropOperation : o ∈ (w.dropOperation k).operations ↔ o ∈ w.operations ∧ o.id ≠ k := by
  simp [dropOperation]

theorem Accounts.drop (h : Accounts log ended w) (ho : o ∈ w.operations) (more : List OperationId)
    (hmore : ∀ k ∈ more, k = o.id) (hleft : o.id ∈ more ∨ o.isAborted = true) :
    Accounts log (ended ++ more) (w.dropOperation o.id) := by
  have hmem {o' : Operation} := mem_dropOperation (w := w) (k := o.id) (o := o')
  refine ⟨h.distinct, h.below, h.jobs, fun o' ho' => h.origin o' (hmem.mp ho').1, ?_,
    fun i k hlog hfinished hstop => ?_, fun o' ho' => h.aborted o' (hmem.mp ho').1, h.place⟩
  · refine List.forall_mem_append.mpr ⟨fun k hk => ?_, fun k hk => ?_⟩
    · exact ⟨(h.finished k hk).1, fun o' ho' => (h.finished k hk).2 o' (hmem.mp ho').1⟩
    · rw [hmore k hk]
      exact ⟨h.below _ (h.origin o ho), fun o' ho' => (hmem.mp ho').2⟩
  · rw [List.mem_append, not_or] at hfinished
    obtain ⟨o', ho', rfl⟩ := h.kept i k hlog hfinished.1 hstop
    refine ⟨o', hmem.mpr ⟨ho', fun hid => ?_⟩, rfl⟩
    rw [hid] at hlog hfinished hstop
    obtain hmem | hab := hleft
    · exact hfinished.2 hmem
    · obtain rfl := h.unique hlog (h.origin o ho)
      exact hstop ((h.aborted o ho).mp hab)

theorem Poised.drop (h : Poised (some k) w) : Poised none (w.dropOperation k) := by
  refine ⟨fun o ho => h.awake o (mem_dropOperation.mp ho).1, fun o ho hawake => ?_, h.placed⟩
  obtain ⟨ho, hne⟩ := mem_dropOperation.mp ho
  refine .inr ((h.operate o ho hawake).resolve_left fun hk => ?_)
  exact hne (Option.some.inj hk).symm

theorem mem_updateOperation {f : Operation → Operation} : o ∈ (w.updateOperation k f).operations ↔
    ∃ o' ∈ w.operations, (if o'.id = k then f o' else o') = o := by
  simp [updateOperation]

theorem Accounts.update (h : Accounts log ended w) {f : Operation → Operation}
    (hf : ∀ o, (f o).id = o.id ∧ (f o).job = o.job ∧ (f o).isAborted = o.isAborted) :
    Accounts log ended (w.updateOperation k f) := by
  have hsame : ∀ o : Operation, (if o.id = k then f o else o).id = o.id ∧
      (if o.id = k then f o else o).job = o.job ∧
      (if o.id = k then f o else o).isAborted = o.isAborted := by
    intro o
    split
    · exact hf o
    · exact ⟨rfl, rfl, rfl⟩
  refine ⟨h.distinct, h.below, h.jobs, fun o ho => ?_, fun k hk => ⟨(h.finished k hk).1, fun o ho => ?_⟩,
    fun i k hlog hfinished hstop => ?_, fun o ho => ?_, h.place⟩
  · obtain ⟨o', ho', rfl⟩ := mem_updateOperation.mp ho
    rw [(hsame o').1, (hsame o').2.1]
    exact h.origin o' ho'
  · obtain ⟨o', ho', rfl⟩ := mem_updateOperation.mp ho
    rw [(hsame o').1]
    exact (h.finished k hk).2 o' ho'
  · obtain ⟨o', ho', rfl⟩ := h.kept i k hlog hfinished hstop
    exact ⟨_, mem_updateOperation.mpr ⟨o', ho', rfl⟩, (hsame o').1⟩
  · obtain ⟨o', ho', rfl⟩ := mem_updateOperation.mp ho
    rw [(hsame o').1, (hsame o').2.1, (hsame o').2.2]
    exact h.aborted o' ho'

theorem Poised.update {busy' : Option OperationId} (h : Poised busy w) {f : Operation → Operation}
    (hid : ∀ o, (f o).id = o.id) (hbusy : ∀ j, j ≠ k → busy = some j → busy' = some j)
    (hf : ∀ o ∈ w.operations, o.id = k → ((f o).isAborted = true → (f o).isAwake = true) ∧
      ((f o).isAwake = true → busy' = some k)) : Poised busy' (w.updateOperation k f) := by
  refine ⟨fun o ho => ?_, fun o ho => ?_, h.placed⟩
  all_goals
    obtain ⟨o', ho', rfl⟩ := mem_updateOperation.mp ho
    split
  · next hk => exact (hf o' ho' hk).1
  · exact h.awake o' ho'
  · next hk =>
    rw [hid, hk]
    exact fun hawake => .inl ((hf o' ho' hk).2 hawake)
  · next hk => exact fun hawake => (h.operate o' ho' hawake).imp_left (hbusy o'.id hk)

theorem Poised.push_operate (h : Poised (some k) w) : Poised none (w.push [.operate k]) := by
  refine ⟨h.awake, fun o ho hawake => .inr ?_, List.forall_mem_cons.mpr ⟨trivial, h.placed⟩⟩
  obtain hk | hmem := h.operate o ho hawake
  · rw [Option.some.inj hk]
    exact List.mem_cons_self
  · exact List.mem_cons_of_mem _ hmem

def Errand.operated? : Errand → Option OperationId
  | .operate k => some k
  | _ => none

theorem Poised.pop {e : Errand} {rest : List Errand} (h : Poised none w) (ha : w.agenda = e :: rest) :
    Poised (Errand.operated? e) { w with agenda := rest } := by
  refine ⟨h.awake, fun o ho hawake => ?_, fun e' he' => h.placed e' (ha ▸ List.mem_cons_of_mem e he')⟩
  have hmem := (h.operate o ho hawake).resolve_left nofun
  rw [ha, List.mem_cons] at hmem
  exact hmem.imp_left fun he => by rw [← he]; rfl

/-! ## Deeds -/

theorem acts_complete (w : Jobs) (o : Operation) : Acts (w.dropOperation o.id) (w.complete o) := by
  unfold complete
  cases o.script.failure with
  | none => exact acts_perform _ _ _ _
  | some message => exact acts_perform _ _ _ _

theorem accounts_operate (h : Accounts log ended w) (hp : Poised (some o.id) w) (ho : o ∈ w.operations) :
    Accounts log (ended ++ if o.script.steps.isEmpty then [o.id] else []) (w.operate o) ∧
      Poised none (w.operate o) := by
  unfold Jobs.operate
  cases o.script.steps with
  | nil =>
    have hdropped := h.drop ho [o.id] (by simp) (by simp)
    exact ⟨hdropped.acts (acts_complete w o), hp.drop.acts (acts_complete w o)⟩
  | cons first rest =>
    rw [List.isEmpty_cons, if_neg Bool.false_ne_true, List.append_nil]
    let f : Operation → Operation := fun o => { o with script := { o.script with steps := rest } }
    have hgoes : Accounts log ended (w.updateOperation o.id f) := h.update fun _ => ⟨rfl, rfl, rfl⟩
    have hready : Poised (some o.id) (w.updateOperation o.id f) :=
      hp.update (fun _ => rfl) (fun _ _ hj => hj) fun o' ho' _ => ⟨hp.awake o' ho', fun _ => rfl⟩
    have hnext : Accounts log ended ((w.updateOperation o.id f).push [.operate o.id]) :=
      hgoes.extends rfl rfl fun _ => .inl rfl
    have hfo : f o ∈ (w.updateOperation o.id f).operations := mem_updateOperation.mpr ⟨o, ho, if_pos rfl⟩
    cases first with
    | ask r =>
      exact ⟨hnext.acts (acts_handle _ _ _ r), hready.push_operate.acts (acts_handle _ _ _ r)⟩
    | sleep milliseconds =>
      cases milliseconds with
      | zero => exact ⟨hnext, hready.push_operate⟩
      | succ n =>
        dsimp only
        unfold Jobs.sleep
        split
        · next hab =>
          have hdropped := hgoes.drop hfo [] nofun (.inr hab)
          rw [List.append_nil] at hdropped
          exact ⟨hdropped, hready.drop⟩
        · next hab =>
          refine ⟨hgoes.update fun _ => ⟨rfl, rfl, rfl⟩, hready.update (fun _ => rfl) ?_ ?_⟩
          · exact fun j hne hj => absurd (Option.some.inj hj).symm hne
          · intro o' ho' hk
            exact ⟨fun hab' => absurd ((hgoes.isAborted_eq hfo ho' hk).symm.trans hab') hab, nofun⟩

section
variable {d : Deed}

def Errand.isPlain : Errand → Bool
  | .attach .. | .operate _ => false
  | _ => true

theorem acts_carryOut {e : Errand} (he : Errand.isPlain e = true) : Acts w (w.carryOut e) := by
  cases e with
  | notify i => exact .aside (aside_notify w i)
  | call i status place callbacks =>
    cases callbacks with
    | nil => exact .aside (.refl w)
    | cons c rest =>
      have hpushed : Aside w (w.push [.call i status (place + 1) rest]) :=
        aside_push w (by simp [Errand.Placed])
      exact .aside ((hpushed.trans (aside_enter _ _)).trans (aside_callOne _ status c))
  | react reactions =>
    cases reactions with
    | nil => exact .aside (.refl w)
    | cons r rest =>
      have hpushed : Aside w (w.push [.react rest]) := aside_push w (by simp [Errand.Placed])
      exact (acts_handleNamed _ _ r.on r.request).after hpushed
  | report asker => exact .aside (aside_conclude w asker _)
  | completeCancel i asker => exact acts_perform w asker i (.set .cancelled .empty)
  | attach | operate => cases he

theorem acts_timeOut (w : Jobs) (id : JobId) : Acts w (w.timeOut id) := by
  have hdisarmed : Aside w (w.updateJob id fun job => { job with timer := none }) :=
    aside_updateJob w id fun _ => ⟨rfl, rfl⟩
  unfold timeOut
  split
  · exact .aside (.refl w)
  · dsimp only
    split
    · exact (acts_perform _ .nobody id _).after hdisarmed
    · exact .aside hdisarmed

theorem acts_run (hd : d.Placed w) (herrand : d ≠ .errand) (hwake : ∀ k, d ≠ .due (.operation k)) :
    Acts w (d.run w) := by
  cases d with
  | errand => exact absurd rfl herrand
  | ask i act => exact acts_perform w .caller i act
  | spawn i script =>
    exact acts_changeFor w .caller i _ _ (List.forall_mem_singleton.mpr hd)
  | add b => exact .aside (aside_add w b)
  | due d =>
    cases d with
    | operation k => exact absurd rfl (hwake k)
    | timer i => exact acts_timeOut w i
  | openStream name i => exact .aside (aside_setStream w name _)
  | poll name =>
    obtain h | ⟨s, h⟩ := poll_cases w name
    · exact .aside (by rw [Deed.run, h]; exact .refl w)
    · exact .aside (by rw [Deed.run, h]; exact aside_setStream w name s)
  | drain name =>
    obtain h | ⟨s, h⟩ := drain_cases w name
    · exact .aside (by rw [Deed.run, h]; exact .refl w)
    · exact .aside (by rw [Deed.run, h]; exact aside_setStream w name s)
  | tick | hold name i | release name | track mid i | untrack mid => exact .aside (.of_eq rfl rfl rfl rfl)

theorem accounts_attach {v : Jobs} (hv : Accounts log ended v) (hp : Poised none v)
    (hjob : (v.job? id).isSome = true) (script : Script) (asker : Asker) :
    Accounts (log ++ (if v.isDone id then none else some (id, v.started)).toList) ended
      (v.carryOut (.attach id script asker)) ∧ Poised none (v.carryOut (.attach id script asker)) := by
  have hconclude := aside_conclude (v.start id script) asker (.ok ())
  refine ⟨?_, (hp.start script).aside hconclude⟩
  cases hdone : v.isDone id with
  | true =>
    have hstart : v.start id script = v := by rw [Jobs.start, hdone, if_pos rfl]
    rw [hstart] at hconclude
    rw [if_pos rfl, Option.toList_none, List.append_nil, carryOut, hstart]
    exact hv.aside hconclude
  | false => exact (hv.start hjob hdone script).aside hconclude

theorem accounts_step {v : Jobs} (hv : Accounts log ended v) (hp : Poised (some k) v) :
    Accounts log (ended ++ ((v.operation? k).bind fun o =>
        if o.script.steps.isEmpty then some k else none).toList) (v.carryOut (.operate k)) ∧
      Poised none (v.carryOut (.operate k)) := by
  unfold carryOut
  dsimp only
  cases ho : v.operation? k with
  | none =>
    rw [Option.bind_none, Option.toList_none, List.append_nil]
    refine ⟨hv, hp.awake, fun o ho' hawake => ?_, hp.placed⟩
    refine .inr ((hp.operate o ho' hawake).resolve_left fun hk => ?_)
    exact absurd (Option.some.inj hk).symm (by simpa using List.find?_eq_none.mp ho o ho')
  | some o =>
    obtain rfl : o.id = k := by simpa using List.find?_some ho
    have hoperate := accounts_operate hv hp (List.mem_of_find?_eq_some ho)
    rw [Option.bind_some]
    split <;> simpa [*] using hoperate

theorem accounts_errand (h : Accounts log ended w) (hp : Poised none w) :
    Accounts (log ++ (Deed.errand.attached? w).toList) (ended ++ (Deed.errand.ended? w).toList)
      (Deed.errand.run w) ∧ Poised none (Deed.errand.run w) := by
  unfold Deed.attached? Deed.ended? Deed.run step
  cases ha : w.agenda with
  | nil => simpa using ⟨h, hp⟩
  | cons e rest =>
    have hv : Accounts log ended { w with agenda := rest } := h.extends rfl rfl fun _ => .inl rfl
    have hpop := hp.pop ha
    cases e with
    | attach i script asker =>
      have hjob := hp.placed (.attach i script asker) (ha ▸ List.mem_cons_self)
      dsimp only
      rw [Option.toList_none, List.append_nil]
      exact accounts_attach hv hpop hjob script asker
    | operate k =>
      dsimp only
      rw [Option.toList_none, List.append_nil]
      exact accounts_step hv hpop
    | notify i | call i status place callbacks | react reactions | report asker | completeCancel i asker =>
      simp only [Option.toList_none, List.append_nil, Option.getD_some]
      exact ⟨hv.acts (acts_carryOut rfl), hpop.acts (acts_carryOut rfl)⟩

theorem accounts_wake (h : Accounts log ended w) (hp : Poised none w) (k : OperationId) :
    Accounts log ended (w.begin (.operation k)) ∧ Poised none (w.begin (.operation k)) := by
  have hwoken : Accounts log ended (w.updateOperation k fun o => { o with isAwake := true }) :=
    h.update fun _ => ⟨rfl, rfl, rfl⟩
  have hready : Poised (some k) (w.updateOperation k fun o => { o with isAwake := true }) :=
    hp.update (fun _ => rfl) nofun fun _ _ _ => ⟨fun _ => rfl, fun _ => rfl⟩
  exact ⟨hwoken.extends rfl rfl fun _ => .inl rfl, hready.push_operate⟩

/-- What a deed does to the operations is what is noted of it. -/
theorem accounts_run (h : Accounts log ended w) (hp : Poised none w) (hd : d.Placed w) :
    Accounts (log ++ (d.attached? w).toList) (ended ++ (d.ended? w).toList) (d.run w) ∧
      Poised none (d.run w) := by
  by_cases herrand : d = .errand
  · subst herrand
    exact accounts_errand h hp
  · have hnone : d.attached? w = none ∧ d.ended? w = none := by
      cases d with
      | errand => exact absurd rfl herrand
      | _ => exact ⟨rfl, rfl⟩
    rw [hnone.1, hnone.2, Option.toList_none, Option.toList_none, List.append_nil, List.append_nil]
    by_cases hwake : ∃ k, d = .due (.operation k)
    · obtain ⟨k, rfl⟩ := hwake
      exact accounts_wake h hp k
    · have hacts := acts_run hd herrand (not_exists.mp hwake)
      exact ⟨h.acts hacts, hp.acts hacts⟩

theorem accounts_foldl {ds : List Deed} (h : Accounts log ended w) (hp : Poised none w)
    (hds : Along Deed.Placed w ds) :
    Accounts (log ++ gather Deed.attached? w ds) (ended ++ gather Deed.ended? w ds)
      (ds.foldl Deed.run w) ∧ Poised none (ds.foldl Deed.run w) := by
  induction ds generalizing w log ended with
  | nil => simpa [gather] using ⟨h, hp⟩
  | cons d ds ih =>
    obtain ⟨hd, hds⟩ := hds
    obtain ⟨h, hp⟩ := accounts_run h hp hd
    rw [gather, gather, ← List.append_assoc, ← List.append_assoc]
    exact ih h hp hds

end

end

theorem accounts_empty (clock : Bool) : Accounts [] [] (empty clock) := by
  refine ⟨.nil, nofun, nofun, nofun, nofun, nofun, nofun, fun i done k? hi => ?_⟩
  cases hi

theorem poised_empty (clock : Bool) : Poised none (empty clock) :=
  ⟨nofun, nofun, nofun⟩

/-- An operation goes on that was attached to a job and has not come to its own end, unless the job is done
and no operation was attached later. What was told to stop is gone as soon as nothing is left to do. -/
theorem operation_goes_on_iff {clock : Bool} {ds : List Deed} (hds : Along Deed.Placed (empty clock) ds)
    (id : JobId) (k : OperationId) :
    let w := ds.foldl Deed.run (empty clock)
    let attached := attachedTo id (gather Deed.attached? (empty clock) ds)
    ((∃ o ∈ w.operations, o.job = id ∧ o.id = k ∧ o.isAborted = false) ↔
      k ∈ attached ∧ k ∉ gather Deed.ended? (empty clock) ds ∧
        ¬ (w.isDone id = true ∧ attached.getLast? = some k)) ∧
    (w.agenda = [] → ∀ o ∈ w.operations, o.isAborted = false) := by
  intro w attached
  obtain ⟨h, hp⟩ := accounts_foldl (accounts_empty clock) (poised_empty clock) hds
  rw [List.nil_append, List.nil_append] at h
  constructor
  · constructor
    · rintro ⟨o, ho, rfl, rfl, hgoes⟩
      refine ⟨mem_attachedTo.mpr (h.origin o ho),
        fun hfinished => (h.finished o.id hfinished).2 o ho rfl, fun hstop => ?_⟩
      rw [(h.aborted o ho).mpr hstop] at hgoes
      cases hgoes
    · rintro ⟨hlog, hfinished, hstop⟩
      obtain ⟨o, ho, rfl⟩ := h.kept id k (mem_attachedTo.mp hlog) hfinished hstop
      obtain rfl := h.unique (mem_attachedTo.mp hlog) (h.origin o ho)
      refine ⟨o, ho, rfl, rfl, ?_⟩
      rw [← Bool.not_eq_true, h.aborted o ho]
      exact hstop
  · intro hidle o ho
    rw [← Bool.not_eq_true]
    intro hab
    obtain hbusy | hmem := hp.operate o ho (hp.awake o ho hab)
    · cases hbusy
    · rw [hidle] at hmem
      cases hmem

/-- A second operation is attached before the first has ended, and the job is cancelled. -/
theorem operation_goes_on_iff_displaced :
    let first : Script := ⟨[.sleep 5, .ask ⟨"info", .ok (.info (.text "late"))⟩], none⟩
    let ds : List Deed := [.add ⟨⟨"a.b", 1, "act", "", "text", none⟩, some (.log none), [], false, none⟩,
      .spawn 0 first, .errand, .errand, .errand, .errand, .spawn 0 ⟨[.sleep 9], none⟩, .errand,
      .ask 0 (.set .cancelled .empty), .errand, .errand, .errand, .errand]
    let w := ds.foldl Deed.run (empty true)
    Along Deed.Placed (empty true) ds ∧ w.isDone 0 = true ∧ w.agenda.isEmpty = true ∧
      (∃ o ∈ w.operations, o.job = 0 ∧ o.id = 0 ∧ o.isAborted = false) ∧
      ¬ ∃ o ∈ w.operations, o.job = 0 ∧ o.id = 1 ∧ o.isAborted = false := by
  intro first ds w
  have hds : Along Deed.Placed (empty true) ds :=
    ⟨trivial, rfl, trivial, trivial, trivial, trivial, rfl, trivial, trivial, trivial, trivial, trivial,
      trivial, trivial⟩
  have hattached : attachedTo 0 (gather Deed.attached? (empty true) ds) = [0, 1] := by decide
  have hended : gather Deed.ended? (empty true) ds = [] := by decide
  have hdone : w.isDone 0 = true := by decide
  refine ⟨hds, hdone, by decide, ?_, ?_⟩
  · refine (operation_goes_on_iff hds 0 0).1.mpr ?_
    rw [hattached, hended]
    decide
  · intro h
    have hgoes := (operation_goes_on_iff hds 0 1).1.mp h
    rw [hattached] at hgoes
    exact hgoes.2.2 ⟨hdone, rfl⟩

/-- An operation goes on and makes its job write after the job was cancelled. -/
theorem operation_outlives_job :
    let first : Script := ⟨[.sleep 5, .ask ⟨"info", .ok (.info (.text "late"))⟩], none⟩
    let ops : List Op := [.build ⟨⟨"a.b", 1, "act", "", "text", none⟩, some (.log none), [], false, none⟩,
      .spawn 0 first, .spawn 0 ⟨[.sleep 9], none⟩, .advance 1, .ask 0 .cancel]
    let w := ops.foldl Op.run (empty true)
    w.isDone 0 = true ∧ (∃ o ∈ w.operations, o.job = 0 ∧ o.isAborted = false) ∧
      w.journal.length < (w.advance 10).journal.length := by
  decide +kernel

end ActorHub.Jobs
