import ActorHub.Proofs.Jobs.Feed
import ActorHub.Proofs.Jobs.Rest
import Mathlib.Algebra.GroupWithZero.Nat

/-!
# How runs end

What an errand entails is put before the rest of the agenda, so the rest waits until all of it is done. An
errand costs more than what it entails, unless it delivers a change that waits or changes a status (`Entails`).
So a run comes to the rest of its agenda if statuses change only so many times (`reaches_rest`): nothing else
that callbacks do can keep it busy for ever.
-/

namespace ActorHub

def Callback.cost : Callback → Nat
  | scripted _ reactions => 2 + 3 * reactions.length
  | untrack _ => 1

namespace Errand

def isOperation : Errand → Bool
  | operate _ => true
  | _ => false

/-- Enough errands for this one and all that it entails, as long as no status changes. -/
def cost : Errand → Nat
  | call _ _ _ callbacks => 1 + (callbacks.map Callback.cost).sum
  | react reactions => 1 + 3 * reactions.length
  | completeCancel .. => 2
  | notify _ | report _ | attach .. | operate _ => 1

end Errand

namespace Jobs

def costOf (es : List Errand) : Nat :=
  (es.map Errand.cost).sum

def changeCount (w : Jobs) : Nat :=
  w.feed.2.length

def backlog (w : Jobs) : Nat :=
  (w.jobs.map (·.pending.length)).sum

/-! ## Edits that leave the work as it is -/

structure Keeps (w w' : Jobs) : Prop where
  agenda : w'.agenda = w.agenda
  backlog : w'.backlog = w.backlog
  changeCount : w'.changeCount = w.changeCount

section
variable {u w w' : Jobs} {id : JobId}

theorem Keeps.refl (w : Jobs) : Keeps w w :=
  ⟨rfl, rfl, rfl⟩

theorem Keeps.trans (h : Keeps u w) (h' : Keeps w w') : Keeps u w' :=
  ⟨h'.agenda.trans h.agenda, h'.backlog.trans h.backlog, h'.changeCount.trans h.changeCount⟩

theorem Keeps.of_jobs (hagenda : w'.agenda = w.agenda) (hjobs : w'.jobs = w.jobs)
    (hfeed : w'.feed = w.feed) : Keeps w w' :=
  ⟨hagenda, by rw [Jobs.backlog, hjobs, Jobs.backlog], by rw [Jobs.changeCount, hfeed, Jobs.changeCount]⟩

theorem sum_modify {xs : List Job} {i : Nat} {x : Job} (hx : xs[i]? = some x) (f : Job → Job)
    (size : Job → Nat) :
    ((xs.modify i f).map size).sum + size x = (xs.map size).sum + size (f x) := by
  induction xs generalizing i with
  | nil => cases hx
  | cons y ys ih =>
    cases i with
    | zero =>
      obtain rfl : y = x := by simpa using hx
      simp only [List.modify_zero_cons, List.map_cons, List.sum_cons]
      omega
    | succ i =>
      have := ih (by simpa using hx)
      simp only [List.modify_succ_cons, List.map_cons, List.sum_cons]
      omega

theorem backlog_updateJob {job : Job} (hj : w.job? id = some job) (f : Job → Job) :
    (w.updateJob id f).backlog + job.pending.length = w.backlog + (f job).pending.length :=
  sum_modify hj f (·.pending.length)

theorem keeps_updateJob (w : Jobs) (id : JobId) {f : Job → Job} (hf : ∀ job, (f job).pending = job.pending) :
    Keeps w (w.updateJob id f) := by
  refine ⟨rfl, ?_, rfl⟩
  cases hj : w.job? id with
  | none => rw [updateJob, List.modify_eq_self (List.getElem?_eq_none_iff.mp hj)]
  | some job =>
    have := backlog_updateJob hj f
    rw [hf] at this
    omega

theorem keeps_enter (w : Jobs) {e : JournalEntry} (he : e.isChange = false) : Keeps w (w.enter e) :=
  .of_jobs rfl rfl (feed_enter w he)

theorem keeps_tell (w : Jobs) (asker : Asker) (outcome : Outcome) : Keeps w (w.tell asker outcome) := by
  cases asker with
  | caller | nobody => exact .refl w
  | reaction label on | operation label => exact keeps_enter w rfl

theorem keeps_conclude (w : Jobs) (asker : Asker) (result : Except JobError Unit) :
    Keeps w (w.conclude asker result) := by
  have h := conclude_onlyAnswers w asker result
  exact .of_jobs h.agenda h.jobs (feed_conclude w asker result)

theorem keeps_start (w : Jobs) (id : JobId) (script : Script) : Keeps w (w.start id script) := by
  unfold start
  split
  · exact .refl w
  · have hstarted : Keeps w { w with
        operations := w.operations ++ [⟨w.started, id, script, w.now, false, false⟩]
        started := w.started + 1 } := .of_jobs rfl rfl rfl
    exact hstarted.trans (keeps_updateJob _ id fun _ => rfl)

theorem keeps_untrackDone (w : Jobs) (mid : Nat) : Keeps w (w.untrackDone mid) := by
  obtain ⟨hjobs, hagenda, -⟩ := jobs_untrackDone w mid
  exact .of_jobs hagenda hjobs (feed_untrackDone w mid)

end

/-! ## Errands that are entailed -/

/-- New errands stand before the others. They cost less than a number, or fewer changes wait than before, or
a change was recorded. -/
def Entails (cost : Nat) (w w' : Jobs) : Prop :=
  ∃ new, w'.agenda = new ++ w.agenda ∧ (∀ e ∈ new, e.isOperation = false) ∧
    (w.changeCount < w'.changeCount ∨ w'.changeCount = w.changeCount ∧
      (w'.backlog < w.backlog ∨ w'.backlog = w.backlog ∧ costOf new < cost))

section
variable {u w w' : Jobs} {cost : Nat} {es : List Errand}

theorem Keeps.entails (h : Keeps w w') (hcost : 0 < cost) : Entails cost w w' :=
  ⟨[], h.agenda, List.forall_mem_nil _, .inr ⟨h.changeCount, .inr ⟨h.backlog, hcost⟩⟩⟩

theorem Entails.after (h : Entails cost u w') (hu : Keeps w u) : Entails cost w w' := by
  rwa [Entails, hu.agenda, hu.changeCount, hu.backlog] at h

theorem Entails.mono {more : Nat} (h : Entails cost w w') (hmore : cost ≤ more) : Entails more w w' := by
  obtain ⟨new, hagenda, hnew, hless⟩ := h
  refine ⟨new, hagenda, hnew, ?_⟩
  omega

theorem Entails.push (h : Entails cost (w.push es) w') (hes : ∀ e ∈ es, e.isOperation = false) :
    Entails (cost + costOf es) w w' := by
  obtain ⟨new, hagenda, hnew, hless⟩ := h
  have hcost : costOf (new ++ es) = costOf new + costOf es := by simp [costOf]
  refine ⟨new ++ es, by rw [hagenda, List.append_assoc]; rfl, List.forall_mem_append.mpr ⟨hnew, hes⟩, ?_⟩
  have hcount : (w.push es).changeCount = w.changeCount := rfl
  have hbacklog : (w.push es).backlog = w.backlog := rfl
  omega

theorem entails_push (w : Jobs) (hes : ∀ e ∈ es, e.isOperation = false) (hcost : costOf es < cost) :
    Entails cost w (w.push es) :=
  ⟨es, rfl, hes, .inr ⟨rfl, .inr ⟨rfl, hcost⟩⟩⟩

theorem agenda_record (w : Jobs) (id : JobId) (status : JobStatus) :
    (w.record id status).1.agenda = w.agenda := by
  rw [record_fst]
  split
  · rw [agenda_windUp]; rfl
  · rfl

theorem changeCount_record (w : Jobs) (id : JobId) (status : JobStatus) :
    (w.record id status).1.changeCount = w.changeCount + 1 := by
  rw [changeCount, feed_record, List.length_append, changeCount]
  rfl

end

section
variable (w : Jobs) (asker : Asker) (id : JobId)

theorem entails_changeFor (status : JobStatus) (content : Content) {afterwards : List Errand} {cost : Nat}
    (hafter : ∀ e ∈ afterwards, e.isOperation = false) (hcost : costOf afterwards < cost) :
    Entails cost w (w.changeFor asker id status content afterwards) := by
  unfold changeFor
  split
  · next u errands hs =>
    obtain ⟨rfl, rfl, -⟩ | ⟨job, v, -, -, -, hv, hr⟩ := setStatus_cases hs
    · exact entails_push u hafter hcost
    · obtain rfl : (v.record id status).1 = u := congrArg Prod.fst hr
      obtain rfl : (v.record id status).2 = errands := congrArg Prod.snd hr
      have hwrote : v.agenda = w.agenda ∧ v.feed = w.feed := by
        refine ⟨?_, feed_wrote (wrote_of_announce hv)⟩
        obtain rfl | ⟨writer, writers, reply, rfl⟩ := wrote_of_announce hv <;> rfl
      refine ⟨(v.record id status).2 ++ afterwards, ?_, ?_, .inl ?_⟩
      · change _ ++ (v.record id status).1.agenda = _
        rw [agenda_record, hwrote.1]
      · refine List.forall_mem_append.mpr ⟨?_, hafter⟩
        obtain h | h := record_errands (w := v) id status <;> simp [h, Errand.isOperation]
      · change w.changeCount < (v.record id status).1.changeCount
        rw [changeCount_record, changeCount, changeCount, hwrote.2]
        exact Nat.lt_succ_self _
  · exact (keeps_conclude w asker _).entails (Nat.zero_lt_of_lt hcost)

theorem entails_set (status : JobStatus) (content : Content) :
    Entails 2 w (w.perform asker id (.set status content)) :=
  entails_changeFor w asker id status content (by simp [Errand.isOperation])
    (by simp [costOf, Errand.cost])

theorem entails_perform (act : Act) : Entails 3 w (w.perform asker id act) := by
  cases act with
  | set status content => exact (entails_set w asker id status content).mono (by decide)
  | write code content =>
    unfold perform
    dsimp only
    split
    · next u hu =>
      have hwrote : Keeps w u := by
        refine .of_jobs ?_ ?_ (feed_wrote (wrote_of_write hu))
        · obtain rfl | ⟨writer, writers, reply, rfl⟩ := wrote_of_write hu <;> rfl
        · obtain rfl | ⟨writer, writers, reply, rfl⟩ := wrote_of_write hu <;> rfl
      exact (hwrote.trans (keeps_conclude u asker _)).entails (by decide)
    · exact (keeps_conclude w asker _).entails (by decide)
  | cancel =>
    unfold perform
    dsimp only
    split
    · exact (keeps_conclude w asker _).entails (by decide)
    · exact entails_changeFor w asker id _ _ (by simp [Errand.isOperation]) (by simp [costOf, Errand.cost])
  | listen c =>
    have hadded : Keeps w (w.addCallback id c) := keeps_updateJob w id fun _ => rfl
    exact (hadded.trans (keeps_conclude _ asker _)).entails (by decide)

theorem entails_handle (r : Request) : Entails 3 w (w.handle asker id r) := by
  unfold handle
  split
  · exact entails_perform w asker id _
  · exact (keeps_tell w asker _).entails (by decide)

theorem entails_handleNamed (name : String) (r : Request) :
    Entails 3 w (w.handleNamed asker name r) := by
  unfold handleNamed
  split
  · exact entails_handle w asker _ r
  · exact (keeps_tell w asker _).entails (by decide)

theorem entails_callOne (status : JobStatus) (c : Callback) : Entails c.cost w (w.callOne status c) := by
  unfold callOne
  split
  · next name reactions =>
    have hfewer := List.length_filter_le (·.trigger == some status) reactions
    refine entails_push w (by simp [Errand.isOperation]) ?_
    simp only [costOf, List.map_singleton, List.sum_singleton, Errand.cost, Callback.cost]
    omega
  · next mid =>
    have hcost : 0 < (Callback.untrack mid).cost := Nat.one_pos
    split
    · exact (keeps_untrackDone w mid).entails hcost
    · exact (Keeps.refl w).entails hcost

theorem entails_notify : Entails 1 w (w.notify id) := by
  unfold notify
  split
  · exact (Keeps.refl w).entails Nat.one_pos
  · next job hj =>
    split
    · have hset : Keeps w (w.updateJob id fun job => { job with isNotifying := false }) :=
        keeps_updateJob w id fun _ => rfl
      exact hset.entails Nat.one_pos
    · next status rest hpending =>
      refine ⟨[.call id status 0 job.callbacks, .notify id], rfl, by simp [Errand.isOperation],
        .inr ⟨rfl, .inl ?_⟩⟩
      have htaken := backlog_updateJob hj fun job => { job with pending := rest }
      rw [hpending, List.length_cons] at htaken
      change (w.updateJob id fun job => { job with pending := rest }).backlog < w.backlog
      dsimp only at htaken
      omega

theorem entails_carryOut {e : Errand} (he : e.isOperation = false) : Entails e.cost w (w.carryOut e) := by
  cases e with
  | notify i => exact entails_notify w i
  | call i status place callbacks =>
    cases callbacks with
    | nil => exact (Keeps.refl w).entails Nat.one_pos
    | cons c rest =>
      have hcalled : Keeps (w.push [.call i status (place + 1) rest])
          ((w.push [.call i status (place + 1) rest]).enter (.called i place c.name? status)) :=
        keeps_enter _ rfl
      have hpushed := ((entails_callOne _ status c).after hcalled).push (by simp [Errand.isOperation])
      refine hpushed.mono ?_
      simp only [costOf, List.map_cons, List.map_nil, List.sum_cons, List.sum_nil, Errand.cost]
      omega
  | react reactions =>
    cases reactions with
    | nil => exact (Keeps.refl w).entails Nat.one_pos
    | cons r rest =>
      have hhandled := entails_handleNamed (w.push [.react rest]) (.reaction r.request.label r.on) r.on r.request
      refine (hhandled.push (by simp [Errand.isOperation])).mono ?_
      simp only [costOf, List.map_singleton, List.sum_singleton, Errand.cost, List.length_cons]
      omega
  | report asker => exact (keeps_conclude w asker _).entails Nat.one_pos
  | completeCancel i asker => exact entails_set w asker i .cancelled .empty
  | attach i script asker => exact ((keeps_start w i script).trans (keeps_conclude _ asker _)).entails Nat.one_pos
  | operate o => cases he

theorem entails_operate (o : Operation) : ∃ new, (w.operate o).agenda = new ++ w.agenda := by
  have hhandled : ∀ (u : Jobs) (asker : Asker) (id : JobId) (r : Request) (es : List Errand),
      u.agenda = es ++ w.agenda → ∃ new, (u.handle asker id r).agenda = new ++ w.agenda := by
    intro u asker id r es hu
    obtain ⟨new, hnew, -⟩ := entails_handle u asker id r
    exact ⟨new ++ es, by rw [hnew, hu, List.append_assoc]⟩
  unfold operate
  split
  · unfold complete
    dsimp only
    split
    all_goals
      obtain ⟨new, hnew, -⟩ := entails_perform (w.dropOperation o.id) .nobody o.job _
      exact ⟨new, hnew⟩
  · dsimp only
    split
    · exact ⟨[.operate o.id], rfl⟩
    · refine ⟨[], ?_⟩
      unfold sleep
      split <;> rfl
    · exact hhandled _ _ _ _ [.operate o.id] rfl

theorem agenda_carryOut (e : Errand) : ∃ new, (w.carryOut e).agenda = new ++ w.agenda := by
  by_cases he : e.isOperation = false
  · obtain ⟨new, hnew, -⟩ := entails_carryOut w he
    exact ⟨new, hnew⟩
  · cases e with
    | operate id =>
      unfold carryOut
      dsimp only
      split
      · exact entails_operate w _
      · exact ⟨[], rfl⟩
    | _ => exact absurd rfl he

end

/-! ## Runs -/

section
variable {k n : Nat} {w v : Jobs} {e : Errand} {es rest : List Errand}

theorem Runs.runFor_eq (h : Runs k w v) : runFor k w = v := by
  have := h 0
  rwa [Nat.zero_add, runFor] at this

theorem Runs.leads (h : Runs k w v) : w.Leads v :=
  h.runFor_eq ▸ leads_runFor w k

theorem reaches_of_ends (ha : w.agenda = es ++ rest) (hend : (runFor n w).agenda = []) :
    ∃ k v, k ≤ n ∧ Runs k w v ∧ v.agenda = rest := by
  induction n generalizing w es with
  | zero =>
    rw [runFor, ha, List.append_eq_nil_iff] at hend
    exact ⟨0, w, Nat.le_refl 0, .refl w, by rw [ha, hend.1]; rfl⟩
  | succ n ih =>
    cases es with
    | nil => exact ⟨0, w, Nat.zero_le _, .refl w, ha⟩
    | cons e es =>
      have hrun := runs_errand (ha.trans (List.cons_append ..))
      obtain ⟨new, hnew⟩ := agenda_carryOut { w with agenda := es ++ rest } e
      rw [hrun n] at hend
      obtain ⟨k, v, hk, hv, hrest⟩ := ih (hnew.trans (List.append_assoc ..).symm) hend
      exact ⟨1 + k, v, by omega, hrun.trans hv, hrest⟩

/-- A run in which statuses change only so many times comes to the rest of its agenda. -/
theorem reaches_rest {bound : Nat} {w : Jobs} {es : List Errand}
    (hbound : ∀ n, (runFor n w).changeCount ≤ bound) (ha : w.agenda = es ++ rest)
    (hes : ∀ e ∈ es, e.isOperation = false) :
    ∃ k v, Runs k w v ∧ v.agenda = rest := by
  match es with
  | [] => exact ⟨0, w, .refl w, ha⟩
  | e :: es =>
    have hrun := runs_errand (ha.trans (List.cons_append ..))
    have hentails := entails_carryOut { w with agenda := es ++ rest } (List.forall_mem_cons.mp hes).1
    obtain ⟨new, hnew, hplain, hless⟩ := hentails
    have hbound' : ∀ n, (runFor n (({ w with agenda := es ++ rest } : Jobs).carryOut e)).changeCount ≤ bound :=
      fun n => hrun n ▸ hbound (n + 1)
    have hnext : (({ w with agenda := es ++ rest } : Jobs).carryOut e).changeCount ≤ bound := hbound' 0
    obtain ⟨k, v, hv, hrest⟩ := reaches_rest hbound' (hnew.trans (List.append_assoc ..).symm)
      (List.forall_mem_append.mpr ⟨hplain, (List.forall_mem_cons.mp hes).2⟩)
    exact ⟨1 + k, v, hrun.trans hv, hrest⟩
termination_by (bound - w.changeCount, w.backlog, costOf es)
decreasing_by
  have hcost : costOf (new ++ es) = costOf new + costOf es := by simp [costOf]
  have hcons : costOf (e :: es) = e.cost + costOf es := by simp [costOf]
  have hcount : ({ w with agenda := es ++ rest } : Jobs).changeCount = w.changeCount := rfl
  have hbacklog : ({ w with agenda := es ++ rest } : Jobs).backlog = w.backlog := rfl
  simp only [Prod.lex_def]
  omega

theorem runFor_add (n k : Nat) (w : Jobs) : runFor (n + k) w = runFor n (runFor k w) := by
  induction k generalizing w with
  | zero => rfl
  | succ k ih =>
    rw [← Nat.add_assoc]
    cases hstep : w.step with
    | none =>
      have hidle : w.agenda = [] := by
        unfold step at hstep
        split at hstep
        · next h => exact h
        · cases hstep
      rw [runFor_of_idle hidle, runFor_of_idle hidle, runFor_of_idle hidle]
    | some w' =>
      rw [runFor, runFor, hstep]
      exact ih w'

theorem runFor_eq_of_ends (h : Runs k w v) (hv : v.agenda = []) (hend : (runFor n w).agenda = []) :
    runFor n w = v := by
  have hlater := runFor_add k n w
  rw [runFor_of_idle hend, Nat.add_comm, h n, runFor_of_idle hv] at hlater
  exact hlater.symm

theorem Feeds.changeCount_le {w w' : Jobs} (h : Feeds w w') : w.changeCount ≤ w'.changeCount := by
  rw [changeCount, changeCount]
  obtain h | ⟨id, status, h⟩ := h
  · exact Nat.le_of_eq (by rw [h])
  · rw [h, List.length_append]
    exact Nat.le_add_right _ _

theorem changeCount_le_runFor (n : Nat) (w : Jobs) : w.changeCount ≤ (runFor n w).changeCount := by
  induction n generalizing w with
  | zero => exact Nat.le_refl _
  | succ n ih =>
    unfold runFor
    cases hstep : w.step with
    | none => exact Nat.le_refl _
    | some w' => exact Nat.le_trans (feeds_step w hstep).changeCount_le (ih w')

theorem changeCount_le_of_ends (hend : (runFor k w).agenda = []) (n : Nat) :
    (runFor n w).changeCount ≤ (runFor k w).changeCount := by
  obtain hle | hle := Nat.le_total n k
  · obtain ⟨m, rfl⟩ := Nat.exists_eq_add_of_le hle
    rw [Nat.add_comm, runFor_add]
    exact changeCount_le_runFor m _
  · obtain ⟨m, rfl⟩ := Nat.exists_eq_add_of_le hle
    exact Nat.le_of_eq (by rw [Nat.add_comm, runFor_add, runFor_of_idle hend])

theorem answer_of_report (ha : w.agenda = es ++ [.report .caller]) (hend : (runFor n w).agenda = []) :
    (runFor n w).answer = .ok () := by
  obtain ⟨k, v, hk, hv, hrest⟩ := reaches_of_ends ha hend
  obtain ⟨m, rfl⟩ := Nat.exists_eq_add_of_le hk
  rw [Nat.add_comm, hv m] at hend ⊢
  cases m with
  | zero => rw [runFor, hrest] at hend; cases hend
  | succ m =>
    rw [runs_errand hrest m, runFor_of_idle rfl]
    rfl

end

end Jobs

end ActorHub
