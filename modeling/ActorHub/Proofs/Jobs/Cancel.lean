import ActorHub.Proofs.Jobs.Timers
import ActorHub.Proofs.Jobs.Transition

/-!
# Cancellation

To cancel a job takes two changes, with all the callbacks of the first in between. If they leave the job
undone the second change is made, and whoever cancelled is told that it is done. If one of them ends the job,
the second change is refused like any change of a job that is done, although the job is as done as it was to
be (`cancel_outcome`).
-/

namespace ActorHub.Jobs

/-! ## Jobs that are heard -/

def Heard (w : Jobs) (id : JobId) : Prop :=
  ∃ f, w.face? id = some f ∧ ∀ i, f.writer = some i → w.Takes i

section
variable {w w' v : Jobs} {id : JobId} {job : Job} {status : JobStatus} {k : Nat}

theorem heard_of_job (hj : w.job? id = some job) (htakes : ∀ i, job.writer = some i → w.Takes i) : w.Heard id :=
  ⟨job.face, face?_of_job hj, htakes⟩

theorem Heard.obeys (h : w.Heard id) {asked : Option (JobId × Act)} (ho : Obeys asked w w') : w'.Heard id := by
  obtain ⟨f, hf, htakes⟩ := h
  obtain ⟨f', changes, hf', -, hturn⟩ := ho.turn hf
  have hwriter : f'.writer = f.writer := by cases hturn <;> rfl
  exact ⟨f', hf', fun i hi => ho.takes (htakes i (hwriter ▸ hi))⟩

theorem Heard.runFor (h : w.Heard id) (n : Nat) : (runFor n w).Heard id := by
  induction n generalizing w with
  | zero => exact h
  | succ n ih =>
    cases ha : w.agenda with
    | nil => rwa [runFor_of_idle ha]
    | cons e rest =>
      have htaken : ({ w with agenda := rest } : Jobs).Heard id := h
      rw [runs_errand ha n]
      exact ih (htaken.obeys (obeys_carryOut _ e))

theorem changeFor_of_heard (h : w.Heard id) (hj : w.job? id = some job) (hrunning : job.status.isDone = false)
    (asker : Asker) (status : JobStatus) (afterwards : List Errand) :
    ∃ errands, (w.changeFor asker id status .empty afterwards).agenda = errands ++ afterwards ++ w.agenda ∧
      (∀ e ∈ errands, e.isOperation = false) ∧
      (w.changeFor asker id status .empty afterwards).hasStatus id status = true ∧
      (job.isNotifying = true ∨ job.status = status → errands = []) := by
  obtain ⟨f, hf, htakes⟩ := h
  obtain rfl : job.face = f := Option.some.inj ((face?_of_job hj).symm.trans hf)
  cases hset : w.setStatus id status .empty with
  | error e =>
    obtain ⟨v, hv⟩ := announce_of_takes hj htakes status
    simp only [setStatus, hj, hrunning, Bool.false_eq_true, if_false, hv] at hset
    split at hset <;> cases hset
  | ok p =>
    obtain ⟨u, errands⟩ := p
    have hchange : w.changeFor asker id status .empty afterwards = u.push (errands ++ afterwards) := by
      rw [changeFor, hset]
    rw [hchange]
    obtain ⟨-, ⟨hsame, rfl, rfl⟩ | ⟨hne, hcommits, hagenda, rfl⟩⟩ := setStatus_of_ok hj hset
    · exact ⟨[], rfl, List.forall_mem_nil _, hasStatus_iff.mpr ⟨job, hj, hsame⟩, fun _ => rfl⟩
    · refine ⟨_, by rw [push, hagenda], ?_, hasStatus_iff.mpr ⟨_, hcommits.job? hj, rfl⟩, ?_⟩
      · split <;> simp [Errand.isOperation]
      · intro hquiet
        rw [if_pos (hquiet.resolve_right hne)]

/-! ## The second change -/

/-- The run comes to the second change. The job is undone then if no callback is called with the first one:
it waits behind others, or it changes nothing. -/
theorem reaches_second (h : w.Heard id) (hj : w.job? id = some job) (hrunning : job.status.isDone = false)
    (asker : Asker) {bound : Nat}
    (hbound : ∀ n, (runFor n (w.perform asker id .cancel)).changeCount ≤ bound) :
    ∃ k v, Runs k (w.perform asker id .cancel) v ∧ v.agenda = .completeCancel id asker :: w.agenda ∧
      (job.isNotifying = true ∨ job.status = .cancelling → v.isDone id = false) := by
  have hfirst : w.perform asker id .cancel =
      w.changeFor asker id .cancelling .empty [.completeCancel id asker] := by
    simp only [perform, isDone_eq hj, hrunning, Bool.false_eq_true, if_false]
  obtain ⟨errands, hagenda, hplain, hcancelling, hquiet⟩ :=
    changeFor_of_heard h hj hrunning asker .cancelling [.completeCancel id asker]
  rw [← hfirst] at hagenda hcancelling
  by_cases hnone : errands = []
  · rw [hnone] at hagenda
    obtain ⟨job', hj', hstatus⟩ := hasStatus_iff.mp hcancelling
    refine ⟨0, _, .refl _, hagenda, fun _ => ?_⟩
    rw [isDone_eq hj', hstatus]
    rfl
  · obtain ⟨k, v, hv, hlast⟩ := reaches_rest hbound (hagenda.trans (List.append_assoc ..)) hplain
    exact ⟨k, v, hv, hlast, fun hwaits => absurd (hquiet hwaits) hnone⟩

theorem runs_cancelled (h : v.Heard id) {asker : Asker} {rest : List Errand} {bound : Nat}
    (ha : v.agenda = .completeCancel id asker :: rest) (hrunning : v.isDone id = false)
    (hbound : ∀ n, (runFor n v).changeCount ≤ bound) :
    ∃ (k : Nat) (y : Jobs), Runs k v (y.conclude asker (.ok ())) ∧ y.agenda = rest ∧
      y.hasStatus id .cancelled = true := by
  have htaken : ({ v with agenda := rest } : Jobs).Heard id := h
  obtain ⟨f, hf, -⟩ := h
  obtain ⟨job, hj, -⟩ := Option.map_eq_some_iff.mp hf
  have hjob : job.status.isDone = false := isDone_eq hj ▸ hrunning
  -- what is done for `completeCancel`: the second change, and whatever the callbacks do with it
  let x := ({ v with agenda := rest } : Jobs).changeFor asker id .cancelled .empty [.report asker]
  have hsecond : Runs 1 v x := runs_errand ha
  obtain ⟨errands, hagenda, hplain, hcancelled, -⟩ :=
    changeFor_of_heard htaken hj hjob asker .cancelled [.report asker]
  have hbound' : ∀ n, (runFor n x).changeCount ≤ bound := fun n => hsecond n ▸ hbound (n + 1)
  obtain ⟨k, y, hy, hlast⟩ := reaches_rest hbound' (hagenda.trans (List.append_assoc ..)) hplain
  have hreport := runs_errand hlast
  refine ⟨1 + k + 1, { y with agenda := rest }, (hsecond.trans hy).trans hreport, rfl, ?_⟩
  exact hy.leads.hasStatus hcancelled rfl

theorem runs_refused {asker : Asker} {rest : List Errand} {s : JobStatus}
    (ha : v.agenda = .completeCancel id asker :: rest) (h : v.hasStatus id s = true) (hs : s.isDone = true) :
    Runs 1 v (({ v with agenda := rest } : Jobs).conclude asker (.error (.alreadyDone s .cancelled))) := by
  have hsecond := runs_errand ha
  have hsame : ({ v with agenda := rest } : Jobs).hasStatus id s = true := h
  have hrefused := changeFor_of_done hsame hs asker .cancelled .empty [.report asker]
  rw [← hrefused]
  exact hsecond

theorem ask_of_runs {act : Act} {y : Jobs} {result : Except JobError Unit}
    (h : Runs k (w.perform .caller id act) (y.conclude .caller result)) (hidle : y.agenda = [])
    (hend : (w.ask id act).1.agenda = []) : w.ask id act = ({ y with answer := result }, result) := by
  have hrun : (w.perform .caller id act).run = { y with answer := result } := runFor_eq_of_ends h hidle hend
  rw [ask, hrun]

/-- What comes of a cancellation. A job that is done is left as it is, and that is no error. Another one, if
its replies are taken and statuses change only so many times, is cancelling until all callbacks have been
called with that. If they left it undone, and they do if they have to wait or have nothing to be called with,
it is cancelled then, and that is no error. If one of them ended it, it stays as it is, and the answer is an
error. Either way it is done. -/
theorem cancel_outcome (hj : w.job? id = some job) (asker : Asker) :
    let u := w.perform asker id .cancel
    (job.status.isDone = true → u = w.conclude asker (.ok ()) ∧ w.OnlyAnswers u ∧
      (w.agenda = [] → w.ask id .cancel = ({ w with answer := .ok () }, .ok ()))) ∧
    (job.status.isDone = false → (∀ i, job.writer = some i → w.Takes i) →
      (∃ bound, ∀ n, (runFor n u).changeCount ≤ bound) →
      ∃ (k : Nat) (v : Jobs), Runs k u v ∧ v.agenda = .completeCancel id asker :: w.agenda ∧
        (job.isNotifying = true ∨ job.status = .cancelling → v.isDone id = false) ∧
        ((v.isDone id = false ∧ ∃ (n : Nat) (y : Jobs), Runs n u (y.conclude asker (.ok ())) ∧
            y.agenda = w.agenda ∧ y.hasStatus id .cancelled = true ∧
            (asker = .caller → w.agenda = [] → (w.ask id .cancel).1.agenda = [] →
              w.ask id .cancel = ({ y with answer := .ok () }, .ok ()))) ∨
          ∃ (s : JobStatus), s.isDone = true ∧ v.hasStatus id s = true ∧
            let y := { v with agenda := w.agenda }
            let e := JobError.alreadyDone s .cancelled
            Runs (k + 1) u (y.conclude asker (.error e)) ∧
            (asker = .caller → w.agenda = [] → (w.ask id .cancel).1.agenda = [] →
              w.ask id .cancel = ({ y with answer := .error e }, .error e)))) := by
  intro u
  refine ⟨fun hdone => ?_, fun hrunning htakes hbound => ?_⟩
  · have hfinal := isFinal_of_done (hasStatus_iff.mpr ⟨job, hj, rfl⟩) hdone
    obtain ⟨hcancel, honly⟩ := hfinal.cancel asker
    exact ⟨hcancel, honly, fun hidle => ask_of_perform hidle (hfinal.cancel .caller).1⟩
  · obtain ⟨bound, hbound⟩ := hbound
    have hheard := heard_of_job hj htakes
    obtain ⟨k, v, hv, hlast, hundone⟩ := reaches_second hheard hj hrunning asker hbound
    refine ⟨k, v, hv, hlast, hundone, ?_⟩
    cases hdone : v.isDone id with
    | false =>
      have hvheard : v.Heard id := hv.runFor_eq ▸ (hheard.obeys (obeys_perform w asker id .cancel)).runFor k
      obtain ⟨n, y, hn, hy, hcancelled⟩ := runs_cancelled hvheard hlast hdone fun n => hv n ▸ hbound (n + k)
      refine .inl ⟨rfl, k + n, y, hv.trans hn, hy, hcancelled, ?_⟩
      rintro rfl hidle hend
      exact ask_of_runs (hv.trans hn) (hy.trans hidle) hend
    | true =>
      obtain ⟨job', hj', hs⟩ : ∃ job', v.job? id = some job' ∧ job'.status.isDone = true := by
        simpa [isDone, Option.any_eq_true] using hdone
      have hstatus := hasStatus_iff.mpr ⟨job', hj', rfl⟩
      have hn := hv.trans (runs_refused hlast hstatus hs)
      refine .inr ⟨job'.status, hs, hstatus, hn, ?_⟩
      rintro rfl hidle hend
      exact ask_of_runs hn hidle hend

end

/-- A callback sets a job running again that is cancelling, and the job is cancelled all the same; to cancel
it once more changes nothing. -/
theorem cancel_outcome_revived : ∃ w : Jobs, w.hasStatus 0 .ready = true ∧
    (w.ask 0 .cancel).1.hasStatus 0 .cancelled = true ∧ (w.ask 0 .cancel).2 = .ok () ∧
    ((w.ask 0 .cancel).1.ask 0 .cancel).2 = .ok () := by
  let again : Reaction := ⟨"x", some .cancelling, "set", .ok (.set .running .empty)⟩
  let b : Blueprint := ⟨⟨"a.b", 7, "act", "", "text", none⟩, some .channel, [.scripted "watch" [again]], false,
    none⟩
  let w := ((empty true).add b).hold "x" 0
  have hends : (runFor 20 (w.perform .caller 0 .cancel)).agenda = [] := List.isEmpty_iff.mp (by decide)
  have hidle : (w.ask 0 .cancel).1.agenda = [] := List.isEmpty_iff.mp (by decide)
  have hok : (w.ask 0 .cancel).2 = .ok () := by decide
  have htakes : w.Takes 0 := ⟨.channel, rfl, rfl⟩
  obtain ⟨k, v, -, -, -, ⟨-, n, y, -, -, hcancelled, hask⟩ | ⟨s, -, -, -, hask⟩⟩ :=
    (cancel_outcome (rfl : w.job? 0 = some _) .caller).2 rfl (fun i hi => by cases hi; exact htakes)
      ⟨_, changeCount_le_of_ends hends⟩
  · have hafter : (w.ask 0 .cancel).1.hasStatus 0 .cancelled = true := by
      rw [hask rfl rfl hidle]
      exact hcancelled
    obtain ⟨job, hj, hstatus⟩ := hasStatus_iff.mp hafter
    refine ⟨w, by decide, hafter, hok, ?_⟩
    rw [((cancel_outcome hj .caller).1 (by rw [hstatus]; rfl)).2.2 hidle]
  · cases hok.symm.trans (congrArg Prod.snd (hask rfl rfl hidle))

/-- A callback cancels a job that is being cancelled, and the first who cancelled it is told that it could
not be done. -/
theorem cancel_refused_when_cancelled :
    let again : Reaction := ⟨"x", some .cancelling, "cancel", .ok .cancel⟩
    let b : Blueprint := ⟨⟨"a.b", 7, "act", "", "text", none⟩, some (.log none), [.scripted "w" [again]], false,
      none⟩
    let w := ((empty true).add b).hold "x" 0
    w.isDone 0 = false ∧ w.Takes 0 ∧ w.agenda = [] ∧ (w.ask 0 .cancel).1.agenda = [] ∧
      (w.ask 0 .cancel).2 = .error (.alreadyDone .cancelled .cancelled) := by
  refine ⟨by decide, ⟨.log none, rfl, rfl⟩, rfl, ?_, ?_⟩
  · exact List.isEmpty_iff.mp (by decide)
  · decide

end ActorHub.Jobs
