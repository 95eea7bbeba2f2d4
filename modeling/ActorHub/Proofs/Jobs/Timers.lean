import ActorHub.Proofs.Jobs.Effects
import ActorHub.Proofs.Jobs.Final
import ActorHub.Proofs.Jobs.Schedule

/-!
# Timers

A job that is built with a timeout is done in time (`timer_discipline`). Until then its timer is armed for the
moment that was set when it was built (`Timed`): a change to a status that is done disarms it, and no
millisecond passes before everything that is due has been done. If the timer goes off it makes the change
itself, since nothing stands in the way of a job whose writer takes what it writes.
-/

namespace ActorHub.Jobs

/-! ## Clock and writers -/

def Takes (w : Jobs) (i : WriterId) : Prop :=
  ∃ x, w.writers[i]? = some x ∧ x.accept = .ok x

section
variable {asked : Option (JobId × Act)} {w w' : Jobs} {id i : JobId} {n : WriterId} {code : Char} {act : Act}

theorem Quiet.takes (h : Quiet w w') (hw : w.Takes n) : w'.Takes n := by
  obtain ⟨x, hx, haccept⟩ := hw
  exact ⟨x, getElem?_of_isPrefix h.writers hx, haccept⟩

theorem Says.now (h : Says w i code w') : w'.now = w.now := by
  cases h <;> rfl

theorem Says.takes (h : Says w i code w') (hw : w.Takes n) : w'.Takes n := by
  cases h with
  | nothing => exact hw
  | @reply job writer keywords reply state state' hj hwriter hreply hstate haccept =>
    obtain ⟨x, hx, hsame⟩ := hw
    refine ⟨x, ?_, hsame⟩
    change (w.writers.set writer state')[n]? = some x
    rw [List.getElem?_set]
    split
    · next heq =>
      subst heq
      obtain rfl := Option.some.inj (hx.symm.trans hstate)
      obtain rfl := Except.ok.inj (hsame.symm.trans haccept)
      obtain ⟨hlt, -⟩ := List.getElem?_eq_some_iff.mp hx
      rw [if_pos hlt]
    · exact hx

theorem record_keeps (w : Jobs) (status : JobStatus) :
    (w.record i status).1.now = w.now ∧ (w.record i status).1.writers = w.writers := by
  have hwindUp : ∀ v : Jobs, (v.windUp i).now = v.now ∧ (v.windUp i).writers = v.writers := by
    intro v
    unfold windUp
    dsimp only
    split <;> exact ⟨rfl, rfl⟩
  rw [record_fst]
  split
  · exact hwindUp _
  · exact ⟨rfl, rfl⟩

theorem Obeys.now (h : Obeys asked w w') : w'.now = w.now := by
  have heffect : ∀ {u u' : Jobs} {i act}, Effect u i act u' → u'.now = u.now := by
    intro u u' i act h
    cases h with
    | write h => exact h.now
    | change _ _ _ _ h => exact (record_keeps _ _).1.trans h.now
  obtain h | ⟨i, act, u, u', -, hu, he, hw⟩ := h
  · exact h.now
  · rw [hw.now, heffect he, hu.now]

theorem Obeys.takes (h : Obeys asked w w') (hw : w.Takes n) : w'.Takes n := by
  have heffect : ∀ {u u' : Jobs} {i act}, Effect u i act u' → u.Takes n → u'.Takes n := by
    intro u u' i act h hu
    cases h with
    | write h => exact h.takes hu
    | change _ _ _ _ h =>
      obtain ⟨x, hx, haccept⟩ := h.takes hu
      exact ⟨x, by rw [(record_keeps _ _).2, hx], haccept⟩
  obtain h | ⟨i, act, u, u', -, hu, he, hlast⟩ := h
  · exact h.takes hw
  · exact hlast.takes (heffect he (hu.takes hw))

theorem takes_run (d : Deed) (hw : w.Takes n) : (d.run w).Takes n := by
  refine (obeys_run w d).takes ?_
  cases d with
  | due d => cases d <;> exact hw
  | _ => exact hw

theorem now_run (w : Jobs) {d : Deed} (hd : d ≠ .tick) : (d.run w).now = w.now := by
  rw [(obeys_run w d).now]
  cases d with
  | due d => cases d <;> rfl
  | tick => exact absurd rfl hd
  | _ => rfl

end

/-! ## Going off -/

section
variable {w : Jobs} {id : JobId} {job : Job} {f : Face} {deadline : Nat}

def timer? (w : Jobs) (id : JobId) : Option Nat :=
  (w.job? id).bind (·.timer)

theorem isDone_of_face (hf : w.face? id = some f) : w.isDone id = f.status.isDone := by
  obtain ⟨job, hj, rfl⟩ := Option.map_eq_some_iff.mp hf
  exact isDone_eq hj

theorem hasStatus_of_face (hf : w.face? id = some f) : w.hasStatus id f.status = true := by
  obtain ⟨job, hj, rfl⟩ := Option.map_eq_some_iff.mp hf
  exact hasStatus_iff.mpr ⟨job, hj, rfl⟩

theorem timer_of_face (hf : w.face? id = some f) : w.timer? id = f.timer := by
  obtain ⟨job, hj, rfl⟩ := Option.map_eq_some_iff.mp hf
  rw [timer?, hj]
  rfl

theorem mem_due_timer : Due.timer id ∈ w.due ↔ ∃ t, w.timer? id = some t ∧ t ≤ w.now := by
  have hlt : ∀ t, w.timer? id = some t → id < w.jobs.length := by
    intro t ht
    obtain ⟨job, hj, -⟩ := Option.bind_eq_some_iff.mp ht
    exact (List.getElem?_eq_some_iff.mp hj).1
  simp only [due, List.mem_append, List.mem_map, List.mem_filter, List.mem_range, reduceCtorEq, and_false,
    exists_false, false_or, Due.timer.injEq, exists_eq_right, Option.any_eq_true, decide_eq_true_eq]
  exact ⟨fun h => h.2, fun h => ⟨h.elim fun t ht => hlt t ht.1, h⟩⟩

theorem timeOut_of_unarmed (h : w.timer? id = none) : w.timeOut id = w := by
  rw [timeOut, ← timer?, h]

theorem announce_of_takes (hj : w.job? id = some job) (htakes : ∀ i, job.writer = some i → w.Takes i)
    (status : JobStatus) : ∃ v, w.announce id status .empty = .ok v := by
  unfold announce
  rw [hj]
  dsimp only [Option.bind_some]
  cases hwriter : job.writer with
  | none => exact ⟨w, rfl⟩
  | some i =>
    obtain ⟨x, hx, haccept⟩ := htakes i hwriter
    unfold write
    rw [hj]
    dsimp only
    rw [hwriter]
    simp only [Content.toKeywords, Except.mapError, bind, Except.bind]
    split
    · exact ⟨_, rfl⟩
    · rw [hx]
      simp only [haccept]
      exact ⟨_, rfl⟩

theorem begin_of_armed (hf : w.face? id = some f) (hrunning : f.status.isDone = false)
    (htimer : f.timer = some deadline) (htakes : ∀ i, f.writer = some i → w.Takes i)
    (hheld : w.isHeld id = true) : (w.begin (.timer id)).face? id = some (f.change .timedOut) ∧
      (w.begin (.timer id)).changes id = w.changes id ++ [.timedOut] := by
  obtain ⟨job, hj, rfl⟩ := Option.map_eq_some_iff.mp hf
  let v := w.updateJob id fun job => { job with timer := none }
  have hv : v.job? id = some { job with timer := none } := by
    rw [job?_updateJob, if_pos rfl, hj]
    rfl
  have hdone : job.status.isDone = false := hrunning
  have hne : job.status ≠ .timedOut := by
    intro hs
    rw [hs] at hdone
    cases hdone
  obtain ⟨x, hx⟩ := announce_of_takes hv htakes .timedOut
  have hset : v.setStatus id .timedOut .empty = .ok (x.record id .timedOut) := by
    simp only [setStatus, hv, hdone, Bool.false_eq_true, if_false, hne, hx]
    rfl
  have hbegin : ∃ errands, w.begin (.timer id) = (x.record id .timedOut).1.push errands := by
    have hjob : (w.job? id).bind (·.timer) = some deadline := by rwa [hj, Option.bind_some]
    refine ⟨(x.record id .timedOut).2 ++ [.report .nobody], ?_⟩
    simp only [begin, timeOut, hjob, hheld, if_true, perform, changeFor]
    rw [hset]
  obtain ⟨errands, hbegin⟩ := hbegin
  have hsays := says_announce hx
  rw [hbegin]
  constructor
  · change (x.record id .timedOut).1.face? id = _
    rw [face?_record, if_pos rfl, face?_of_jobs hsays.jobs, face?_of_job hv]
    rfl
  · change (x.record id .timedOut).1.changes id = _
    rw [changes_record, if_pos rfl, hsays.changes]
    rfl

end

/-! ## In time -/

/-- The timer of a job is armed as long as the job is not done, and time is not up. -/
structure Timed (id : JobId) (deadline : Nat) (w : Jobs) (f : Face) : Prop where
  face : w.face? id = some f
  disarmed : f.status.isDone = true → f.timer = none
  armed : f.status.isDone = false → f.timer = some deadline ∧ w.now ≤ deadline
  takes : ∀ i, f.writer = some i → w.Takes i

def IsTimed (id : JobId) (deadline : Nat) (w : Jobs) : Prop :=
  ∃ f, Timed id deadline w f

/-- The job is not dropped before its timer goes off. -/
def Deed.Holds (id : JobId) (w : Jobs) (d : Deed) : Prop :=
  d.isTimer id = true → w.isHeld id = true ∨ w.isDone id = true

/-- Time does not run ahead of the timer, nor the timer of time. -/
structure Deed.Timely (id : JobId) (deadline : Nat) (w : Jobs) (d : Deed) : Prop where
  tick : d = .tick → w.isDone id = true ∨ w.now < deadline
  timer : d.isTimer id = true → w.isDone id = true ∨ deadline ≤ w.now

section
variable {id : JobId} {deadline : Nat} {w : Jobs} {f : Face} {d : Deed} {ds : List Deed}

theorem Timed.timer_none (h : Timed id deadline w f) (hdone : w.isDone id = true) : w.timer? id = none := by
  rw [timer_of_face h.face]
  exact h.disarmed (by rwa [← isDone_of_face h.face])

theorem Timed.begin_of_done (h : Timed id deadline w f) (hdone : w.isDone id = true) :
    w.begin (.timer id) = w :=
  timeOut_of_unarmed (h.timer_none hdone)

theorem Timed.mem_due (h : Timed id deadline w f) :
    .timer id ∈ w.due ↔ w.isDone id = false ∧ deadline ≤ w.now := by
  rw [mem_due_timer, timer_of_face h.face, isDone_of_face h.face]
  cases hdone : f.status.isDone with
  | true => simp [h.disarmed hdone]
  | false => simp [(h.armed hdone).1]

theorem Timed.begin_of_running (h : Timed id deadline w f) (hrunning : w.isDone id = false)
    (hheld : w.isHeld id = true) : (w.begin (.timer id)).face? id = some (f.change .timedOut) ∧
      (w.begin (.timer id)).changes id = w.changes id ++ [.timedOut] := by
  rw [isDone_of_face h.face] at hrunning
  exact begin_of_armed h.face hrunning (h.armed hrunning).1 h.takes hheld

theorem Timed.begin (h : Timed id deadline w f) (hheld : w.isHeld id = true ∨ w.isDone id = true) :
    IsTimed id deadline (w.begin (.timer id)) ∧ (w.begin (.timer id)).isDone id = true := by
  by_cases hdone : w.isDone id = true
  · rw [h.begin_of_done hdone]
    exact ⟨⟨f, h⟩, hdone⟩
  · obtain ⟨hface, -⟩ := h.begin_of_running (by simpa using hdone) (hheld.resolve_right hdone)
    refine ⟨⟨f.change .timedOut, hface, fun _ => rfl, nofun, fun i hi => ?_⟩, isDone_of_face hface⟩
    exact takes_run (.due (.timer id)) (h.takes i hi)

theorem Timed.run_of_not_timer (h : Timed id deadline w f) (hd : d.isTimer id = false)
    (htimely : d = .tick → w.isDone id = true ∨ w.now < deadline) : IsTimed id deadline (d.run w) := by
  have hnow : f.status.isDone = false → (d.run w).now ≤ deadline := by
    intro hrunning
    by_cases htick : d = .tick
    · rw [isDone_of_face h.face, hrunning] at htimely
      rw [htick]
      exact (htimely htick).resolve_left nofun
    · rw [now_run w htick]
      exact (h.armed hrunning).2
  obtain ⟨f', changes, hf', -, hturn⟩ := turn_run d h.face
  rw [hd, if_neg Bool.false_ne_true] at hturn
  cases hturn with
  | stays =>
    exact ⟨f, hf', h.disarmed, fun hrunning => ⟨(h.armed hrunning).1, hnow hrunning⟩,
      fun i hi => takes_run d (h.takes i hi)⟩
  | @changes _ status _ _ _ hrunning =>
    refine ⟨f.change status, hf', fun hdone => if_pos hdone, fun hstill => ⟨?_, hnow hrunning⟩,
      fun i hi => takes_run d (h.takes i hi)⟩
    have hstill : status.isDone = false := hstill
    rw [Face.change, hstill]
    exact (h.armed hrunning).1

theorem eq_due_of_isTimer (hd : d.isTimer id = true) : d = .due (.timer id) := by
  cases d with
  | due d =>
    cases d with
    | operation => cases hd
    | timer i => rw [beq_iff_eq.mp hd]
  | _ => cases hd

theorem IsTimed.run (h : IsTimed id deadline w) (hheld : Deed.Holds id w d) (htimely : Deed.Timely id deadline w d) :
    IsTimed id deadline (d.run w) := by
  obtain ⟨f, h⟩ := h
  cases hd : d.isTimer id with
  | true =>
    obtain rfl := eq_due_of_isTimer hd
    exact (h.begin (hheld hd)).1
  | false => exact h.run_of_not_timer hd htimely.tick

theorem IsTimed.foldl (h : IsTimed id deadline w) (hheld : Along (Deed.Holds id) w ds)
    (htimely : Along (Deed.Timely id deadline) w ds) : IsTimed id deadline (ds.foldl Deed.run w) := by
  induction ds generalizing w with
  | nil => exact h
  | cons d ds ih => exact ih (h.run hheld.1 htimely.1) hheld.2 htimely.2

theorem face?_run_of_done (hf : w.face? id = some f) (hdone : f.status.isDone = true) (d : Deed) :
    ∃ f', (d.run w).face? id = some f' ∧ f'.status = f.status ∧ (d.run w).changes id = w.changes id := by
  obtain ⟨f', changes, hf', hchanges, hturn⟩ := turn_run d hf
  have hstatus : (if d.isTimer id then { f with timer := none } else f).status = f.status := by
    split <;> rfl
  cases hturn with
  | stays => exact ⟨_, hf', hstatus, by rw [hchanges, List.append_nil]⟩
  | changes _ _ hrunning =>
    rw [hstatus, hdone] at hrunning
    cases hrunning

theorem isDone_run (h : w.isDone id = true) (d : Deed) : (d.run w).isDone id = true := by
  obtain ⟨job, hj, hdone⟩ := Option.any_eq_true _ _ |>.mp h
  obtain ⟨f', hf', hstatus, -⟩ := face?_run_of_done (face?_of_job hj) hdone d
  rw [isDone_of_face hf', hstatus]
  exact hdone

theorem isDone_foldl (h : w.isDone id = true) (ds : List Deed) : (ds.foldl Deed.run w).isDone id = true := by
  induction ds generalizing w with
  | nil => exact h
  | cons d ds ih => exact ih (isDone_run h d)

theorem now_foldl (h : ∀ d ∈ ds, d ≠ .tick) : (ds.foldl Deed.run w).now = w.now := by
  induction ds generalizing w with
  | nil => rfl
  | cons d ds ih =>
    obtain ⟨hd, hds⟩ := List.forall_mem_cons.mp h
    rw [List.foldl_cons, ih hds, now_run w hd]

end

/-! ## Schedules -/

section
variable {id : JobId} {deadline : Nat} {w : Jobs} {d : Deed} {ds : List Deed} {due : List Due}

theorem mem_errands (h : d ∈ w.errands) : d = .errand := by
  have hall : ∀ n w, d ∈ errandsFor n w → d = .errand := by
    intro n
    induction n with
    | zero => exact fun _ => nofun
    | succ n ih =>
      intro w hd
      unfold errandsFor at hd
      split at hd
      · exact (List.mem_cons.mp hd).elim (fun heq => heq) (ih _)
      · cases hd
  exact hall errandLimit w h

theorem ne_tick_of_mem_settling (h : d ∈ settling due w) : d ≠ .tick := by
  induction due generalizing w with
  | nil => cases h
  | cons x due ih =>
    rw [settling, List.mem_append, List.mem_cons] at h
    obtain (rfl | h) | h := h
    · simp
    · simp [mem_errands h]
    · exact ih h

theorem Deed.Timely.of_calm (htick : d ≠ .tick) (htimer : d.isTimer id = false) :
    Deed.Timely id deadline w d :=
  ⟨fun heq => absurd heq htick, fun heq => absurd heq (by simp [htimer])⟩

theorem timely_of_calm (h : ∀ d ∈ ds, d ≠ .tick ∧ d.isTimer id = false) :
    Along (Deed.Timely id deadline) w ds := by
  refine along_of_forall fun earlier d hd => ?_
  obtain ⟨htick, htimer⟩ := h d (hd.subset (List.mem_append_right _ List.mem_cons_self))
  exact .of_calm htick htimer

theorem timely_errands (w : Jobs) : Along (Deed.Timely id deadline) w w.errands :=
  timely_of_calm fun _ hd => mem_errands hd ▸ ⟨nofun, rfl⟩

def InTime (id : JobId) (deadline : Nat) (w : Jobs) : Prop :=
  w.isDone id = true ∨ w.now < deadline

theorem IsTimed.begin {x : Due} (h : IsTimed id deadline w)
    (hheld : Along (Deed.Holds id) w (.due x :: (w.begin x).errands))
    (hdue : x = .timer id → w.isDone id = true ∨ deadline ≤ w.now) :
    Along (Deed.Timely id deadline) w (.due x :: (w.begin x).errands) ∧
      IsTimed id deadline (w.begin x).run ∧ (w.begin x).run.now = w.now ∧
      (x = .timer id → (w.begin x).run.isDone id = true) := by
  have htimely : Along (Deed.Timely id deadline) w (.due x :: (w.begin x).errands) := by
    refine ⟨⟨nofun, fun hd => hdue ?_⟩, timely_errands _⟩
    cases eq_due_of_isTimer hd
    rfl
  have hrun := h.foldl hheld htimely
  rw [foldl_due] at hrun
  refine ⟨htimely, hrun, ?_, ?_⟩
  · rw [← foldl_due]
    refine now_foldl (List.forall_mem_cons.mpr ⟨by simp, fun d hd => ?_⟩)
    simp [mem_errands hd]
  · rintro rfl
    obtain ⟨f, hf⟩ := h
    obtain ⟨-, hdone⟩ := hf.begin (hheld.1 (beq_self_eq_true id))
    rw [← foldl_errands]
    exact isDone_foldl hdone _

theorem IsTimed.settling (h : IsTimed id deadline w) (hheld : Along (Deed.Holds id) w (settling due w))
    (hdue : .timer id ∈ due → w.isDone id = true ∨ deadline ≤ w.now) :
    Along (Deed.Timely id deadline) w (settling due w) ∧
      (.timer id ∈ due → ((settling due w).foldl Deed.run w).isDone id = true) := by
  induction due generalizing w with
  | nil => exact ⟨trivial, nofun⟩
  | cons x due ih =>
    rw [Jobs.settling, along_append, foldl_due] at hheld
    obtain ⟨hfront, hrest⟩ := hheld
    obtain ⟨htimely, hu, hnow, hfires⟩ := h.begin hfront fun hx => hdue (hx ▸ List.mem_cons_self)
    obtain ⟨hlater, hfired⟩ := ih hu hrest fun hmem => by
      -- once done it stays done, and no time passes meanwhile
      refine (hdue (List.mem_cons_of_mem x hmem)).imp (fun hdone => ?_) fun hup => by rwa [hnow]
      rw [← foldl_due]
      exact isDone_foldl hdone _
    rw [foldl_settling_cons, Jobs.settling, along_append, foldl_due]
    refine ⟨⟨htimely, hlater⟩, fun hmem => ?_⟩
    obtain hx | hmem := List.mem_cons.mp hmem
    · exact isDone_foldl (hfires hx.symm) _
    · exact hfired hmem

theorem IsTimed.settle (h : IsTimed id deadline w) (hheld : Along (Deed.Holds id) w (Jobs.settling w.due w)) :
    Along (Deed.Timely id deadline) w (Jobs.settling w.due w) ∧ IsTimed id deadline w.settle ∧
      InTime id deadline w.settle := by
  have hfold : (Jobs.settling w.due w).foldl Deed.run w = w.settle := foldl_settling _ w
  have hnow : w.settle.now = w.now := hfold ▸ now_foldl fun _ => ne_tick_of_mem_settling
  obtain ⟨f, hf⟩ := h
  obtain ⟨htimely, hfired⟩ := IsTimed.settling ⟨f, hf⟩ hheld fun hmem => .inr (hf.mem_due.mp hmem).2
  rw [hfold] at hfired
  refine ⟨htimely, hfold ▸ IsTimed.foldl ⟨f, hf⟩ hheld htimely, ?_⟩
  rw [InTime, hnow]
  by_cases hup : .timer id ∈ w.due
  · exact .inl (hfired hup)
  · rw [hf.mem_due, not_and_or, Bool.not_eq_false, not_le] at hup
    exact hup.imp (fun hdone => hfold ▸ isDone_foldl hdone _) fun hlt => hlt

theorem IsTimed.tick (h : IsTimed id deadline w) (hin : InTime id deadline w)
    (hheld : Along (Deed.Holds id) w w.ticking) : Along (Deed.Timely id deadline) w w.ticking ∧
      IsTimed id deadline w.tick ∧ InTime id deadline w.tick := by
  unfold ticking at hheld ⊢
  unfold Jobs.tick
  split
  · next hclock =>
    rw [if_pos hclock] at hheld
    have htick : Deed.Timely id deadline w .tick := ⟨fun _ => hin, nofun⟩
    obtain ⟨htimely, hsettled⟩ := (h.run hheld.1 htick).settle hheld.2
    exact ⟨⟨htick, htimely⟩, hsettled⟩
  · exact ⟨trivial, h, hin⟩

theorem IsTimed.waitFor {p : Jobs → Bool} {n : Nat} (h : IsTimed id deadline w) (hin : InTime id deadline w)
    (hheld : Along (Deed.Holds id) w (waitingFor p n w)) :
    Along (Deed.Timely id deadline) w (waitingFor p n w) := by
  induction n generalizing w with
  | zero => trivial
  | succ n ih =>
    unfold waitingFor at hheld ⊢
    split
    · trivial
    · next hp =>
      rw [if_neg hp, along_append, foldl_ticking] at hheld
      obtain ⟨htimely, ht, hin⟩ := h.tick hin hheld.1
      rw [along_append, foldl_ticking]
      exact ⟨htimely, ih ht hin hheld.2⟩

theorem IsTimed.waiting {p : Jobs → Bool} {n : Nat} (h : IsTimed id deadline w)
    (hheld : Along (Deed.Holds id) w (w.waiting p n)) :
    Along (Deed.Timely id deadline) w (w.waiting p n) := by
  have hfold : (Jobs.settling w.due w).foldl Deed.run w = w.settle := foldl_settling _ w
  rw [Jobs.waiting, along_append, hfold] at hheld ⊢
  obtain ⟨htimely, ht, hin⟩ := h.settle hheld.1
  exact ⟨htimely, ht.waitFor hin hheld.2⟩

theorem IsTimed.op {op : Op} (h : IsTimed id deadline w) (hheld : Along (Deed.Holds id) w (op.deeds w)) :
    Along (Deed.Timely id deadline) w (op.deeds w) := by
  cases op with
  | ask i act => exact ⟨.of_calm (by simp) rfl, timely_errands _⟩
  | spawn i script =>
    rw [Op.deeds]
    split
    · exact ⟨.of_calm (by simp) rfl, timely_errands _⟩
    · trivial
  | build b =>
    rw [Op.deeds]
    split
    · trivial
    · exact ⟨.of_calm (by simp) rfl, timely_errands _⟩
  | advance n =>
    rw [Op.deeds] at hheld ⊢
    split
    · next hclock =>
      rw [if_pos hclock] at hheld
      exact h.waiting hheld
    · trivial
  | awaitDone i limit => exact h.waiting hheld
  | awaitStatus i status limit => exact h.waiting hheld
  | _ => exact ⟨.of_calm (by simp) rfl, trivial⟩

theorem IsTimed.trace {ops : List Op} (h : IsTimed id deadline w)
    (hheld : Along (Deed.Holds id) w (trace w ops)) : Along (Deed.Timely id deadline) w (trace w ops) := by
  induction ops generalizing w with
  | nil => trivial
  | cons op ops ih =>
    rw [Jobs.trace, along_append, foldl_deeds] at hheld ⊢
    have htimely := h.op hheld.1
    have hrun := h.foldl hheld.1 htimely
    rw [foldl_deeds] at hrun
    exact ⟨htimely, ih hrun hheld.2⟩

theorem exists_face_foldl {f : Face} (hf : w.face? id = some f) (ds : List Deed) :
    ∃ f', (ds.foldl Deed.run w).face? id = some f' := by
  induction ds generalizing w f with
  | nil => exact ⟨f, hf⟩
  | cons d ds ih =>
    obtain ⟨f', -, hf', -⟩ := turn_run d hf
    exact ih hf'

/-- What made a job done: its timer when the time was up, or somebody who asked for it. -/
def Finishes (id : JobId) (deadline : Nat) (w : Jobs) (d : Deed) (status : JobStatus) : Prop :=
  (d = .due (.timer id) ∧ status = .timedOut ∧ deadline ≤ w.now) ∨
    (d ≠ .due (.timer id) ∧ ∃ act content, d.act? w = some (id, act) ∧ act.change? = some (status, content))

theorem finishes_of_run {f : Face} (hf : w.face? id = some f) (hrunning : w.isDone id = false)
    (hdone : (d.run w).isDone id = true) (htimely : Deed.Timely id deadline w d) :
    ∃ s, s.isDone = true ∧ (d.run w).hasStatus id s = true ∧ (d.run w).changes id = w.changes id ++ [s] ∧
      Finishes id deadline w d s := by
  obtain ⟨f', changes, hf', hchanges, hturn⟩ := turn_run d hf
  rw [isDone_of_face hf'] at hdone
  have hstatus := hasStatus_of_face hf'
  cases hturn with
  | stays =>
    have hsame : (if d.isTimer id then { f with timer := none } else f).status = f.status := by
      split <;> rfl
    rw [hsame, ← isDone_of_face hf, hrunning] at hdone
    cases hdone
  | @changes act s content hasked hact =>
    refine ⟨s, hdone, hstatus, hchanges, ?_⟩
    by_cases hd : d.isTimer id = true
    · have hup := (htimely.timer hd).resolve_left (by simp [hrunning])
      obtain rfl := eq_due_of_isTimer hd
      cases hasked
      cases hact
      exact .inl ⟨rfl, rfl, hup⟩
    · refine .inr ⟨?_, act, content, hasked, hact⟩
      rintro rfl
      exact hd (beq_self_eq_true id)

theorem exists_finish {f : Face} (hf : w.face? id = some f) (hrunning : w.isDone id = false)
    (hdone : (ds.foldl Deed.run w).isDone id = true) (htimely : Along (Deed.Timely id deadline) w ds) :
    ∃ before d after s, ds = before ++ d :: after ∧ s.isDone = true ∧
      (before.foldl Deed.run w).isDone id = false ∧ Finishes id deadline (before.foldl Deed.run w) d s ∧
      (ds.foldl Deed.run w).hasStatus id s = true ∧
      (ds.foldl Deed.run w).changes id = (before.foldl Deed.run w).changes id ++ [s] := by
  -- from the last deed: either the job was done before it, or it is the one
  induction ds using List.reverseRecOn with
  | nil =>
    rw [List.foldl_nil, hrunning] at hdone
    cases hdone
  | append_singleton ds d ih =>
    obtain ⟨hbefore, hlast⟩ := along_append.mp htimely
    rw [List.foldl_append, List.foldl_cons, List.foldl_nil] at hdone ⊢
    obtain ⟨g, hg⟩ := exists_face_foldl hf ds
    cases hover : (ds.foldl Deed.run w).isDone id with
    | true =>
      obtain ⟨before, x, after, s, rfl, hs, hnot, hfinish, hstatus, hchanges⟩ := ih hover hbefore
      obtain ⟨f', hf', hsame, hquiet⟩ := face?_run_of_done hg (isDone_of_face hg ▸ hover) d
      have hkept := hasStatus_of_face hf'
      rw [hsame, hasStatus_unique (hasStatus_of_face hg) hstatus] at hkept
      exact ⟨before, x, after ++ [d], s, by simp, hs, hnot, hfinish, hkept, hquiet.trans hchanges⟩
    | false =>
      obtain ⟨s, hs, hstatus, hchanges, hfinish⟩ := finishes_of_run hg hover hdone hlast.1
      exact ⟨ds, d, [], s, rfl, hs, hover, hfinish, hstatus, hchanges⟩

end

/-! ## The life of a timer -/

section
variable {u : Jobs} {b : Blueprint} {id : JobId} {timeout : Nat}

theorem writers_add (u : Jobs) (b : Blueprint) : (u.add b).writers = (u.writerFor b).1.writers := by
  unfold add
  dsimp only
  split <;> rfl

theorem timed_add (htimeout : b.timeout = some timeout)
    (hwriter : ∀ i, (u.writerFor b).2 = some i → (u.writerFor b).1.Takes i) :
    IsTimed u.jobs.length (u.now + timeout) (u.add b) := by
  have hnow : (u.add b).now = u.now := now_run u (d := .add b) nofun
  refine ⟨_, face?_add u b, nofun, fun _ => ⟨by rw [htimeout]; rfl, by omega⟩, fun i hi => ?_⟩
  obtain ⟨x, hx, haccept⟩ := hwriter i hi
  exact ⟨x, by rw [writers_add, hx], haccept⟩

theorem build_eq (hbuilt : (u.build b).2 = .ok id) (ops : List Op) :
    id = u.jobs.length ∧
      trace u (.build b :: ops) = .add b :: ((u.add b).errands ++ trace (u.add b).run ops) := by
  unfold build at hbuilt
  split at hbuilt
  · cases hbuilt
  · next hclock =>
    cases hbuilt
    refine ⟨rfl, ?_⟩
    rw [trace, Op.deeds, if_neg hclock, Op.run, build, if_neg hclock]
    rfl

theorem foldl_of_built (hbuilt : (u.build b).2 = .ok id) (ops : List Op) :
    ((u.add b).errands ++ trace (u.add b).run ops).foldl Deed.run (u.add b) =
      (Op.build b :: ops).foldl Op.run u := by
  rw [← foldl_trace, (build_eq hbuilt ops).2, List.foldl_cons, Deed.run]

end

/-- A job that is built with a timeout, and whose writer takes every reply if there is one, is done at every
moment after the time is up. Once it is done its timer is disarmed, is not due and would do nothing; until
then it is armed for the moment that was set when the job was built, is due from then on, and puts the job
into the last status it is ever in. One deed made the job done: the timer, not before the time was up, or
somebody who asked for a change. The job has to exist when its timer goes off, which means that somebody holds
it. -/
theorem timer_discipline {u : Jobs} {b : Blueprint} {id : JobId} {timeout : Nat} {ops : List Op}
    (htimeout : b.timeout = some timeout) (hbuilt : (u.build b).2 = .ok id)
    (hwriter : ∀ i, (u.writerFor b).2 = some i → (u.writerFor b).1.Takes i)
    (hheld : ∀ earlier, .add b :: earlier ++ [.due (.timer id)] <+: trace u (.build b :: ops) →
      let v := earlier.foldl Deed.run (u.add b)
      v.isHeld id = true ∨ v.isDone id = true) :
    ∀ earlier, .add b :: earlier <+: trace u (.build b :: ops) →
      let v := earlier.foldl Deed.run (u.add b)
      let deadline := u.now + timeout
      (deadline < v.now → v.isDone id = true) ∧
      (v.isDone id = true → v.timer? id = none ∧ .timer id ∉ v.due ∧ v.begin (.timer id) = v) ∧
      (v.isDone id = false → v.timer? id = some deadline ∧ (.timer id ∈ v.due ↔ deadline ≤ v.now) ∧
        (v.isHeld id = true → let w := v.begin (.timer id)
          w.hasStatus id .timedOut = true ∧ w.changes id = v.changes id ++ [.timedOut] ∧
            w.timer? id = none ∧ w.begin (.timer id) = w)) ∧
      (v.isDone id = true → ∃ before d after s, earlier = before ++ d :: after ∧ s.isDone = true ∧
        let x := before.foldl Deed.run (u.add b)
        x.isDone id = false ∧ Finishes id deadline x d s ∧ v.hasStatus id s = true ∧
          v.changes id = x.changes id ++ [s]) := by
  intro earlier hearlier v deadline
  obtain ⟨rfl, htrace⟩ := build_eq hbuilt ops
  rw [htrace] at hheld hearlier
  have hadded := timed_add htimeout hwriter
  have hholds : Along (Deed.Holds u.jobs.length) (u.add b) ((u.add b).errands ++ trace (u.add b).run ops) := by
    refine along_of_forall fun before d hd htimer => hheld before ?_
    rw [← eq_due_of_isTimer htimer]
    exact List.cons_prefix_cons.mpr ⟨rfl, hd⟩
  have htimely : Along (Deed.Timely u.jobs.length deadline) (u.add b)
      ((u.add b).errands ++ trace (u.add b).run ops) := by
    rw [along_append, foldl_errands] at hholds ⊢
    have hrun := hadded.foldl hholds.1 (timely_errands _)
    rw [foldl_errands] at hrun
    exact ⟨timely_errands _, hrun.trace hholds.2⟩
  obtain ⟨-, hbeginning⟩ := List.cons_prefix_cons.mp hearlier
  have hbefore := htimely.of_beginning hbeginning
  obtain ⟨f, hf⟩ : IsTimed u.jobs.length deadline v := hadded.foldl (hholds.of_beginning hbeginning) hbefore
  refine ⟨fun hlate => ?_, fun hdone => ?_, fun hrunning => ?_, fun hdone => ?_⟩
  · by_contra hnot
    rw [Bool.not_eq_true, isDone_of_face hf.face] at hnot
    exact absurd (hf.armed hnot).2 (Nat.not_le.mpr hlate)
  · refine ⟨hf.timer_none hdone, fun hmem => ?_, hf.begin_of_done hdone⟩
    exact absurd (hf.mem_due.mp hmem).1 (by simp [hdone])
  · refine ⟨?_, ?_, fun hheld => ?_⟩
    · rw [timer_of_face hf.face]
      exact (hf.armed (by rwa [← isDone_of_face hf.face])).1
    · rw [hf.mem_due]
      exact and_iff_right hrunning
    · obtain ⟨hface, hchanges⟩ := hf.begin_of_running hrunning hheld
      obtain ⟨⟨g, hg⟩, hover⟩ := hf.begin (.inl hheld)
      exact ⟨hasStatus_of_face hface, hchanges, hg.timer_none hover, hg.begin_of_done hover⟩
  · exact exists_finish (face?_add u b) (isDone_of_face (face?_add u b)) hdone hbefore

/-- The timer of a job that runs goes off between two waits. -/
theorem timer_discipline_late :
    let b : Blueprint := ⟨⟨"me", 1, "actor", "", "text", none⟩, some .channel, [], false, some 5⟩
    let u := empty true
    let ops : List Op := [.hold "x" 0, .ask 0 (.set .running .empty), .advance 3, .advance 3]
    let w := (.build b :: ops).foldl Op.run u
    b.timeout = some 5 ∧ (u.build b).2 = .ok 0 ∧ w.now = 6 ∧ w.isDone 0 = true ∧ w.timer? 0 = none ∧
      ∃ before d after s, trace u (.build b :: ops) = .add b :: (before ++ d :: after) ∧
        Finishes 0 5 (before.foldl Deed.run (u.add b)) d s ∧ w.hasStatus 0 s = true := by
  intro b u ops w
  have hwriter : ∀ i, (u.writerFor b).2 = some i → (u.writerFor b).1.Takes i := by
    intro i hi
    cases hi
    exact ⟨.channel, rfl, rfl⟩
  have hheld : ∀ earlier, .add b :: earlier ++ [.due (.timer 0)] <+: trace u (.build b :: ops) →
      let v := earlier.foldl Deed.run (u.add b)
      v.isHeld 0 = true ∨ v.isDone 0 = true := by
    intro earlier hearlier
    have hall : ∀ e ∈ (trace u (.build b :: ops)).inits, e.getLast?.any (Deed.isTimer 0) = true →
        (e.dropLast.foldl Deed.run u).isHeld 0 = true := by decide +kernel
    have hlast := hall _ ((List.mem_inits _ _).mpr hearlier)
    rw [List.getLast?_concat, List.dropLast_concat] at hlast
    exact .inl (hlast rfl)
  have hbuilt : (u.build b).2 = .ok 0 := rfl
  obtain ⟨-, htrace⟩ := build_eq hbuilt ops
  have hw := foldl_of_built hbuilt ops
  have hnow : w.now = 6 := by decide +kernel
  obtain ⟨hlate, hdone, -, hfinish⟩ :=
    timer_discipline rfl hbuilt hwriter hheld _ ⟨[], (List.append_nil _).trans htrace.symm⟩
  rw [hw] at hlate hdone hfinish
  have hover : w.isDone 0 = true := hlate (by rw [hnow]; decide)
  obtain ⟨before, d, after, s, hsplit, -, -, hcause, hstatus, -⟩ := hfinish hover
  rw [hsplit] at htrace
  exact ⟨rfl, hbuilt, hnow, hover, (hdone hover).1, before, d, after, s, htrace, hcause, hstatus⟩

end ActorHub.Jobs
