import ActorHub.Proofs.Jobs.Rest
import ActorHub.Proofs.Lookup
import ActorHub.Session
import Mathlib.Data.List.Induction

/-!
# Tracking

Which commands a session tracks. A run of a session mixes commands that are sent, lines that come in,
and whatever becomes of the commands in the meantime. Between operations the jobs are at rest, and their
roster agrees with what was sent: under each message id the command sent last is tracked, until it is
done.
-/

namespace ActorHub

namespace Roster

/-- What is tracked is what was sent last under each message id, unless it is done. -/
structure Agrees (r : Roster) (last : Nat → Option JobId) : Prop where
  sent : ∀ m id, last m = some id → ∃ status, r.entries[id]? = some (m, status)
  tracked : ∀ m id, r.tracked.lookup m = some id ↔ last m = some id ∧ r.isDone id = false

/-! ## Changes -/

section
variable {r : Roster} {last : Nat → Option JobId} {id : JobId} {status : JobStatus}

theorem entries_put (i : JobId) : (r.put id status).entries[i]? =
    if i = id then (r.entries[i]?).map fun e => (e.1, status) else r.entries[i]? := by
  rw [put, List.getElem?_modify]
  by_cases hi : i = id
  · simp [hi]
  · have hi' : id ≠ i := fun he => hi he.symm
    simp [hi, hi']

theorem isDone_put {mid : Nat} {old : JobStatus} (h : r.entries[id]? = some (mid, old)) (i : JobId) :
    (r.put id status).isDone i = if i = id then status.isDone else r.isDone i := by
  rw [isDone, entries_put]
  by_cases hi : i = id
  · simp [hi, h]
  · simp [hi, isDone]

theorem entries_untrackDone (m : Nat) : (r.untrackDone m).entries = r.entries := by
  unfold untrackDone
  split
  · split <;> rfl
  · rfl

theorem isDone_untrackDone (m : Nat) (i : JobId) : (r.untrackDone m).isDone i = r.isDone i := by
  rw [isDone, entries_untrackDone, isDone]

theorem isDone_change {i : JobId} (h : r.isDone i = true) : (r.change id status).isDone i = true := by
  unfold change
  split
  · exact h
  · next mid old hentry =>
    by_cases hold : old.isDone = true
    · simp [hold, h]
    · have hi : i ≠ id := by
        rintro rfl
        simp [isDone, hentry, hold] at h
      have hput : (r.put id status).isDone i = true := by rw [isDone_put hentry, if_neg hi, h]
      split
      · exact h
      · split
        · rwa [isDone_untrackDone]
        · exact hput

theorem Changes.isDone {r' : Roster} (h : r.Changes r') {i : JobId} (hi : r.isDone i = true) :
    r'.isDone i = true := by
  induction h with
  | refl => exact hi
  | tail _ hc ih =>
    obtain ⟨id, status, rfl⟩ := hc
    exact isDone_change ih

def mids (r : Roster) : List Nat :=
  r.entries.map (·.1)

theorem mids_change : (r.change id status).mids = r.mids := by
  have hput : (r.put id status).mids = r.mids := by
    refine List.ext_getElem? fun i => ?_
    rw [mids, mids, List.getElem?_map, List.getElem?_map, entries_put]
    split
    · rw [Option.map_map]
      rfl
    · rfl
  unfold change
  split
  · rfl
  · split
    · rfl
    · split
      · rw [mids, entries_untrackDone]
        exact hput
      · exact hput

theorem Changes.mids {r' : Roster} (h : r.Changes r') : r'.mids = r.mids := by
  induction h with
  | refl => rfl
  | tail _ hc ih =>
    obtain ⟨id, status, rfl⟩ := hc
    rw [mids_change, ih]

theorem Agrees.sent_put (h : r.Agrees last) {m : Nat} {i : JobId} (hl : last m = some i) :
    ∃ s, (r.put id status).entries[i]? = some (m, s) := by
  obtain ⟨old, hentry⟩ := h.sent m i hl
  rw [entries_put, hentry]
  by_cases hi : i = id
  · exact ⟨status, by simp [hi]⟩
  · exact ⟨old, by simp [hi]⟩

theorem lookup_untrackDone (mid m : Nat) (i : JobId) :
    (r.untrackDone mid).tracked.lookup m = some i ↔
      r.tracked.lookup m = some i ∧ ¬(m = mid ∧ r.isDone i = true) := by
  unfold untrackDone
  cases hl : r.tracked.lookup mid with
  | none =>
    by_cases hm : m = mid
    · simp [hm, hl]
    · simp [hm]
  | some tracked =>
    by_cases hd : r.isDone tracked = true
    · by_cases hm : m = mid
      · subst hm
        simp only [hd, if_true, lookup_filter_ne, hl, Option.some.injEq]
        grind
      · simp [hd, lookup_filter_ne, hm]
    · by_cases hm : m = mid
      · subst hm
        simp only [hd, hl, Option.some.injEq]
        grind
      · simp [hd, hm]

theorem Agrees.change (h : r.Agrees last) (id : JobId) (status : JobStatus) :
    (r.change id status).Agrees last := by
  unfold Roster.change
  split
  · exact h
  · next mid old hentry =>
    split
    · exact h
    · next hold =>
      have hbefore : r.isDone id = false := by
        simp only [Bool.or_eq_true, not_or, Bool.not_eq_true] at hold
        simp [isDone, hentry, hold.1]
      have hmid : ∀ m, last m = some id → m = mid := by
        intro m hl
        obtain ⟨s, hs⟩ := h.sent m id hl
        exact (congrArg Prod.fst (Option.some.inj (hs.symm.trans hentry)))
      have hput : ∀ i, (r.put id status).isDone i = if i = id then status.isDone else r.isDone i :=
        isDone_put hentry
      have htracked : (r.put id status).tracked = r.tracked := rfl
      split
      · next hdone =>
        refine ⟨fun m i hl => ?_, fun m i => ?_⟩
        · rw [entries_untrackDone]
          exact h.sent_put hl
        · rw [lookup_untrackDone, isDone_untrackDone, hput, htracked, h.tracked]
          by_cases hi : i = id
          · subst hi
            have := hmid m
            simp only [hdone, if_true]
            grind
          · simp only [hi, if_false]
            grind
      · next hdone =>
        refine ⟨fun m i hl => h.sent_put hl, fun m i => ?_⟩
        rw [hput, htracked, h.tracked]
        by_cases hi : i = id
        · subst hi
          simp [hbefore, hdone]
        · simp [hi]

theorem Agrees.changes {r' : Roster} (h : r.Agrees last) (hc : r.Changes r') : r'.Agrees last := by
  induction hc with
  | refl => exact h
  | tail _ hc ih =>
    obtain ⟨id, status, rfl⟩ := hc
    exact ih.change id status

end

/-! ## Commands sent and ended -/

section
variable {r : Roster} {last : Nat → Option JobId}

def post (r : Roster) (mid : Nat) : Roster where
  entries := r.entries ++ [(mid, .ready)]
  tracked := (mid, r.entries.length) :: r.tracked.filter (·.1 != mid)

theorem Agrees.post (h : r.Agrees last) (mid : Nat) :
    (r.post mid).Agrees fun m => if m = mid then some r.entries.length else last m := by
  have hold : ∀ m id, last m = some id → id < r.entries.length := by
    intro m id hl
    obtain ⟨s, hs⟩ := h.sent m id hl
    exact (List.getElem?_eq_some_iff.1 hs).1
  have hnew : (r.post mid).isDone r.entries.length = false := by
    simp [isDone, Roster.post, JobStatus.isDone]
  have hkept : ∀ id < r.entries.length, (r.post mid).isDone id = r.isDone id := by
    intro id hid
    rw [isDone, Roster.post, List.getElem?_append_left hid, isDone]
  refine ⟨fun m id hl => ?_, fun m id => ?_⟩
  · by_cases hm : m = mid
    · subst hm
      simp only [if_true, Option.some.injEq] at hl
      subst hl
      exact ⟨.ready, by simp [Roster.post]⟩
    · simp only [hm, if_false] at hl
      rw [Roster.post, List.getElem?_append_left (hold m id hl)]
      exact h.sent m id hl
  · rw [Roster.post, List.lookup_cons]
    by_cases hm : m = mid
    · subst hm
      simp only [beq_self_eq_true, if_true, Option.some.injEq]
      constructor
      · rintro rfl
        exact ⟨rfl, hnew⟩
      · exact fun hl => hl.1
    · simp only [beq_false_of_ne hm, lookup_filter_ne, hm, if_false]
      rw [h.tracked]
      refine and_congr_right fun hl => ?_
      rw [← hkept id (hold m id hl)]
      rfl

theorem isDone_post (mid : Nat) {id : JobId} (h : r.isDone id = true) :
    (r.post mid).isDone id = true := by
  have hlt : id < r.entries.length := by
    by_contra hge
    rw [isDone, List.getElem?_eq_none (Nat.le_of_not_lt hge)] at h
    cases h
  rwa [isDone, Roster.post, List.getElem?_append_left hlt]

/-- To stop tracking a job before it is ended comes to the same as to end it. -/
theorem Agrees.untrack_change (h : r.Agrees last) {mid : Nat} {id : JobId} {status : JobStatus}
    (ht : r.tracked.lookup mid = some id) (hs : status.isDone = true) :
    Roster.change { r with tracked := r.tracked.filter (·.1 != mid) } id status =
      r.change id status ∧ (r.change id status).entries[id]? = some (mid, status) := by
  obtain ⟨hl, hd⟩ := (h.tracked mid id).1 ht
  obtain ⟨old, hentry⟩ := h.sent mid id hl
  have hold : old.isDone = false := by simpa [isDone, hentry] using hd
  have hne : (old == status) = false := by
    rw [beq_eq_false_iff_ne]
    rintro rfl
    simp [hold] at hs
  have hfirst : (r.tracked.filter (·.1 != mid)).lookup mid = none := by
    rw [lookup_filter_ne, if_pos rfl]
  have hended : (r.put id status).isDone id = true := by
    rw [isDone_put hentry, if_pos rfl, hs]
  unfold Roster.change
  simp only [hentry, hold, hne, Bool.or_false, Bool.false_eq_true, if_false, hs, if_true]
  constructor
  · simp only [untrackDone, put] at hended ⊢
    simp only [hfirst, ht, hended, if_true]
  · rw [entries_untrackDone, entries_put, if_pos rfl, hentry]
    rfl

theorem entries_change_ne {id i : JobId} (hi : i ≠ id) (status : JobStatus) :
    (r.change id status).entries[i]? = r.entries[i]? := by
  have hput : (r.put id status).entries[i]? = r.entries[i]? := by rw [entries_put, if_neg hi]
  unfold change
  split
  · rfl
  · split
    · rfl
    · split
      · rw [entries_untrackDone, hput]
      · exact hput

end

end Roster

namespace Session

/-! ## Courses of sessions -/

inductive Event where
  | send (target body : String)
  | sendAs (mid : Nat) (target body : String)
  | line (text : String)
  | set (id : JobId) (status : JobStatus) (content : Content)
  | write (id : JobId) (code : Char) (content : Content)
  | cancel (id : JobId)
  | advance (milliseconds : Nat)
  | hold (name : String) (id : JobId)
  | release (name : String)

/-- A session with the commands that it returned and the jobs that it reported as completed. -/
structure Course where
  session : Session
  sent : List SentCommand
  completed : List JobId

namespace Course

def lastSent (c : Course) (mid : Nat) : Option JobId :=
  (c.sent.reverse.find? (·.mid == mid)).map (·.job)

def withJobs (c : Course) (jobs : Jobs) : Course :=
  { c with session := { c.session with jobs } }

def sending (c : Course) : Session × Except JobError SentCommand → Course
  | (session, .ok command) => { c with session, sent := c.sent ++ [command] }
  | (session, .error _) => { c with session }

def receiving (c : Course) : Session × Except LineError HandledReply → Course
  | (session, .ok handled) =>
    { c with session, completed := c.completed ++ handled.completed.toList }
  | (session, .error _) => { c with session }

def next (c : Course) : Event → Course
  | .send target body => c.sending (c.session.send target body)
  | .sendAs mid target body => c.sending (c.session.sendAs mid target body)
  | .line text => c.receiving (c.session.handleLine text)
  | .set id status content => c.withJobs (c.session.jobs.ask id (.set status content)).1
  | .write id code content => c.withJobs (c.session.jobs.ask id (.write code content)).1
  | .cancel id => c.withJobs (c.session.jobs.ask id .cancel).1
  | .advance milliseconds => c.withJobs (c.session.jobs.advance milliseconds)
  | .hold name id => c.withJobs (c.session.jobs.hold name id)
  | .release name => c.withJobs (c.session.jobs.release name)

def after (s : Session) (hasClock : Bool) (events : List Event) : Course :=
  events.foldl next ⟨{ s with jobs := .empty hasClock }, [], []⟩

end Course

/-! ## Sending -/

section
variable {s : Session} {last : Nat → Option JobId}

theorem untrackDone_of_agrees {r : Roster} (h : r.Agrees last) (mid : Nat) :
    r.untrackDone mid = r := by
  unfold Roster.untrackDone
  cases hl : r.tracked.lookup mid with
  | none => rfl
  | some id => simp [((h.tracked mid id).1 hl).2]

theorem build_blueprint (h : s.jobs.Idle) (mid : Nat) (target body : String) :
    (∃ e, s.jobs.build (s.blueprint mid target body) = (s.jobs, .error e)) ∨
    ∃ job : Job, job.Resting ∧ job.commandId = mid ∧ job.status = .ready ∧
      s.jobs.build (s.blueprint mid target body) =
        ({ s.jobs with jobs := s.jobs.jobs ++ [job] }, .ok s.jobs.jobs.length) := by
  have hrun : (s.jobs.add (s.blueprint mid target body)).run =
      s.jobs.add (s.blueprint mid target body) := Jobs.run_of_idle h.agenda
  unfold Jobs.build
  split
  · exact .inl ⟨_, rfl⟩
  · rw [hrun]
    exact .inr ⟨_, ⟨rfl, rfl, rfl, rfl, rfl⟩, rfl, rfl, rfl⟩

theorem track_concat {w : Jobs} (h : w.Idle) {job : Job} (hjob : job.Resting)
    (hready : job.status = .ready) :
    let u := ({ w with jobs := w.jobs ++ [job] } : Jobs).track job.commandId w.jobs.length
    u.Idle ∧ u.roster = w.roster.post job.commandId := by
  intro u
  have hjobs : ∀ i other, u.job? i = some other → other.Resting := by
    intro i other hother
    have hother : (w.jobs ++ [job])[i]? = some other := hother
    rcases List.mem_append.1 (List.mem_of_getElem? hother) with hm | hm
    · obtain ⟨i', hi'⟩ := List.getElem?_of_mem hm
      exact h.jobs i' other hi'
    · rwa [List.mem_singleton.1 hm]
  refine ⟨⟨⟨hjobs, h.operations⟩, h.agenda⟩, ?_⟩
  simp only [Jobs.roster, Roster.post, u, Jobs.track, List.map_append, List.length_map]
  rw [List.map_singleton, hready]

theorem launch_of_ok {w v : Jobs} {mid : Nat} {id : JobId}
    (h : (w.track mid id).ask id (.set .running .empty) = (v, .ok ())) :
    launch w mid id = (v.untrackDone mid, .ok ()) := by
  unfold launch
  rw [h]
  rfl

theorem launch_of_idle {w : Jobs} (h : w.Idle) (hagrees : w.roster.Agrees last) {job : Job}
    (hjob : job.Resting) (hready : job.status = .ready) :
    ∃ v : Jobs, launch { w with jobs := w.jobs ++ [job] } job.commandId w.jobs.length = (v, .ok ()) ∧
      v.Idle ∧ v.roster = (w.roster.post job.commandId).change w.jobs.length .running := by
  obtain ⟨hu, hposted⟩ := track_concat h hjob hready
  generalize hname : ({ w with jobs := w.jobs ++ [job] } : Jobs).track job.commandId w.jobs.length = u
    at hu hposted
  have hlength : w.roster.entries.length = w.jobs.length := List.length_map _
  have hagreed := hagrees.post job.commandId
  rw [hlength] at hagreed
  have hnot : u.isDone w.jobs.length = false := by
    have hlookup : (w.roster.post job.commandId).tracked.lookup job.commandId =
        some w.jobs.length := by
      rw [Roster.post, List.lookup_cons, hlength]
      simp
    rw [← Jobs.isDone_roster, hposted]
    exact ((hagreed.tracked _ _).1 hlookup).2
  obtain ⟨hidle, hroster, hok⟩ := hu.set w.jobs.length .running .empty
  have hanswer := hok hnot
  generalize hv : u.ask w.jobs.length (.set .running .empty) = asked at hidle hroster hanswer
  obtain ⟨v, result⟩ := asked
  obtain rfl : result = .ok () := hanswer
  rw [hposted] at hroster
  have hagreed' := hagreed.change w.jobs.length .running
  rw [← hroster] at hagreed'
  obtain ⟨hsame, hagenda, hoperations⟩ := Jobs.jobs_untrackDone v job.commandId
  subst hname
  refine ⟨_, launch_of_ok hv, ⟨hidle.congr hsame hoperations, hagenda.trans hidle.agenda⟩, ?_⟩
  rw [Jobs.roster_untrackDone, untrackDone_of_agrees hagreed', ← hroster]

theorem sendAs_cases (h : s.jobs.Idle) (hagrees : s.jobs.roster.Agrees last) (mid : Nat)
    (target body : String) :
    (∃ e, s.sendAs mid target body = (s, .error e)) ∨
    ∃ jobs line, s.sendAs mid target body =
        ({ s with jobs }, .ok ⟨mid, line, s.jobs.roster.entries.length⟩) ∧ jobs.Idle ∧
      jobs.roster = (s.jobs.roster.post mid).change s.jobs.roster.entries.length .running := by
  unfold sendAs
  rcases build_blueprint h mid target body with ⟨e, hbuilt⟩ | ⟨job, hjob, rfl, hready, hbuilt⟩
  · rw [hbuilt]
    exact .inl ⟨e, rfl⟩
  · obtain ⟨v, hlaunched, hidle, hroster⟩ := launch_of_idle h hagrees hjob hready
    have hlength : s.jobs.roster.entries.length = s.jobs.jobs.length := List.length_map _
    rw [hbuilt, hlength]
    dsimp only
    rw [hlaunched]
    exact .inr ⟨v, _, rfl, hidle, hroster⟩

end

/-! ## Reply lines -/

section
variable {s : Session} {last : Nat → Option JobId} {r : Reply} {id : JobId} {status : JobStatus}

theorem finalStatus?_eq_some_iff : finalStatus? r = some status ↔
    r.header.code.char ∈ [':', 'F', '!'] ∧
      status = if r.header.code.char = ':' then .done else .failed := by
  unfold finalStatus?
  cases r.header.code <;>
    simp [MessageCode.char, JobStatus.ofCode, JobStatus.isDone, Option.filter, eq_comm]

theorem ended?_eq_some_iff : s.ended? r = some (id, status) ↔
    finalStatus? r = some status ∧ r.header.commandId < UInt32.size ∧
      s.jobs.tracked.lookup r.header.commandId = some id := by
  unfold ended?
  cases hf : finalStatus? r with
  | none => simp
  | some final =>
    by_cases hsize : UInt32.size ≤ r.header.commandId
    · have hlt : ¬ r.header.commandId < UInt32.size := by omega
      simp [hsize, hlt]
    · cases ht : s.jobs.tracked.lookup r.header.commandId with
      | none => simp [hsize]
      | some tracked =>
        have hlt : r.header.commandId < UInt32.size := by omega
        simp [hsize, hlt, and_comm]

theorem isDone_of_finalStatus? (h : finalStatus? r = some status) : status.isDone = true :=
  (Option.filter_eq_some_iff.1 h).2

theorem untrack_idle {w : Jobs} (h : w.Idle) (mid : Nat) : (w.untrack mid).Idle :=
  ⟨h.congr rfl rfl, h.agenda⟩

theorem resolve_of_not_ended (he : s.ended? r = none) : s.resolve r = (s, none) := by
  rw [resolve, he]

theorem completed_eq_some_iff : (s.resolve r).2 = some id ↔
    r.header.code.char ∈ [':', 'F', '!'] ∧ r.header.commandId < UInt32.size ∧
      s.jobs.tracked.lookup r.header.commandId = some id := by
  have hsnd : (s.resolve r).2 = (s.ended? r).map Prod.fst := by
    unfold resolve
    split
    · next he => rw [he, Option.map_none]
    · next he => rw [he, Option.map_some]
  rw [hsnd, Option.map_eq_some_iff]
  constructor
  · rintro ⟨⟨_, status⟩, he, rfl⟩
    obtain ⟨hfinal, hsize, htracked⟩ := ended?_eq_some_iff.1 he
    exact ⟨(finalStatus?_eq_some_iff.1 hfinal).1, hsize, htracked⟩
  · rintro ⟨hcode, hsize, htracked⟩
    exact ⟨(id, _), ended?_eq_some_iff.2 ⟨finalStatus?_eq_some_iff.2 ⟨hcode, rfl⟩, hsize, htracked⟩, rfl⟩

theorem status_roster (w : Jobs) (i : JobId) :
    (w.job? i).map (·.status) = (w.roster.entries[i]?).map (·.2) := by
  rw [Jobs.entries_roster, Option.map_map]
  rfl

theorem resolve_of_ended (h : s.jobs.Idle) (hagrees : s.jobs.roster.Agrees last)
    (he : s.ended? r = some (id, status)) :
    ∃ jobs, s.resolve r = ({ s with jobs }, some id) ∧ jobs.Idle ∧
      jobs.roster = s.jobs.roster.change id status ∧
      jobs.roster.entries[id]? = some (r.header.commandId, status) := by
  obtain ⟨hfinal, -, htracked⟩ := ended?_eq_some_iff.1 he
  obtain ⟨hsame, hentry⟩ := hagrees.untrack_change htracked (isDone_of_finalStatus? hfinal)
  obtain ⟨hidle, hroster, -⟩ := (untrack_idle h r.header.commandId).set id status .empty
  have hroster' : ((s.jobs.untrack r.header.commandId).ask id (.set status .empty)).1.roster =
      s.jobs.roster.change id status := hroster.trans hsame
  refine ⟨_, ?_, hidle, hroster', hroster' ▸ hentry⟩
  unfold resolve
  rw [he]

theorem jobs_resolve_of_none (hnone : (s.resolve r).2 = none) : (s.resolve r).1.jobs = s.jobs := by
  unfold resolve at hnone ⊢
  split at hnone
  · rfl
  · cases hnone

/-- The job that is reported has the status that the code tells of, and all others have the status that
they had. -/
theorem status_of_completed (h : s.jobs.Idle) (hagrees : s.jobs.roster.Agrees last)
    (hid : (s.resolve r).2 = some id) :
    (s.resolve r).1.jobs.hasStatus id (if r.header.code.char = ':' then .done else .failed) = true ∧
      ∀ other, other ≠ id →
        ((s.resolve r).1.jobs.job? other).map (·.status) = (s.jobs.job? other).map (·.status) := by
  obtain ⟨hcode, hsize, htracked⟩ := completed_eq_some_iff.1 hid
  have he : s.ended? r = some (id, if r.header.code.char = ':' then .done else .failed) :=
    ended?_eq_some_iff.2 ⟨finalStatus?_eq_some_iff.2 ⟨hcode, rfl⟩, hsize, htracked⟩
  obtain ⟨jobs, hresolve, -, hroster, hentry⟩ := resolve_of_ended h hagrees he
  rw [hresolve]
  constructor
  · have hstatus := status_roster jobs id
    rw [hentry, Option.map_some] at hstatus
    obtain ⟨job, hj, hs⟩ := Option.map_eq_some_iff.1 hstatus
    exact Jobs.hasStatus_iff.2 ⟨job, hj, hs⟩
  · intro other hother
    rw [status_roster, status_roster, hroster, Roster.entries_change_ne hother]

theorem handleLine_of_error {text : String} {e : LineError} (h : Reply.read text = .error e) :
    s.handleLine text = (s, .error e) := by
  -- the equation of `handleLine` takes long to make
  delta handleLine
  rw [h]

theorem handleLine_eq_of_ok {text : String} (h : Reply.read text = .ok r) :
    let routed := s.models.applyReply r
    let resolved := { s with models := routed.models }.resolve r
    s.handleLine text = (resolved.1, .ok ⟨r, routed.count, routed.notices, resolved.2⟩) := by
  delta handleLine
  rw [h]
  rfl

theorem handleLine_of_ok {text : String} (h : Reply.read text = .ok r) :
    ∃ models count notices, s.handleLine text =
      (({ s with models }.resolve r).1, .ok ⟨r, count, notices, ({ s with models }.resolve r).2⟩) :=
  ⟨_, _, _, handleLine_eq_of_ok h⟩

end

/-! ## Courses -/

/-- What holds between operations. -/
structure Course.Follows (c : Course) : Prop where
  idle : c.session.jobs.Idle
  commands : c.sent.map (fun command => (command.mid, command.job)) =
    c.session.jobs.roster.mids.zipIdx
  agrees : c.session.jobs.roster.Agrees c.lastSent
  once : c.completed.Nodup
  ended : ∀ id ∈ c.completed, c.session.jobs.roster.isDone id = true

section
variable {c : Course}

theorem Course.Follows.withJobs (h : c.Follows) {jobs : Jobs} (hidle : jobs.Idle)
    (hchanges : c.session.jobs.roster.Changes jobs.roster) : (c.withJobs jobs).Follows where
  idle := hidle
  commands := h.commands.trans (congrArg List.zipIdx hchanges.mids.symm)
  agrees := h.agrees.changes hchanges
  once := h.once
  ended id hid := hchanges.isDone (h.ended id hid)

theorem Course.lastSent_append (command : SentCommand) (m : Nat) :
    ({ c with sent := c.sent ++ [command] } : Course).lastSent m =
      if m = command.mid then some command.job else c.lastSent m := by
  rw [lastSent, List.reverse_append, List.reverse_singleton, List.singleton_append, List.find?_cons]
  by_cases hm : m = command.mid
  · simp [hm]
  · have hne : (command.mid == m) = false := beq_false_of_ne fun he => hm he.symm
    rw [hne, if_neg hm]
    rfl

theorem Course.Follows.sendAs (h : c.Follows) {s : Session} (hs : s.jobs = c.session.jobs)
    (mid : Nat) (target body : String) : (c.sending (s.sendAs mid target body)).Follows := by
  have hidle : s.jobs.Idle := hs ▸ h.idle
  have hcommands : c.sent.map (fun command => (command.mid, command.job)) =
      s.jobs.roster.mids.zipIdx := hs ▸ h.commands
  have hagrees : s.jobs.roster.Agrees c.lastSent := hs ▸ h.agrees
  have hended : ∀ id ∈ c.completed, s.jobs.roster.isDone id = true := hs ▸ h.ended
  rcases sendAs_cases hidle hagrees mid target body with ⟨e, hsent⟩ | ⟨jobs, line, hsent, hjobs, hroster⟩
  · rw [hsent]
    exact ⟨hidle, hcommands, hagrees, h.once, hended⟩
  · rw [hsent]
    refine ⟨hjobs, ?_, ?_, h.once, fun id hid => ?_⟩
    · have hlength : s.jobs.roster.mids.length = s.jobs.roster.entries.length := List.length_map _
      have hmids : (s.jobs.roster.post mid).mids = s.jobs.roster.mids ++ [mid] := List.map_append
      change (c.sent ++ [_]).map _ = jobs.roster.mids.zipIdx
      rw [hroster, Roster.mids_change, hmids, List.zipIdx_append, List.map_append, hcommands, hlength]
      simp
    · have hposted := (hagrees.post mid).change s.jobs.roster.entries.length .running
      rw [← hroster] at hposted
      have hlast : Course.lastSent { c with sent := c.sent ++ [⟨mid, line, s.jobs.roster.entries.length⟩] } =
          fun m => if m = mid then some s.jobs.roster.entries.length else c.lastSent m :=
        funext fun m => Course.lastSent_append _ m
      rwa [← hlast] at hposted
    · change jobs.roster.isDone id = true
      rw [hroster]
      exact Roster.isDone_change (Roster.isDone_post mid (hended id hid))

theorem Course.Follows.line (h : c.Follows) (text : String) :
    (c.receiving (c.session.handleLine text)).Follows := by
  cases hr : Reply.read text with
  | error e =>
    rw [handleLine_of_error hr]
    exact h
  | ok r =>
    obtain ⟨models, count, notices, hhandled⟩ := handleLine_of_ok (s := c.session) hr
    rw [hhandled]
    let s : Session := { c.session with models }
    cases he : s.ended? r with
    | none =>
      have hresolve := resolve_of_not_ended he
      have hreceived : c.receiving (s, .ok ⟨r, count, notices, none⟩) = { c with session := s } := by
        simp [Course.receiving]
      rw [hresolve, hreceived]
      exact ⟨h.idle, h.commands, h.agrees, h.once, h.ended⟩
    | some ended =>
      obtain ⟨id, status⟩ := ended
      obtain ⟨jobs, hresolve, hidle, hroster, hentry⟩ := resolve_of_ended (s := s) h.idle h.agrees he
      obtain ⟨hfinal, -, htracked⟩ := ended?_eq_some_iff.1 he
      have hnot : c.session.jobs.roster.isDone id = false := ((h.agrees.tracked _ id).1 htracked).2
      rw [hresolve]
      refine ⟨hidle, ?_, ?_, ?_, ?_⟩
      · change c.sent.map _ = jobs.roster.mids.zipIdx
        rw [hroster, Roster.mids_change]
        exact h.commands
      · have hchanged := h.agrees.change id status
        rwa [← hroster] at hchanged
      · refine List.nodup_append.2 ⟨h.once, List.pairwise_singleton _ id, ?_⟩
        intro i hi i' hi'
        rw [List.mem_singleton.1 hi']
        rintro rfl
        rw [h.ended i hi] at hnot
        cases hnot
      · intro i hi
        rcases List.mem_append.1 hi with hi | hi
        · change jobs.roster.isDone i = true
          rw [hroster]
          exact Roster.isDone_change (h.ended i hi)
        · obtain rfl := List.mem_singleton.1 hi
          change jobs.roster.isDone i = true
          rw [Roster.isDone, hentry]
          exact isDone_of_finalStatus? hfinal

theorem Course.Follows.next (h : c.Follows) (e : Event) : (c.next e).Follows := by
  cases e with
  | send target body =>
    let s : Session := { c.session with nextMid := c.session.nextMid + 1 }
    exact h.sendAs (s := s) rfl c.session.nextMid.toNat target body
  | sendAs mid target body => exact h.sendAs rfl mid target body
  | line text => exact h.line text
  | set id status content =>
    obtain ⟨hidle, hroster, -⟩ := h.idle.set id status content
    refine h.withJobs hidle ?_
    rw [hroster]
    exact Roster.changes_change _ id status
  | write id code content =>
    obtain ⟨hidle, hroster⟩ := h.idle.write id code content
    refine h.withJobs hidle ?_
    rw [hroster]
    exact .refl
  | cancel id =>
    obtain ⟨hidle, hroster⟩ := h.idle.cancel id
    refine h.withJobs hidle ?_
    rw [hroster]
    exact (Roster.changes_change _ id .cancelling).trans (Roster.changes_change _ id .cancelled)
  | advance milliseconds =>
    obtain ⟨hidle, hchanges⟩ := h.idle.advance milliseconds
    exact h.withJobs hidle hchanges
  | hold name id => exact h.withJobs ⟨h.idle.congr rfl rfl, h.idle.agenda⟩ .refl
  | release name => exact h.withJobs ⟨h.idle.congr rfl rfl, h.idle.agenda⟩ .refl

theorem follows_after (s : Session) (hasClock : Bool) (events : List Event) :
    (Course.after s hasClock events).Follows := by
  induction events using List.reverseRecOn with
  | nil =>
    have hagrees : (Jobs.empty hasClock).roster.Agrees fun _ => none :=
      ⟨nofun, fun _ _ => ⟨nofun, fun h => nomatch h.1⟩⟩
    exact ⟨Jobs.idle_empty hasClock, rfl, hagrees, .nil, nofun⟩
  | append_singleton events e ih =>
    rw [Course.after, List.foldl_append]
    exact ih.next e

end

/-- Each command that a session sends is a job of its own. Between operations the session tracks, under
each message id, the command sent last until it is done. A line ends a command when it is a reply of a
done code under the message id, of 32 bits, of one that is tracked; this one is reported and gets the
status of the code, and no other changes. So no command is reported twice. A line that is no reply
changes nothing. -/
theorem tracking_follows_course (s : Session) (hasClock : Bool) (events : List Event) :
    let c := Course.after s hasClock events
    let w := c.session.jobs
    w.agenda = [] ∧
    c.sent.map (fun command => (command.mid, command.job)) = (w.jobs.map (·.commandId)).zipIdx ∧
    (∀ m id, w.tracked.lookup m = some id ↔ c.lastSent m = some id ∧ w.isDone id = false) ∧
    c.completed.Nodup ∧
    ∀ text : String,
      let handled := c.session.handleLine text
      (∀ e, Reply.read text = .error e → handled = (c.session, .error e)) ∧
      ∀ r, Reply.read text = .ok r → ∃ reply, handled.2 = .ok reply ∧ reply.reply = r ∧
        (∀ id, reply.completed = some id ↔ r.header.code.char ∈ [':', 'F', '!'] ∧
          r.header.commandId < UInt32.size ∧ w.tracked.lookup r.header.commandId = some id) ∧
        (reply.completed = none → handled.1.jobs = w) ∧
        ∀ id, reply.completed = some id →
          handled.1.jobs.hasStatus id (if r.header.code.char = ':' then .done else .failed) = true ∧
          ∀ other, other ≠ id →
            (handled.1.jobs.job? other).map (·.status) = (w.job? other).map (·.status) := by
  intro c w
  have h : c.Follows := follows_after s hasClock events
  have hcommands := h.commands
  rw [Roster.mids, Jobs.roster, List.map_map] at hcommands
  refine ⟨h.idle.agenda, hcommands, fun m id => ?_, h.once,
    fun text => ⟨fun e => handleLine_of_error, ?_⟩⟩
  · rw [← Jobs.isDone_roster]
    exact h.agrees.tracked m id
  · intro r hr
    obtain ⟨models, count, notices, hhandled⟩ := handleLine_of_ok (s := c.session) hr
    rw [hhandled]
    let s : Session := { c.session with models }
    exact ⟨_, rfl, rfl, fun id => completed_eq_some_iff (s := s), jobs_resolve_of_none (s := s),
      fun id => status_of_completed (s := s) h.idle h.agrees⟩

/-- Two commands under one message id, of which the older one is cancelled. -/
example :
    let events := [Event.sendAs 5 "actor" "a", .sendAs 5 "actor" "b", .cancel 0]
    let c := Course.after (make "me" .empty true) true events
    c.session.jobs.tracked = [(5, 1)] := by
  decide +kernel

end Session

end ActorHub
