import ActorHub.Proofs.Jobs.Feed
import ActorHub.Proofs.Jobs.Observers
import ActorHub.Proofs.Lookup
import Mathlib.Data.List.Induction
import Mathlib.Data.List.Infix

/-!
# Streams

What a consumer reads of the changes of a job, one at a time or all that wait, at any moments of a run.
A stream keeps the last changes only, so the consumer misses some if it falls behind by more than those,
and by as many as it fell behind more (`Follows`). The last change is never among them.
-/

namespace ActorHub

/-! ## Paths of statuses -/

namespace JobStatus.Path

variable {s t c : JobStatus} {cs before after : List JobStatus}

theorem eq_of_nil (h : Path s [] t) : t = s := by
  cases h
  rfl

theorem of_isDone (h : Path s (before ++ c :: after) t) (hc : c.isDone = true) : after = [] ∧ t = c := by
  induction before generalizing s with
  | nil =>
    cases h with
    | cons _ _ h => exact h.eq_of_isDone hc
  | cons b before ih =>
    cases h with
    | cons _ _ h => exact ih h

theorem getLast?_eq (h : Path s cs t) (hcs : cs ≠ []) : cs.getLast? = some t := by
  induction h with
  | nil => exact absurd rfl hcs
  | @cons s u t cs _ _ h ih =>
    cases cs with
    | nil =>
      cases h
      rfl
    | cons d cs => rw [List.getLast?_cons_cons, ih (List.cons_ne_nil d cs)]

/-- A status that is done and was not missed is the last one that was not missed. -/
theorem of_sublist (h : Path s cs t) (hsub : (before ++ c :: after).Sublist cs) (hc : c.isDone = true) :
    after = [] ∧ t = c := by
  obtain ⟨cs₁, cs₂, rfl, -, hrest⟩ := List.append_sublist_iff.mp hsub
  obtain ⟨ds₁, ds₂, rfl, hmem, hafter⟩ := List.cons_sublist_iff.mp hrest
  obtain ⟨es₁, es₂, rfl⟩ := List.append_of_mem hmem
  have hpath : Path s ((cs₁ ++ es₁) ++ c :: (es₂ ++ ds₂)) t := by simpa using h
  obtain ⟨hnil, ht⟩ := hpath.of_isDone hc
  obtain ⟨-, rfl⟩ := List.append_eq_nil_iff.mp hnil
  exact ⟨List.sublist_nil.mp hafter, ht⟩

end JobStatus.Path

/-! ## Reading -/

/-- What a consumer gets that asks for the next change. -/
inductive Poll where
  | change (status : JobStatus)
  | pending
  | ended
deriving DecidableEq

namespace Jobs

def setStream (w : Jobs) (name : String) (s : StatusStream) : Jobs :=
  { w with streams := (name, s) :: w.streams.filter (·.1 != name) }

def poll (w : Jobs) (name : String) : Jobs × Option Poll :=
  match w.streams.lookup name with
  | none => (w, none)
  | some s =>
    match s.unread with
    | status :: rest =>
      (w.setStream name { s with unread := rest, isFinished := s.isFinished || status.isDone },
        some (.change status))
    | [] =>
      if s.isFinished || !w.isHeld s.job then
        (w.setStream name { s with isFinished := true }, some .ended)
      else (w, some .pending)

section
variable {w : Jobs} {name n : String}

theorem lookup_setStream (s : StatusStream) : (w.setStream name s).streams.lookup name = some s :=
  (lookup_replaced w.streams name s name).trans (if_pos rfl)

theorem lookup_setStream_ne (h : n ≠ name) (s : StatusStream) :
    (w.setStream n s).streams.lookup name = w.streams.lookup name :=
  (lookup_replaced w.streams n s name).trans (if_neg h.symm)

theorem setStream_setStream (s t : StatusStream) :
    (w.setStream name s).setStream name t = w.setStream name t := by
  simp [setStream]

theorem drain_eq {s : StatusStream} (h : w.streams.lookup name = some s) : w.drain name =
    (w.setStream name { s with unread := [], isFinished := (w.readStream s).2 },
      some (w.readStream s)) := by
  unfold drain
  rw [h]
  rfl

theorem isHeld_setStream (s : StatusStream) (id : JobId) :
    (w.setStream name s).isHeld id = w.isHeld id := by
  have hlineage : ∀ n id, (w.setStream name s).lineage n id = w.lineage n id := by
    intro n
    induction n with
    | zero => exact fun _ => rfl
    | succ n ih =>
      intro id
      unfold lineage
      have hjob : (w.setStream name s).job? id = w.job? id := rfl
      rw [hjob]
      cases (w.job? id).bind (·.parent) with
      | none => rfl
      | some parent => exact congrArg (id :: ·) (ih parent)
  unfold isHeld
  simp only [hlineage]
  rfl

section
variable {s : StatusStream}

theorem poll_of_cons {status : JobStatus} {rest : List JobStatus} (h : w.streams.lookup name = some s)
    (hunread : s.unread = status :: rest) : w.poll name =
      (w.setStream name { s with unread := rest, isFinished := s.isFinished || status.isDone },
        some (.change status)) := by
  rw [poll, h]
  dsimp only
  rw [hunread]

theorem poll_of_nil (h : w.streams.lookup name = some s) (hunread : s.unread = []) : w.poll name =
    if s.isFinished || !w.isHeld s.job then
      (w.setStream name { s with isFinished := true }, some .ended)
    else (w, some .pending) := by
  rw [poll, h]
  dsimp only
  rw [hunread]

end

theorem drain_of_poll {status : JobStatus} (h : (w.poll name).2 = some (.change status)) :
    ∃ rest ended, w.drain name = (((w.poll name).1.drain name).1, some (status :: rest, ended)) ∧
      ((w.poll name).1.drain name).2 = some (rest, ended) := by
  unfold poll at h ⊢
  split at h
  · cases h
  · next s hs =>
    split at h
    · next c rest hunread =>
      cases h
      let t : StatusStream := { s with unread := rest, isFinished := s.isFinished || status.isDone }
      have hread : w.readStream s = (status :: rest, ((w.setStream name t).readStream t).2) := by
        simp only [readStream, isHeld_setStream, hunread, List.any_cons, t, Bool.or_assoc]
      refine ⟨rest, ((w.setStream name t).readStream t).2, ?_⟩
      rw [drain_eq hs, drain_eq (lookup_setStream t), setStream_setStream, hread]
      exact ⟨rfl, rfl⟩
    · split at h <;> cases h

end

/-! ## Runs -/

/-- One thing that happens to the jobs of a process, or to a stream. -/
inductive Deed where
  | errand
  | ask (id : JobId) (act : Act)
  | spawn (id : JobId) (script : Script)
  | add (b : Blueprint)
  | due (d : Due)
  | tick
  | hold (name : String) (id : JobId)
  | release (name : String)
  | track (mid : Nat) (id : JobId)
  | untrack (mid : Nat)
  | openStream (name : String) (id : JobId)
  | poll (name : String)
  | drain (name : String)

def Deed.run (w : Jobs) : Deed → Jobs
  | errand => w.step.getD w
  | ask id act => w.perform .caller id act
  | spawn id script => w.changeFor .caller id .running .empty [.attach id script .caller]
  | add b => w.add b
  | due d => w.begin d
  | tick => { w with now := w.now + 1 }
  | hold name id => w.hold name id
  | release name => w.release name
  | track mid id => w.track mid id
  | untrack mid => w.untrack mid
  | openStream name id => w.openStream name id
  | poll name => (w.poll name).1
  | drain name => (w.drain name).1

theorem exists_deed {u w : Jobs} (h : Move u w) : ∃ d : Deed, d.run u = w := by
  cases h with
  | errand hstep => exact ⟨.errand, by rw [Deed.run, hstep]; rfl⟩
  | ask id act => exact ⟨.ask id act, rfl⟩
  | spawn id script => exact ⟨.spawn id script, rfl⟩
  | add b => exact ⟨.add b, rfl⟩
  | due d => exact ⟨.due d, rfl⟩
  | tick => exact ⟨.tick, rfl⟩
  | hold name id => exact ⟨.hold name id, rfl⟩
  | release name => exact ⟨.release name, rfl⟩
  | track mid id => exact ⟨.track mid id, rfl⟩
  | untrack mid => exact ⟨.untrack mid, rfl⟩
  | openStream name id => exact ⟨.openStream name id, rfl⟩
  | drain name => exact ⟨.drain name, rfl⟩

theorem exists_deeds {u w : Jobs} (h : u.Leads w) : ∃ deeds : List Deed, deeds.foldl Deed.run u = w := by
  induction h with
  | refl => exact ⟨[], rfl⟩
  | tail _ hmove ih =>
    obtain ⟨deeds, rfl⟩ := ih
    obtain ⟨d, rfl⟩ := exists_deed hmove
    exact ⟨deeds ++ [d], List.foldl_append⟩

def Deed.reads (w : Jobs) (name : String) : Deed → List JobStatus
  | poll n =>
    match n == name, (w.poll n).2 with
    | true, some (.change status) => [status]
    | _, _ => []
  | drain n =>
    match n == name, (w.drain n).2 with
    | true, some (statuses, _) => statuses
    | _, _ => []
  | _ => []

/-- A consumer of a stream: what it has read, and by how many changes it was behind at most. -/
structure Reading where
  jobs : Jobs
  got : List JobStatus
  lag : Nat

namespace Reading

/-- The jobs move on and some changes are read. Those before a first one are none of the stream. -/
def move (id : JobId) (first : Nat) (r : Reading) (jobs : Jobs) (taken : List JobStatus) : Reading :=
  let got := r.got ++ taken
  ⟨jobs, got, max r.lag ((jobs.changes id).length - first - got.length)⟩

def next (name : String) (id : JobId) (first : Nat) (r : Reading) (d : Deed) : Reading :=
  r.move id first (d.run r.jobs) (d.reads r.jobs name)

def after (w : Jobs) (name : String) (id : JobId) (deeds : List Deed) : Reading :=
  deeds.foldl (next name id (w.changes id).length) ⟨w.openStream name id, [], 0⟩

end Reading

/-! ## What passes -/

/-- What a job and the stream of a name go through when nobody reads the stream: some changes of the job,
which the stream is offered. -/
structure Passes (name : String) (id : JobId) (s : StatusStream) (w w' : Jobs) (changes : List JobStatus) :
    Prop where
  entered : w'.changes id = w.changes id ++ changes
  stream : w'.streams.lookup name = some (changes.foldl (fun s status => s.offer id status) s)
  job : ∀ job, w.job? id = some job → ∃ job', w'.job? id = some job' ∧
    job.status.Path changes job'.status

section
variable {name n : String} {id : JobId} {s : StatusStream} {w w' : Jobs}

theorem changes_feed : w.feed.2.filterMap (·.change? id) = w.changes id := by
  rw [feed, changes, List.filterMap_filter]
  congr 1
  funext e
  cases e <;> rfl

theorem lookup_map_offer (streams : List (String × StatusStream)) (i : JobId) (status : JobStatus) :
    (streams.map fun (n, s) => (n, s.offer i status)).lookup name =
      (streams.lookup name).map (·.offer i status) := by
  induction streams with
  | nil => rfl
  | cons p streams ih =>
    obtain ⟨n, s⟩ := p
    rw [List.map_cons, List.lookup_cons, List.lookup_cons, ih]
    cases name == n <;> rfl

theorem offer_of_ne {i : JobId} (h : s.job ≠ i) (status : JobStatus) : s.offer i status = s := by
  simp [StatusStream.offer, h]

theorem passes_of_feeds (hf : Feeds w w') (hh : HasHistory id w w') (hj : (w.job? id).isSome = true)
    (hs : w.streams.lookup name = some s) (hjob : s.job = id) :
    ∃ changes, changes.length ≤ 1 ∧ Passes name id s w w' changes := by
  obtain ⟨changes, hchanges⟩ := hh hj
  obtain ⟨more, hmore, hlater, -⟩ := hchanges.journal
  have hafter : w'.changes id = w.changes id ++ changes := by
    rw [Jobs.changes, hmore, List.filterMap_append, hlater]
    rfl
  have hpath : ∀ job, w.job? id = some job → ∃ job', w'.job? id = some job' ∧
      job.status.Path changes job'.status := by
    intro job hj
    obtain ⟨job', hj', hpath, -⟩ := hchanges.job job hj
    exact ⟨job', hj', hpath⟩
  have hfed : w'.feed.2.filterMap (·.change? id) = w.feed.2.filterMap (·.change? id) ++ changes := by
    rw [changes_feed, changes_feed, hafter]
  obtain hfeed | ⟨i, status, hfeed⟩ := hf
  · rw [hfeed, List.self_eq_append_right] at hfed
    subst hfed
    have hstreams : w'.streams = w.streams := congrArg Prod.fst hfeed
    exact ⟨[], Nat.zero_le 1, hafter, by rw [hstreams, hs]; rfl, hpath⟩
  · rw [hfeed, List.filterMap_append, List.append_cancel_left_eq] at hfed
    have hstream : w'.streams.lookup name = some (s.offer i status) := by
      have hstreams : w'.streams = _ := congrArg Prod.fst hfeed
      rw [hstreams, lookup_map_offer, hs]
      rfl
    by_cases hi : i = id
    · subst hi
      obtain rfl : [status] = changes := by simpa [JournalEntry.change?] using hfed
      exact ⟨[status], Nat.le_refl 1, hafter, hstream, hpath⟩
    · obtain rfl : [] = changes := by simpa [JournalEntry.change?, hi] using hfed
      rw [offer_of_ne (by rw [hjob]; exact Ne.symm hi)] at hstream
      exact ⟨[], Nat.zero_le 1, hafter, hstream, hpath⟩

theorem poll_cases (w : Jobs) (n : String) : (w.poll n).1 = w ∨ ∃ s, (w.poll n).1 = w.setStream n s := by
  unfold poll
  split
  · exact .inl rfl
  · split
    · exact .inr ⟨_, rfl⟩
    · split
      · exact .inr ⟨_, rfl⟩
      · exact .inl rfl

theorem drain_cases (w : Jobs) (n : String) : (w.drain n).1 = w ∨ ∃ s, (w.drain n).1 = w.setStream n s := by
  cases hs : w.streams.lookup n with
  | none =>
    rw [drain, hs]
    exact .inl rfl
  | some s =>
    rw [drain_eq hs]
    exact .inr ⟨_, rfl⟩

theorem passes_of_ne (hn : n ≠ name) (hs : w.streams.lookup name = some s)
    (h : w' = w ∨ ∃ t, w' = w.setStream n t) : Passes name id s w w' [] where
  entered := by
    obtain rfl | ⟨t, rfl⟩ := h
    · exact (List.append_nil _).symm
    · exact (List.append_nil _).symm
  stream := by
    obtain rfl | ⟨t, rfl⟩ := h
    · exact hs
    · exact (lookup_setStream_ne hn t).trans hs
  job job hj := by
    obtain rfl | ⟨t, rfl⟩ := h
    · exact ⟨job, hj, .nil _⟩
    · exact ⟨job, hj, .nil _⟩

def Deed.Spares (name : String) : Deed → Prop
  | openStream n _ | poll n | drain n => n ≠ name
  | _ => True

theorem passes_of_spares {d : Deed} (hd : d.Spares name) (hj : (w.job? id).isSome = true)
    (hs : w.streams.lookup name = some s) (hjob : s.job = id) :
    ∃ changes, changes.length ≤ 1 ∧ Passes name id s w (d.run w) changes := by
  have hmove : ∀ w', Move w w' → Feeds w w' →
      ∃ changes, changes.length ≤ 1 ∧ Passes name id s w w' changes :=
    fun w' hm hf => passes_of_feeds hf (hm.hasHistory id) hj hs hjob
  cases d with
  | errand =>
    cases hstep : w.step with
    | none =>
      rw [Deed.run, hstep]
      exact ⟨[], Nat.zero_le 1, (List.append_nil _).symm, hs, fun job hj => ⟨job, hj, .nil _⟩⟩
    | some w' =>
      rw [Deed.run, hstep]
      exact hmove w' (.errand hstep) (feeds_step w hstep)
  | ask i act => exact hmove _ (.ask i act) (feeds_perform w .caller i act)
  | spawn i script => exact hmove _ (.spawn i script) (feeds_changeFor w .caller i _ _ _)
  | add b => exact hmove _ (.add b) (.inl (feed_add w b))
  | due d => exact hmove _ (.due d) (feeds_begin w d)
  | tick => exact hmove _ .tick (.inl rfl)
  | hold n i => exact hmove _ (.hold n i) (.inl rfl)
  | release n => exact hmove _ (.release n) (.inl rfl)
  | track mid i => exact hmove _ (.track mid i) (.inl rfl)
  | untrack mid => exact hmove _ (.untrack mid) (.inl rfl)
  | openStream n i => exact ⟨[], Nat.zero_le 1, passes_of_ne hd hs (.inr ⟨_, rfl⟩)⟩
  | poll n => exact ⟨[], Nat.zero_le 1, passes_of_ne hd hs (poll_cases w n)⟩
  | drain n => exact ⟨[], Nat.zero_le 1, passes_of_ne hd hs (drain_cases w n)⟩

end

/-! ## Following a job -/

/-- The consumer of the stream of a job has read, and may still read, its changes since the stream was
opened, in their order and up to the last. What it missed is by what it fell behind too far. -/
structure Follows (name : String) (id : JobId) (before : List JobStatus) (first : JobStatus)
    (r : Reading) (s : StatusStream) (changes : List JobStatus) : Prop where
  entered : r.jobs.changes id = before ++ changes
  job : ∃ job, r.jobs.job? id = some job ∧ first.Path changes job.status
  stream : r.jobs.streams.lookup name = some s
  ofJob : s.job = id
  kept : (r.got ++ s.unread).Sublist changes
  last : (r.got ++ s.unread).getLast? = changes.getLast?
  recent : s.unread <:+ changes
  few : s.unread.length ≤ streamCapacity
  missed : changes.length = r.got.length + s.unread.length + (r.lag - streamCapacity)
  finished : s.isFinished = true ↔ s.unread = [] ∧ r.jobs.isDone id = true

section
variable {name : String} {id : JobId} {before changes : List JobStatus} {first : JobStatus}
variable {r : Reading} {s : StatusStream} {w : Jobs} {job : Job}

theorem isDone_eq (hj : w.job? id = some job) : w.isDone id = job.status.isDone := by
  rw [isDone, hj, Option.any_some]

theorem offer_of_open (hjob : s.job = id) (hopen : s.isFinished = false) (status : JobStatus) :
    s.offer id status =
      { s with unread := (s.unread ++ [status]).drop (s.unread.length + 1 - streamCapacity) } := by
  simp [StatusStream.offer, hjob, hopen]

theorem Follows.quiet (h : Follows name id before first r s changes) {w : Jobs}
    (hp : Passes name id s r.jobs w []) :
    Follows name id before first (r.move id before.length w []) s changes := by
  unfold Reading.move
  rw [List.append_nil]
  have hentered : w.changes id = before ++ changes := by
    rw [hp.entered, h.entered, List.append_nil]
  obtain ⟨job, hj, hpath⟩ := h.job
  obtain ⟨job', hj', hsame⟩ := hp.job job hj
  have hstatus : job'.status = job.status := hsame.eq_of_nil
  refine ⟨hentered, ⟨job', hj', hstatus ▸ hpath⟩, hp.stream, h.ofJob, h.kept, h.last, h.recent, h.few, ?_, ?_⟩
  · have hmissed := h.missed
    have hfew := h.few
    rw [hentered, List.length_append]
    dsimp only
    omega
  · rw [h.finished, isDone_eq hj, isDone_eq hj', hstatus]

theorem Follows.change (h : Follows name id before first r s changes) {w : Jobs} {status : JobStatus}
    (hp : Passes name id s r.jobs w [status]) :
    Follows name id before first (r.move id before.length w []) (s.offer id status)
      (changes ++ [status]) := by
  unfold Reading.move
  rw [List.append_nil]
  have hentered : w.changes id = before ++ (changes ++ [status]) := by
    rw [hp.entered, h.entered, List.append_assoc]
  obtain ⟨job, hj, hpath⟩ := h.job
  obtain ⟨job', hj', hchange⟩ := hp.job job hj
  -- a job that changes is not done, so its stream has not ended
  have hopen : s.isFinished = false := by
    cases hchange with
    | cons hdone =>
      rw [← Bool.not_eq_true, h.finished, isDone_eq hj, hdone]
      exact fun hf => Bool.false_ne_true hf.2
  have hoffer := offer_of_open h.ofJob hopen status
  have hsuffix := List.drop_suffix (s.unread.length + 1 - streamCapacity) (s.unread ++ [status])
  have hlength : ((s.unread ++ [status]).drop (s.unread.length + 1 - streamCapacity)).length =
      s.unread.length + 1 - (s.unread.length + 1 - streamCapacity) := by
    rw [List.length_drop, List.length_append, List.length_singleton]
  have hfew := h.few
  have hmissed := h.missed
  have hlast : ((s.unread ++ [status]).drop (s.unread.length + 1 - streamCapacity)).getLast? =
      some status := by
    rw [List.getLast?_drop, if_neg, List.getLast?_concat]
    rw [List.length_append, List.length_singleton, streamCapacity]
    omega
  refine ⟨hentered, ⟨job', hj', hpath.append hchange⟩, hp.stream, ?_, ?_, ?_, ?_, ?_, ?_, ?_⟩
  · rw [hoffer]
    exact h.ofJob
  · rw [hoffer]
    have hall : (r.got ++ (s.unread ++ [status])).Sublist (changes ++ [status]) := by
      rw [← List.append_assoc]
      exact h.kept.append_right [status]
    exact (hsuffix.sublist.append_left r.got).trans hall
  · rw [hoffer, List.getLast?_append, hlast, List.getLast?_concat, Option.some_or]
  · rw [hoffer]
    obtain ⟨earlier, hearlier⟩ := h.recent
    exact hsuffix.trans ⟨earlier, by rw [← List.append_assoc, hearlier]⟩
  · rw [hoffer]
    dsimp only
    rw [hlength, streamCapacity]
    omega
  · -- one more is behind, and one more is missed once as many wait as a stream keeps
    rw [hoffer, hentered]
    dsimp only
    rw [hlength]
    simp only [List.length_append, List.length_singleton, streamCapacity] at hmissed hfew ⊢
    omega
  · rw [hoffer]
    dsimp only
    rw [hopen]
    refine ⟨nofun, fun hf => ?_⟩
    rw [hf.1] at hlast
    cases hlast

theorem Follows.read (h : Follows name id before first r s changes) {taken : List JobStatus}
    {t : StatusStream} (hunread : s.unread = taken ++ t.unread) (hjob : t.job = s.job)
    (hfinished : t.isFinished = true ↔ t.unread = [] ∧ r.jobs.isDone id = true) :
    Follows name id before first (r.move id before.length (r.jobs.setStream name t) taken) t changes := by
  unfold Reading.move
  have hentered : (r.jobs.setStream name t).changes id = before ++ changes := h.entered
  have hread : r.got ++ taken ++ t.unread = r.got ++ s.unread := by
    rw [hunread, List.append_assoc]
  refine ⟨hentered, h.job, lookup_setStream t, hjob.trans h.ofJob, ?_, ?_, ?_, ?_, ?_, hfinished⟩
  · rw [hread]
    exact h.kept
  · rw [hread]
    exact h.last
  · exact List.IsSuffix.trans ⟨taken, hunread.symm⟩ h.recent
  · have hfew := h.few
    rw [hunread, List.length_append] at hfew
    omega
  · have hmissed := h.missed
    have hfew := h.few
    rw [hentered]
    rw [hunread] at hmissed hfew
    simp only [List.length_append] at hmissed hfew ⊢
    omega

theorem Follows.of_isDone (h : Follows name id before first r s changes) {status : JobStatus}
    {taken rest : List JobStatus} (hunread : s.unread = taken ++ status :: rest)
    (hdone : status.isDone = true) : rest = [] ∧ r.jobs.isDone id = true := by
  obtain ⟨job, hj, hpath⟩ := h.job
  have hsub : (r.got ++ taken ++ status :: rest).Sublist changes := by
    rw [List.append_assoc, ← hunread]
    exact h.kept
  obtain ⟨hrest, hstatus⟩ := hpath.of_sublist hsub hdone
  exact ⟨hrest, by rw [isDone_eq hj, hstatus, hdone]⟩

theorem Follows.last_isDone (h : Follows name id before first r s changes) {status : JobStatus}
    (hlast : s.unread.getLast? = some status) (hdone : r.jobs.isDone id = true) :
    status.isDone = true := by
  obtain ⟨job, hj, hpath⟩ := h.job
  have hchanges : changes.getLast? = some status := by
    rw [← h.last, List.getLast?_append, hlast, Option.some_or]
  have hne : changes ≠ [] := by
    rintro rfl
    cases hchanges
  obtain rfl := Option.some.inj ((hpath.getLast?_eq hne).symm.trans hchanges)
  rwa [← isDone_eq hj]

theorem Follows.ended_iff (h : Follows name id before first r s changes)
    (hheld : r.jobs.isHeld id = true ∨ r.jobs.isDone id = true) :
    (r.jobs.readStream s).2 = true ↔ r.jobs.isDone id = true := by
  constructor
  · intro hended
    simp only [readStream, Bool.or_eq_true, Bool.not_eq_true', h.ofJob] at hended
    obtain (hfinished | hany) | hunheld := hended
    · exact (h.finished.mp hfinished).2
    · obtain ⟨status, hmem, hdone⟩ := List.any_eq_true.mp hany
      obtain ⟨taken, rest, hunread⟩ := List.append_of_mem hmem
      exact (h.of_isDone hunread hdone).2
    · exact hheld.resolve_left (by simp [hunheld])
  · intro hdone
    simp only [readStream, Bool.or_eq_true]
    cases hlast : s.unread.getLast? with
    | none => exact .inl (.inl (h.finished.mpr ⟨List.getLast?_eq_none_iff.mp hlast, hdone⟩))
    | some status =>
      refine .inl (.inr (List.any_eq_true.mpr ⟨status, List.mem_of_getLast? hlast, ?_⟩))
      exact h.last_isDone hlast hdone

theorem Follows.drain (h : Follows name id before first r s changes)
    (hheld : r.jobs.isHeld id = true ∨ r.jobs.isDone id = true) :
    ∃ t, Follows name id before first (r.next name id before.length (.drain name)) t changes := by
  have hgot : (Deed.drain name).reads r.jobs name = s.unread := by
    simp only [Deed.reads, drain_eq h.stream, beq_self_eq_true]
    rfl
  rw [Reading.next, hgot, Deed.run, drain_eq h.stream]
  exact ⟨_, h.read (List.append_nil _).symm rfl ((h.ended_iff hheld).trans (by simp))⟩

theorem Follows.poll (h : Follows name id before first r s changes)
    (hheld : r.jobs.isHeld id = true ∨ r.jobs.isDone id = true) :
    ∃ t, Follows name id before first (r.next name id before.length (.poll name)) t changes := by
  cases hunread : s.unread with
  | cons status rest =>
    have hopen : s.isFinished = false := by
      rw [← Bool.not_eq_true, h.finished, hunread]
      exact fun hf => List.cons_ne_nil status rest hf.1
    have hpoll := poll_of_cons h.stream hunread
    have hgot : (Deed.poll name).reads r.jobs name = [status] := by
      simp only [Deed.reads, hpoll, beq_self_eq_true]
    rw [Reading.next, hgot, Deed.run, hpoll]
    refine ⟨_, h.read hunread rfl ?_⟩
    dsimp only
    rw [hopen, Bool.false_or]
    constructor
    · have hfront : s.unread = [] ++ status :: rest := hunread
      exact h.of_isDone hfront
    · rintro ⟨rfl, hdone⟩
      exact h.last_isDone (by rw [hunread, List.getLast?_singleton]) hdone
  | nil =>
    have hpoll := poll_of_nil h.stream hunread
    by_cases hended : (s.isFinished || !r.jobs.isHeld s.job) = true
    · -- nothing waits, so what ends the stream is the job itself
      rw [if_pos hended] at hpoll
      have hdone : r.jobs.isDone id = true := by
        rw [← h.ended_iff hheld, readStream]
        simp only [Bool.or_eq_true] at hended ⊢
        exact hended.imp_left .inl
      rw [Reading.next, Deed.reads, Deed.run, hpoll, beq_self_eq_true]
      exact ⟨_, h.read (List.nil_append _).symm rfl ⟨fun _ => ⟨hunread, hdone⟩, fun _ => rfl⟩⟩
    · rw [if_neg hended] at hpoll
      rw [Reading.next, Deed.reads, Deed.run, hpoll, beq_self_eq_true]
      exact ⟨s, h.quiet ⟨(List.append_nil _).symm, h.stream, fun job hj => ⟨job, hj, .nil _⟩⟩⟩

theorem reads_of_spares {d : Deed} (hd : d.Spares name) : d.reads w name = [] := by
  cases d with
  | poll n | drain n =>
    have hne : (n == name) = false := beq_eq_false_iff_ne.mpr hd
    simp only [Deed.reads, hne]
  | _ => rfl

/-- Whatever happens, the consumer follows the job, unless somebody takes its stream away. -/
theorem Follows.next (h : Follows name id before first r s changes) {d : Deed}
    (hopen : ∀ i, d ≠ .openStream name i)
    (hheld : r.jobs.isHeld id = true ∨ r.jobs.isDone id = true) :
    ∃ t later, Follows name id before first (r.next name id before.length d) t later := by
  by_cases hd : d.Spares name
  · obtain ⟨job, hj, -⟩ := h.job
    obtain ⟨new, hnew, hp⟩ := passes_of_spares hd (Option.isSome_iff_exists.mpr ⟨job, hj⟩) h.stream h.ofJob
    rw [Reading.next, reads_of_spares hd]
    match new, hnew with
    | [], _ => exact ⟨_, _, h.quiet hp⟩
    | [status], _ => exact ⟨_, _, h.change hp⟩
  · cases d with
    | openStream n i =>
      obtain rfl : n = name := Decidable.not_not.mp hd
      exact absurd rfl (hopen i)
    | poll n =>
      obtain rfl : n = name := Decidable.not_not.mp hd
      obtain ⟨t, ht⟩ := h.poll hheld
      exact ⟨t, changes, ht⟩
    | drain n =>
      obtain rfl : n = name := Decidable.not_not.mp hd
      obtain ⟨t, ht⟩ := h.drain hheld
      exact ⟨t, changes, ht⟩
    | _ => exact absurd trivial hd

theorem follows_openStream (hj : w.job? id = some job) : Follows name id (w.changes id) job.status
    ⟨w.openStream name id, [], 0⟩ ⟨id, [], w.isDone id⟩ [] where
  entered := (List.append_nil _).symm
  job := ⟨job, hj, .nil _⟩
  stream := lookup_setStream (w := w) ⟨id, [], w.isDone id⟩
  ofJob := rfl
  kept := List.Sublist.refl []
  last := rfl
  recent := List.suffix_rfl
  few := Nat.zero_le _
  missed := rfl
  finished := ⟨fun h => ⟨rfl, h⟩, fun h => h.2⟩

theorem follows_after (hj : w.job? id = some job) {deeds : List Deed}
    (hopen : ∀ i, .openStream name i ∉ deeds)
    (hheld : ∀ earlier, earlier <+: deeds → let v := (Reading.after w name id earlier).jobs
      v.isHeld id = true ∨ v.isDone id = true) :
    ∃ s changes, Follows name id (w.changes id) job.status (Reading.after w name id deeds) s changes := by
  -- from the last deed: a consumer is what came of the deeds before it
  induction deeds using List.reverseRecOn with
  | nil => exact ⟨_, _, follows_openStream hj⟩
  | append_singleton deeds d ih =>
    have hbefore : deeds <+: deeds ++ [d] := List.prefix_append deeds [d]
    obtain ⟨s, changes, h⟩ := ih (fun i hi => hopen i (hbefore.subset hi))
      fun earlier hearlier => hheld earlier (hearlier.trans hbefore)
    have hlast : ∀ i, d ≠ .openStream name i := by
      rintro i rfl
      exact hopen i (List.mem_append_right deeds List.mem_cons_self)
    obtain ⟨t, later, hnext⟩ := h.next hlast (hheld deeds hbefore)
    refine ⟨t, later, ?_⟩
    rw [Reading.after, List.foldl_append]
    exact hnext

end

/-- However a stream is read while its job comes to be done, what is read and what still waits then are
changes since the stream was opened, in their order and up to the last one, which is done; and the stream
ends behind them. Some are missed only if reading falls behind by more changes than a stream keeps, and by
as many as it falls behind more. The job is held until it is done, since one that nobody holds changes no
more, which ends its streams too. -/
theorem stream_follows_job {w : Jobs} {id : JobId} {name : String} {deeds : List Deed}
    (hj : (w.job? id).isSome = true) (hopen : ∀ i, .openStream name i ∉ deeds)
    (hheld : ∀ earlier, earlier <+: deeds → let v := (Reading.after w name id earlier).jobs
      v.isHeld id = true ∨ v.isDone id = true)
    (hdone : (Reading.after w name id deeds).jobs.isDone id = true) :
    let r := Reading.after w name id deeds
    ∃ changes rest v, r.jobs.changes id = w.changes id ++ changes ∧
      r.jobs.drain name = (v, some (rest, true)) ∧ (v.drain name).2 = some ([], true) ∧
      (v.poll name).2 = some .ended ∧
      (r.got ++ rest).Sublist changes ∧
      (w.isDone id = true → changes = []) ∧
      (w.isDone id = false → ∃ status, status.isDone = true ∧ changes.getLast? = some status ∧
        (r.got ++ rest).getLast? = some status) ∧
      changes.length = (r.got ++ rest).length + (r.lag - streamCapacity) ∧
      (r.lag ≤ streamCapacity ↔ r.got ++ rest = changes) := by
  intro r
  obtain ⟨job, hj⟩ := Option.isSome_iff_exists.mp hj
  obtain ⟨s, changes, h⟩ := follows_after hj hopen hheld
  have hended : (r.jobs.readStream s).2 = true := (h.ended_iff (.inr hdone)).mpr hdone
  have hread : r.jobs.readStream s = (s.unread, true) := by rw [← hended]; rfl
  have hdrain := drain_eq h.stream
  rw [hread] at hdrain
  obtain ⟨job', hj', hpath⟩ := h.job
  have hlength : changes.length = (r.got ++ s.unread).length + (r.lag - streamCapacity) := by
    rw [List.length_append]
    exact h.missed
  refine ⟨changes, s.unread, _, h.entered, hdrain, ?_, ?_, h.kept, ?_, ?_, hlength, ?_⟩
  · rw [drain_eq (lookup_setStream _)]
    rfl
  · rw [poll_of_nil (lookup_setStream _) rfl]
    rfl
  · intro hover
    rw [isDone_eq hj] at hover
    exact (hpath.eq_of_isDone hover).1
  · intro hrunning
    have hne : changes ≠ [] := by
      rintro rfl
      rw [isDone_eq hj, ← hpath.eq_of_nil, ← isDone_eq hj', hdone] at hrunning
      cases hrunning
    have hlast := hpath.getLast?_eq hne
    exact ⟨job'.status, by rwa [← isDone_eq hj'], hlast, h.last.trans hlast⟩
  · constructor
    · intro hlag
      rw [Nat.sub_eq_zero_of_le hlag, Nat.add_zero] at hlength
      exact h.kept.eq_of_length hlength.symm
    · intro hall
      rw [hall] at hlength
      omega

def changeTo (id : JobId) (status : JobStatus) : List Deed :=
  .ask id (.set status .empty) :: List.replicate 4 .errand

/-- The first of three changes is read at once and the others in the end. -/
theorem stream_follows_job_read :
    let b : Blueprint := ⟨⟨"me", 1, "actor", "", "text", none⟩, some .channel, [], false, none⟩
    let w := ((empty true).add b).hold "x" 0
    let deeds := changeTo 0 .running ++ [.poll "s"] ++ changeTo 0 .failing ++ changeTo 0 .failed
    let r := Reading.after w "s" 0 deeds
    w.isDone 0 = false ∧ r.jobs.isDone 0 = true ∧ r.got = [.running] ∧
      ∃ rest v, r.jobs.drain "s" = (v, some (rest, true)) ∧
        r.got ++ rest = [.running, .failing, .failed] := by
  intro b w deeds r
  have hopen : ∀ i, .openStream "s" i ∉ deeds := by
    intro i
    simp [deeds, changeTo]
  have hheld : ∀ earlier, earlier <+: deeds → let v := (Reading.after w "s" 0 earlier).jobs
      v.isHeld 0 = true ∨ v.isDone 0 = true := by
    intro earlier hearlier
    have hall : ∀ e ∈ deeds.inits, (Reading.after w "s" 0 e).jobs.isHeld 0 = true := by decide
    exact .inl (hall earlier ((List.mem_inits _ _).mpr hearlier))
  have hdone : r.jobs.isDone 0 = true := by decide
  obtain ⟨changes, rest, v, hchanges, hdrain, -, -, -, -, -, -, hall⟩ :=
    stream_follows_job (by decide) hopen hheld hdone
  refine ⟨by decide, hdone, by decide, rest, v, hdrain, ?_⟩
  rw [hall.mp (by decide)]
  have hjournal : r.jobs.changes 0 = [.running, .failing, .failed] := by decide
  have hbefore : w.changes 0 = [] := by decide
  rw [hbefore] at hchanges
  exact hchanges.symm.trans hjournal

/-- Seventeen changes before the first is read: a stream does not have them all. -/
theorem stream_skips_changes :
    ¬∀ (w : Jobs) (id : JobId) (name : String) (deeds : List Deed),
      (w.job? id).isSome = true → w.isDone id = false → (∀ i, .openStream name i ∉ deeds) →
      (∀ earlier, earlier <+: deeds → (Reading.after w name id earlier).jobs.isHeld id = true) →
      let r := Reading.after w name id deeds
      r.jobs.isDone id = true →
      ∃ rest, (r.jobs.drain name).2 = some (rest, true) ∧
        r.jobs.changes id = w.changes id ++ (r.got ++ rest) := by
  intro h
  let b : Blueprint := ⟨⟨"me", 1, "actor", "", "text", none⟩, some .channel, [], false, none⟩
  let w := ((empty true).add b).hold "x" 0
  let deeds := (List.replicate 8 (changeTo 0 .running ++ changeTo 0 .failing)).flatten ++ changeTo 0 .failed
  have hopen : ∀ i, .openStream "s" i ∉ deeds := by
    intro i
    simp [deeds, changeTo]
  have hheld : ∀ earlier, earlier <+: deeds → (Reading.after w "s" 0 earlier).jobs.isHeld 0 = true := by
    intro earlier hearlier
    have hall : ∀ e ∈ deeds.inits, (Reading.after w "s" 0 e).jobs.isHeld 0 = true := by decide +kernel
    exact hall earlier ((List.mem_inits _ _).mpr hearlier)
  have hdone : (Reading.after w "s" 0 deeds).jobs.isDone 0 = true := by decide +kernel
  obtain ⟨rest, hdrain, hchanges⟩ := h w 0 "s" deeds (by decide) (by decide) hopen hheld hdone
  have hcounts : ((Reading.after w "s" 0 deeds).jobs.drain "s").2.map (·.1.length) = some 16 ∧
      (Reading.after w "s" 0 deeds).got = [] ∧ w.changes 0 = [] ∧
      ((Reading.after w "s" 0 deeds).jobs.changes 0).length = 17 := by decide +kernel
  obtain ⟨hrest, hgot, hbefore, hmany⟩ := hcounts
  rw [hdrain] at hrest
  rw [hchanges, hgot, hbefore, List.nil_append, List.nil_append] at hmany
  have hlength : rest.length = 16 := Option.some.inj hrest
  omega

end Jobs

end ActorHub
