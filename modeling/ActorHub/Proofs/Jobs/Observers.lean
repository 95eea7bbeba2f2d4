import ActorHub.Proofs.Jobs.Delivery

/-!
# Observers

What the callbacks of a job learn of its changes. Deliveries are counted in rounds: a round is one
change and the number of callbacks that it is delivered to, which are those that the job has when the
round begins. A ledger relates the rounds so far to what has happened, to what still waits and to the
calls that a round still owes; every step keeps it (`View.Step.hasLedger`), so it holds when no delivery
is under way, and then nothing is owed.
-/

namespace ActorHub

structure Call where
  place : Nat
  name : Option String
  status : JobStatus
deriving DecidableEq

def JournalEntry.call? (id : JobId) : JournalEntry → Option Call
  | .called job place name status => if job = id then some ⟨place, name, status⟩ else none
  | _ => none

def callsFrom (status : JobStatus) : Nat → List Callback → List Call
  | _, [] => []
  | place, c :: cs => ⟨place, c.name?, status⟩ :: callsFrom status (place + 1) cs

structure Round where
  status : JobStatus
  /-- The number of callbacks that there are when the round begins. -/
  size : Nat

def Round.calls (cs : List Callback) (r : Round) : List Call :=
  callsFrom r.status 0 (cs.take r.size)

/-- The code of a reply that was written for the change behind it. -/
def announcement? : JournalEntry → JournalEntry → Option Char
  | .wrote _ _ reply, .changed _ _ => some reply.code
  | _, _ => none

def announcements (es : List JournalEntry) : List Char :=
  (es.zip es.tail).filterMap fun (e, e') => announcement? e e'

def JournalEntry.isReply : JournalEntry → Bool
  | .wrote .. => true
  | _ => false

namespace Jobs

def changes (w : Jobs) (id : JobId) : List JobStatus :=
  w.journal.filterMap (·.change? id)

def calls (w : Jobs) (id : JobId) : List Call :=
  w.journal.filterMap (·.call? id)

def delivered (w : Jobs) (id : JobId) (place : Nat) : List JobStatus :=
  ((w.calls id).filter (·.place == place)).map (·.status)

/-- On the way from one moment to another the callback of a job at a place is added, by a move that
leaves the jobs and this job as they are given. -/
def Adds (u w : Jobs) (id : JobId) (place : Nat) (v : Jobs) (job : Job) : Prop :=
  ∃ before old, u.Leads before ∧ Move before v ∧ v.Leads w ∧ before.job? id = some old ∧
    v.job? id = some job ∧ old.callbacks.length ≤ place ∧ place < job.callbacks.length

/-- The codes of the replies of a job that its changes wrote, each right before the change. -/
def announced (w : Jobs) (id : JobId) : List Char :=
  announcements (w.journal.filter (·.isOf id))

end Jobs

/-! ## Calls -/

theorem place_callsFrom (status : JobStatus) (place i : Nat) (cs : List Callback) :
    ((callsFrom status place cs).filter (·.place == i)).map (·.status) =
      if place ≤ i ∧ i < place + cs.length then [status] else [] := by
  induction cs generalizing place with
  | nil => grind [callsFrom]
  | cons c cs ih =>
    have hrest := ih (place + 1)
    by_cases hp : place = i
    · have hlater : ¬(place + 1 ≤ i ∧ i < place + 1 + cs.length) := by omega
      have hnow : place ≤ i ∧ i < place + (c :: cs).length := by
        rw [List.length_cons]
        omega
      rw [if_neg hlater] at hrest
      rw [if_pos hnow, callsFrom, List.filter_cons_of_pos (by simpa using hp), List.map_cons, hrest]
    · have hiff : (place ≤ i ∧ i < place + (c :: cs).length) ↔
          (place + 1 ≤ i ∧ i < place + 1 + cs.length) := by
        rw [List.length_cons]
        omega
      rw [callsFrom, List.filter_cons_of_neg (by simpa using hp), hrest]
      simp only [hiff]

theorem delivered_rounds (i : Nat) {cs : List Callback} {rounds : List Round}
    (h : ∀ r ∈ rounds, r.size ≤ cs.length) :
    ((rounds.flatMap (·.calls cs)).filter (·.place == i)).map (·.status) =
      (rounds.filter (i < ·.size)).map (·.status) := by
  induction rounds with
  | nil => rfl
  | cons r rounds ih =>
    have hsize : r.size ≤ cs.length := h r List.mem_cons_self
    have hrest := ih fun r' hr' => h r' (List.mem_cons_of_mem r hr')
    have hround := place_callsFrom r.status 0 i (cs.take r.size)
    rw [List.length_take, Nat.min_eq_left hsize] at hround
    rw [List.flatMap_cons, List.filter_append, List.map_append, hrest, Round.calls, hround]
    by_cases hi : i < r.size
    · simp [hi]
    · simp [hi]

/-! ## Announcements -/

section
variable (es : List JournalEntry)

theorem announcements_concat (e : JournalEntry) :
    announcements (es ++ [e]) = announcements es ++ (es.getLast?.bind (announcement? · e)).toList := by
  induction es with
  | nil => rfl
  | cons a es ih =>
    cases es with
    | nil => cases ha : announcement? a e <;> simp [announcements, ha]
    | cons b es =>
      have hcons : ∀ l : List JournalEntry, announcements (a :: b :: l) =
          (announcement? a b).toList ++ announcements (b :: l) := by
        intro l
        cases ha : announcement? a b <;> simp [announcements, ha]
      rw [List.getLast?_cons_cons, List.cons_append, List.cons_append, hcons, hcons,
        ← List.cons_append, ih, List.append_assoc]

theorem announcements_quiet {e : JournalEntry} (he : ∀ e', announcement? e' e = none) :
    announcements (es ++ [e]) = announcements es := by
  rw [announcements_concat]
  cases es.getLast? <;> simp [he]

theorem announcements_changed {id : JobId} {status : JobStatus} (h : es.filter (·.isReply) = []) :
    announcements (es ++ [.changed id status]) = announcements es := by
  rw [announcements_concat]
  cases hl : es.getLast? with
  | none => simp
  | some e =>
    have hlast := List.filter_eq_nil_iff.1 h e (List.mem_of_getLast? hl)
    cases e with
    | wrote => exact absurd rfl hlast
    | _ => simp [announcement?]

end

/-! ## Ledgers -/

/-- What a job that delivers, or does not, still has to do, and the calls that it owes. -/
inductive Phase (id : JobId) (n : Notifier) : List Errand → List Call → Prop
  | idle : n.isNotifying = false → n.pending = [] → Phase id n [] []
  | between : n.isNotifying = true → Phase id n [.notify id] []
  | calling (status : JobStatus) (place : Nat) (cs : List Callback) : n.isNotifying = true →
      Phase id n [.call id status place cs, .notify id] (callsFrom status place cs)

structure Ledger (id : JobId) (first : List JobStatus) (rounds : List Round) (n : Notifier)
    (errands : List Errand) (entries : List JournalEntry) (owed : List Call) : Prop where
  phase : Phase id n errands owed
  changes : first ++ entries.filterMap (·.change? id) = rounds.map (·.status) ++ n.pending
  calls : entries.filterMap (·.call? id) ++ owed = rounds.flatMap (·.calls n.callbacks)
  sizes : ∀ r ∈ rounds, r.size ≤ n.callbacks.length
  unattached : n.writer = none → entries.filter (·.isReply) = []
  announced : n.parent = none → announcements entries =
    if n.writer.isSome then (entries.filterMap (·.change? id)).map (·.code) else []

def View.HasLedger (id : JobId) (first : List JobStatus) (rounds : List Round) (v : View) : Prop :=
  ∃ n owed, v.notifier = some n ∧ Ledger id first rounds n v.errands v.entries owed

def View.callbacks (v : View) : List Callback :=
  v.notifier.elim [] (·.callbacks)

section
variable {id : JobId} {first : List JobStatus} {rounds : List Round} {n : Notifier}
  {es : List Errand} {js : List JournalEntry} {owed : List Call}

theorem Ledger.listen (h : Ledger id first rounds n es js owed) (c : Callback) :
    Ledger id first rounds { n with callbacks := n.callbacks ++ [c] } es js owed where
  phase := by
    cases h.phase with
    | idle hi hp => exact .idle hi hp
    | between hi => exact .between hi
    | calling status place cs hi => exact .calling status place cs hi
  changes := h.changes
  calls := by
    rw [h.calls]
    refine List.flatMap_congr fun r hr => ?_
    rw [Round.calls, Round.calls, List.take_append_of_le_length (h.sizes r hr)]
  sizes r hr := by
    have hsize := h.sizes r hr
    simp only [List.length_append]
    omega
  unattached := h.unattached
  announced := h.announced

theorem Ledger.write (h : Ledger id first rounds n es js owed) {writer : WriterId}
    (hw : n.writer = some writer) (reply : OutgoingReply) :
    Ledger id first rounds n es (js ++ [.wrote id writer reply]) owed where
  phase := h.phase
  changes := by simpa [JournalEntry.change?] using h.changes
  calls := by simpa [JournalEntry.call?] using h.calls
  sizes := h.sizes
  unattached hnone := by
    rw [hw] at hnone
    cases hnone
  announced hp := by
    have hquiet : ∀ e, announcement? e (.wrote id writer reply) = none := by
      intro e
      cases e <;> rfl
    rw [announcements_quiet js hquiet, h.announced hp]
    simp [JournalEntry.change?]

theorem Announces.silent {status : JobStatus} {notes : List JournalEntry}
    (h : Announces id n status notes) :
    notes.filterMap (·.change? id) = [] ∧ notes.filterMap (·.call? id) = [] := by
  cases h with
  | unattached | unsaid => exact ⟨rfl, rfl⟩
  | said reply => exact ⟨by simp [JournalEntry.change?], by simp [JournalEntry.call?]⟩

theorem Ledger.change (h : Ledger id first rounds n es js owed) {status : JobStatus}
    {notes : List JournalEntry} (hn : Announces id n status notes) :
    Ledger id first rounds { n with pending := n.pending ++ [status], isNotifying := true }
      ((if n.isNotifying then [] else [.notify id]) ++ es) (js ++ notes ++ [.changed id status])
      owed where
  phase := by
    cases h.phase with
    | idle hi => simpa [hi] using Phase.between rfl
    | between hi => simpa [hi] using Phase.between rfl
    | calling status place cs hi => simpa [hi] using Phase.calling status place cs rfl
  changes := by
    have hchanges := congrArg (· ++ [status]) h.changes
    rw [List.filterMap_append, List.filterMap_append, hn.silent.1, List.append_nil]
    simpa [JournalEntry.change?] using hchanges
  calls := by
    rw [List.filterMap_append, List.filterMap_append, hn.silent.2, List.append_nil]
    simpa [JournalEntry.call?] using h.calls
  sizes := h.sizes
  unattached hw := by
    cases hn with
    | unattached | unsaid =>
      rw [List.append_nil, List.filter_append, h.unattached hw]
      rfl
    | said reply hw' =>
      rw [hw] at hw'
      cases hw'
  announced hp := by
    have hannounced := h.announced hp
    cases hn with
    | unattached hw =>
      rw [List.append_nil, announcements_changed js (h.unattached hw), hannounced]
      simp [hw]
    | unsaid hp' => exact absurd hp hp'
    | @said writer reply hw hcode =>
      have hquiet : ∀ e, announcement? e (.wrote id writer reply) = none := by
        intro e
        cases e <;> rfl
      rw [announcements_concat, announcements_quiet js hquiet, hannounced]
      simp [hw, announcement?, JournalEntry.change?, hcode hp]

theorem Ledger.rest (h : Ledger id first rounds n (.notify id :: es) js owed) (hp : n.pending = []) :
    Ledger id first rounds { n with isNotifying := false } es js owed := by
  have hphase : Phase id { n with isNotifying := false } es owed := by
    cases h.phase with
    | between => exact .idle rfl hp
  exact ⟨hphase, h.changes, h.calls, h.sizes, h.unattached, h.announced⟩

theorem Ledger.begin (h : Ledger id first rounds n (.notify id :: es) js owed) {status : JobStatus}
    {rest : List JobStatus} (hp : n.pending = status :: rest) :
    ∃ owed', Ledger id first (rounds ++ [⟨status, n.callbacks.length⟩]) { n with pending := rest }
      (.call id status 0 n.callbacks :: .notify id :: es) js owed' := by
  cases hphase : h.phase with
  | between hi =>
    refine ⟨_, .calling status 0 n.callbacks hi, ?_, ?_, ?_, h.unattached, h.announced⟩
    · simpa [hp] using h.changes
    · have hcalls := congrArg (· ++ callsFrom status 0 n.callbacks) h.calls
      simpa [Round.calls] using hcalls
    · intro r hr
      rcases List.mem_append.1 hr with hr | hr
      · exact h.sizes r hr
      · obtain rfl := List.mem_singleton.1 hr
        exact Nat.le_refl _

theorem Ledger.call {status : JobStatus} {place : Nat} {c : Callback} {cs : List Callback}
    (h : Ledger id first rounds n (.call id status place (c :: cs) :: es) js owed) :
    ∃ owed', Ledger id first rounds n (.call id status (place + 1) cs :: es)
      (js ++ [.called id place c.name? status]) owed' := by
  have hquiet : ∀ e, announcement? e (.called id place c.name? status) = none := by
    intro e
    cases e <;> rfl
  cases hphase : h.phase with
  | calling _ _ _ hi =>
    refine ⟨_, .calling status (place + 1) cs hi, ?_, ?_, h.sizes, ?_, ?_⟩
    · simpa [JournalEntry.change?] using h.changes
    · simpa [JournalEntry.call?, callsFrom] using h.calls
    · intro hw
      rw [List.filter_append, h.unattached hw]
      rfl
    · intro hp
      rw [announcements_quiet js hquiet, h.announced hp]
      simp [JournalEntry.change?]

theorem Ledger.called {status : JobStatus} {place : Nat}
    (h : Ledger id first rounds n (.call id status place [] :: es) js owed) :
    Ledger id first rounds n es js [] := by
  cases hphase : h.phase with
  | calling _ _ _ hi =>
    exact ⟨.between hi, h.changes, h.calls, h.sizes, h.unattached, h.announced⟩

theorem View.Step.notifier_ne_none {v v' : View} (hs : View.Step id v v') : v'.notifier ≠ none := by
  cases hs <;> nofun

theorem View.Step.hasLedger {v v' : View} (hs : View.Step id v v') (h : v.HasLedger id first rounds) :
    ∃ more, v'.HasLedger id first (rounds ++ more) ∧ (∀ r ∈ more, r.size = v.callbacks.length) ∧
      v.callbacks <+: v'.callbacks := by
  obtain ⟨n, owed, hn, h⟩ := h
  have hkeep : v'.HasLedger id first rounds → v.callbacks <+: v'.callbacks →
      ∃ more, v'.HasLedger id first (rounds ++ more) ∧ (∀ r ∈ more, r.size = v.callbacks.length) ∧
        v.callbacks <+: v'.callbacks := by
    intro hv hc
    exact ⟨[], by rwa [List.append_nil], by simp, hc⟩
  cases hs with
  | listen _ c =>
    obtain rfl := Option.some.inj hn
    exact hkeep ⟨_, _, rfl, h.listen c⟩ (List.prefix_append _ _)
  | write reply _ _ hw =>
    obtain rfl := Option.some.inj hn
    exact hkeep ⟨_, _, rfl, h.write hw reply⟩ (List.prefix_refl _)
  | change _ _ hnotes =>
    obtain rfl := Option.some.inj hn
    exact hkeep ⟨_, _, rfl, h.change hnotes⟩ (List.prefix_refl _)
  | rest _ _ hp =>
    obtain rfl := Option.some.inj hn
    exact hkeep ⟨_, _, rfl, h.rest hp⟩ (List.prefix_refl _)
  | begin _ _ hp =>
    obtain rfl := Option.some.inj hn
    obtain ⟨owed', hbegun⟩ := h.begin hp
    refine ⟨_, ⟨_, _, rfl, hbegun⟩, ?_, List.prefix_refl _⟩
    intro r hr
    rw [List.mem_singleton.1 hr]
    rfl
  | call =>
    obtain rfl := Option.some.inj hn
    obtain ⟨owed', hcall⟩ := h.call
    exact hkeep ⟨_, _, rfl, hcall⟩ (List.prefix_refl _)
  | called =>
    obtain rfl := Option.some.inj hn
    exact hkeep ⟨_, _, rfl, h.called⟩ (List.prefix_refl _)

end

namespace Jobs

/-! ## Runs -/

section
variable {id : JobId} {u v w : Jobs} {first : List JobStatus} {rounds : List Round}

theorem job_of_hasLedger (h : (w.view id).HasLedger id first rounds) :
    ∃ job, w.job? id = some job ∧
      ∃ owed, Ledger id first rounds job.notifier (w.view id).errands (w.view id).entries owed := by
  obtain ⟨n, owed, hn, h⟩ := h
  obtain ⟨job, hj, rfl⟩ := Option.map_eq_some_iff.1 hn
  exact ⟨job, hj, owed, h⟩

theorem callbacks_view {job : Job} (hj : w.job? id = some job) :
    (w.view id).callbacks = job.callbacks := by
  rw [view_of_job hj]
  rfl

theorem Move.hasLedger (hm : Move u w) (h : (u.view id).HasLedger id first rounds) :
    ∃ more, (w.view id).HasLedger id first (rounds ++ more) ∧
      (∀ r ∈ more, r.size = (u.view id).callbacks.length) ∧
      (u.view id).callbacks <+: (w.view id).callbacks := by
  obtain ⟨job, hj, -⟩ := job_of_hasLedger h
  have hborn : (u.job? id).isSome := by simp [hj]
  rcases hm.view_cases id fun _ => hborn with hadvances | ⟨b, -, hid, -⟩
  · rcases hadvances with hsame | hstep
    · rw [hsame]
      exact ⟨[], by rwa [List.append_nil], by simp, List.prefix_refl _⟩
    · exact hstep.hasLedger h
  · rw [hid, job?, List.getElem?_eq_none (Nat.le_refl _)] at hborn
    cases hborn

theorem Leads.hasLedger (hl : u.Leads w) (h : (u.view id).HasLedger id first rounds) :
    ∃ more, (w.view id).HasLedger id first (rounds ++ more) ∧
      (∀ r ∈ more, (u.view id).callbacks.length ≤ r.size) ∧ more.Pairwise (·.size ≤ ·.size) ∧
      (u.view id).callbacks <+: (w.view id).callbacks := by
  induction hl with
  | refl => exact ⟨[], by rwa [List.append_nil], by simp, .nil, List.prefix_refl _⟩
  | tail _ hm ih =>
    obtain ⟨more, hv, hsizes, hsorted, hkept⟩ := ih
    obtain ⟨more', hw, hsizes', hkept'⟩ := hm.hasLedger hv
    obtain ⟨job, hj, owed, hledger⟩ := job_of_hasLedger hv
    refine ⟨more ++ more', by rwa [← List.append_assoc], ?_, ?_, hkept.trans hkept'⟩
    · intro r hr
      rcases List.mem_append.1 hr with hr | hr
      · exact hsizes r hr
      · rw [hsizes' r hr]
        exact hkept.length_le
    · refine List.pairwise_append.2 ⟨hsorted, ?_, ?_⟩
      · refine List.pairwise_of_forall_mem_list fun r hr r' hr' => ?_
        exact Nat.le_of_eq ((hsizes' r hr).trans (hsizes' r' hr').symm)
      · intro r hr r' hr'
        rw [hsizes' r' hr', callbacks_view hj]
        exact hledger.sizes r (List.mem_append_right _ hr)

theorem filterMap_entries {α : Type} (f : JournalEntry → Option α)
    (hf : ∀ e, e.isOf id = false → f e = none) :
    (w.view id).entries.filterMap f = w.journal.filterMap f := by
  rw [view, List.filterMap_filter]
  congr 1
  funext e
  by_cases he : e.isOf id = true
  · rw [if_pos he]
  · rw [if_neg he, hf e (by simpa using he)]

theorem changes_entries : (w.view id).entries.filterMap (·.change? id) = w.changes id := by
  refine filterMap_entries _ fun e he => ?_
  cases e with
  | changed => simpa [JournalEntry.change?, JournalEntry.isOf] using he
  | _ => rfl

theorem calls_entries : (w.view id).entries.filterMap (·.call? id) = w.calls id := by
  refine filterMap_entries _ fun e he => ?_
  cases e with
  | called => simpa [JournalEntry.call?, JournalEntry.isOf] using he
  | _ => rfl

theorem settled_of_idle (h : (w.view id).HasLedger id first rounds)
    (hidle : ∀ e ∈ w.agenda, e.delivers id = false) :
    ∃ job, w.job? id = some job ∧ job.pending = [] ∧ job.isNotifying = false ∧
      first ++ w.changes id = rounds.map (·.status) ∧
      w.calls id = rounds.flatMap (·.calls job.callbacks) ∧
      (∀ r ∈ rounds, r.size ≤ job.callbacks.length) ∧
      (job.parent = none →
        w.announced id = if job.writer.isSome then (w.changes id).map (·.code) else []) := by
  obtain ⟨job, hj, owed, h⟩ := job_of_hasLedger h
  have herrands : (w.view id).errands = [] := List.filter_eq_nil_iff.2 (by simpa using hidle)
  obtain ⟨hphase, hchanges, hcalls, hsizes, -, hannounced⟩ := h
  rw [herrands] at hphase
  rw [changes_entries] at hchanges hannounced
  rw [calls_entries] at hcalls
  cases hphase with
  | idle hi hp =>
    have hpending : job.pending = [] := hp
    refine ⟨job, hj, hp, hi, ?_, ?_, hsizes, hannounced⟩
    · simpa [Job.notifier, hpending] using hchanges
    · rwa [List.append_nil] at hcalls

theorem delivered_of_idle (h : (w.view id).HasLedger id first rounds)
    (hidle : ∀ e ∈ w.agenda, e.delivers id = false) (i : Nat) :
    w.delivered id i = (rounds.filter (i < ·.size)).map (·.status) := by
  obtain ⟨job, -, -, -, -, hcalls, hsizes, -⟩ := settled_of_idle h hidle
  rw [delivered, hcalls, delivered_rounds i hsizes]

theorem Leads.changes (hl : u.Leads w) (h : (u.job? id).isSome) :
    ∃ later, w.changes id = u.changes id ++ later := by
  obtain ⟨_, hhistory⟩ := hl.hasHistory id h
  obtain ⟨more, hmore, -⟩ := hhistory.journal
  exact ⟨more.filterMap (·.change? id), by simp [Jobs.changes, hmore]⟩

/-- A callback that is added gets what waits at that time, of which no delivery has begun, and what
comes after. -/
theorem delivered_of_adds {new : Job} {i : Nat} (h : (u.view id).HasLedger id first rounds)
    (ha : Adds u w id i v new) (hidle : ∀ e ∈ w.agenda, e.delivers id = false) :
    new.callbacks <+: (w.view id).callbacks ∧
      w.delivered id i = new.pending ++ (w.changes id).drop (v.changes id).length := by
  obtain ⟨before, old, hl, hm, hl', hbefore, hv, hold, hnew⟩ := ha
  obtain ⟨earlier, hearlier, -⟩ := hl.hasLedger h
  obtain ⟨begun, hafter, hbegun, -⟩ := hm.hasLedger hearlier
  obtain ⟨more, hlast, hmore, -, hkept⟩ := hl'.hasLedger hafter
  rw [callbacks_view hbefore] at hbegun
  rw [callbacks_view hv] at hmore hkept
  refine ⟨hkept, ?_⟩
  have hskipped : (rounds ++ earlier ++ begun).filter (i < ·.size) = [] := by
    obtain ⟨job, hj, owed, hledger⟩ := job_of_hasLedger hearlier
    obtain rfl := Option.some.inj (hbefore.symm.trans hj)
    refine List.filter_eq_nil_iff.2 fun r hr => ?_
    have hsize : r.size ≤ old.callbacks.length := by
      rcases List.mem_append.1 hr with hr | hr
      · exact hledger.sizes r hr
      · exact Nat.le_of_eq (hbegun r hr)
    simp only [decide_eq_true_eq]
    omega
  have hseen : more.filter (i < ·.size) = more := by
    refine List.filter_eq_self.2 fun r hr => ?_
    have hsize := hmore r hr
    simp only [decide_eq_true_eq]
    omega
  rw [delivered_of_idle hlast hidle, List.filter_append, hskipped, hseen, List.nil_append]
  obtain ⟨job, hj, owed, hledger⟩ := job_of_hasLedger hafter
  obtain rfl := Option.some.inj (hv.symm.trans hj)
  obtain ⟨-, -, -, -, hw, -⟩ := settled_of_idle hlast hidle
  have hborn : (v.job? id).isSome := by simp [hv]
  obtain ⟨later, hchanges⟩ := hl'.changes hborn
  have hbegan : first ++ v.changes id =
      (rounds ++ earlier ++ begun).map (·.status) ++ new.pending := by
    rw [← changes_entries]
    exact hledger.changes
  have hrest : (rounds ++ earlier ++ begun).map (·.status) ++ (new.pending ++ later) =
      (rounds ++ earlier ++ begun).map (·.status) ++ more.map (·.status) := by
    rw [← List.append_assoc, ← hbegan, List.append_assoc, ← hchanges, hw, List.map_append]
  rw [← List.append_cancel_left hrest, hchanges, List.drop_left]

theorem exists_adds (hl : u.Leads w) (h : (u.view id).HasLedger id first rounds) {i : Nat}
    (hi : (u.view id).callbacks.length ≤ i) (hi' : i < (w.view id).callbacks.length) :
    ∃ v new, Adds u w id i v new := by
  induction hl with
  | refl => omega
  | @tail before w hl hm ih =>
    by_cases hbefore : i < (before.view id).callbacks.length
    · obtain ⟨v, new, before', old, hl', hm', hl'', hadds⟩ := ih hbefore
      exact ⟨v, new, before', old, hl', hm', hl''.trans hm.leads, hadds⟩
    · obtain ⟨more, hledger, -⟩ := Leads.hasLedger hl h
      obtain ⟨more', hledger', -⟩ := hm.hasLedger hledger
      obtain ⟨old, hold, -⟩ := job_of_hasLedger hledger
      obtain ⟨new, hnew, -⟩ := job_of_hasLedger hledger'
      rw [callbacks_view hold] at hbefore
      rw [callbacks_view hnew] at hi'
      exact ⟨w, new, before, old, hl, hm, .refl w, hold, hnew, by omega, hi'⟩

/-! ## Jobs that are not there yet -/

theorem view_of_unborn {hasClock : Bool} (hl : (empty hasClock).Leads w) (hj : w.job? id = none) :
    (w.view id).errands = [] ∧ (w.view id).entries = [] := by
  induction hl with
  | refl => exact ⟨rfl, rfl⟩
  | @tail u w _ hm ih =>
    have hborn : (u.view id).errands ≠ [] → (u.job? id).isSome := by
      intro hne
      by_contra hnone
      exact hne (ih (Option.not_isSome_iff_eq_none.1 hnone)).1
    have hnone : (w.view id).notifier = none := by simp [view, hj]
    rcases hm.view_cases id hborn with (hsame | hstep) | ⟨b, -, -, hfresh⟩
    · rw [hsame] at hnone ⊢
      exact ih (Option.map_eq_none_iff.1 hnone)
    · exact absurd hnone hstep.notifier_ne_none
    · rw [hfresh] at hnone
      cases hnone

theorem hasLedger_add {hasClock : Bool} (hl : (empty hasClock).Leads u) (b : Blueprint) :
    ((u.add b).view u.jobs.length).HasLedger u.jobs.length (if b.callsNow then [.ready] else [])
      [] := by
  obtain ⟨herrands, hentries⟩ := view_of_unborn hl (List.getElem?_eq_none (Nat.le_refl _))
  rw [view_add, if_pos rfl, fresh, herrands, hentries]
  refine ⟨_, [], rfl, ?_, ?_, rfl, nofun, fun _ => rfl, ?_⟩
  · cases hb : b.callsNow with
    | false => exact .idle rfl rfl
    | true => exact .between rfl
  · cases b.callsNow <;> rfl
  · exact fun _ => (ite_self _).symm

theorem path_of_added {hasClock : Bool} (hu : (empty hasClock).Leads u) {b : Blueprint}
    (hw : (u.add b).Leads w) {job : Job} (hj : w.job? u.jobs.length = some job) :
    JobStatus.ready.Path (w.changes u.jobs.length) job.status := by
  obtain ⟨added, hadded, hready⟩ := job?_add u b
  obtain ⟨history, hhistory⟩ := hw.hasHistory u.jobs.length (by simp [hadded])
  obtain ⟨job', hj', hpath, -⟩ := hhistory.job added hadded
  obtain rfl := Option.some.inj (hj.symm.trans hj')
  obtain ⟨more, hmore, rfl, -⟩ := hhistory.journal
  have hbefore : (u.add b).changes u.jobs.length = [] := by
    obtain ⟨-, hentries⟩ := view_of_unborn hu (List.getElem?_eq_none (Nat.le_refl _))
    rw [← changes_entries, view_add, if_pos rfl, fresh, hentries]
    rfl
  have hchanges : w.changes u.jobs.length =
      (u.add b).changes u.jobs.length ++ more.filterMap (·.change? u.jobs.length) := by
    rw [Jobs.changes, hmore, List.filterMap_append]
    rfl
  rwa [hchanges, hbefore, List.nil_append, ← hready]

end

/-- However callbacks interfere, once no delivery is under way each of them has been called with the
changes of the job from some point on, all of them once and in order: a callback that the job was built
with from the start, a later one from the first change that no delivery had begun for. A delivery calls
the callbacks in the order of their registration. Replies, if any are written, tell the same history. -/
theorem observers_see_history {hasClock : Bool} {u w : Jobs} {b : Blueprint}
    (hu : (empty hasClock).Leads u) (hw : (u.add b).Leads w)
    (hidle : ∀ e ∈ w.agenda, e.delivers u.jobs.length = false) :
    let id := u.jobs.length
    let first := if b.callsNow then [JobStatus.ready] else []
    ∃ job, w.job? id = some job ∧ job.pending = [] ∧ job.isNotifying = false ∧
      JobStatus.ready.Path (w.changes id) job.status ∧
      (∃ rounds : List Round, rounds.map (·.status) = first ++ w.changes id ∧
        rounds.Pairwise (·.size ≤ ·.size) ∧ (∀ r ∈ rounds, r.size ≤ job.callbacks.length) ∧
        w.calls id = rounds.flatMap (·.calls job.callbacks)) ∧
      b.callbacks <+: job.callbacks ∧
      (∀ i < b.callbacks.length, w.delivered id i = first ++ w.changes id) ∧
      (∀ i < job.callbacks.length, b.callbacks.length ≤ i →
        ∃ v new, Adds (u.add b) w id i v new) ∧
      (∀ i v new, Adds (u.add b) w id i v new → new.callbacks <+: job.callbacks ∧
        w.delivered id i = new.pending ++ (w.changes id).drop (v.changes id).length) ∧
      (job.parent = none →
        w.announced id = if job.writer.isSome then (w.changes id).map (·.code) else []) := by
  intro id first
  have hadded := hasLedger_add hu b
  obtain ⟨rounds, hledger, hsizes, hsorted, hkept⟩ := hw.hasLedger hadded
  rw [List.nil_append] at hledger
  obtain ⟨job, hj, hpending, hnotifying, hchanges, hcalls, hbounded, hannounced⟩ :=
    settled_of_idle hledger hidle
  have hbuilt : ((u.add b).view id).callbacks = b.callbacks := by
    rw [view_add, if_pos rfl]
    rfl
  have hcallbacks : (w.view id).callbacks = job.callbacks := callbacks_view hj
  rw [hbuilt] at hsizes hkept
  rw [hcallbacks] at hkept
  refine ⟨job, hj, hpending, hnotifying, path_of_added hu hw hj, ⟨rounds, hchanges.symm, hsorted,
    hbounded, hcalls⟩, hkept, ?_, ?_, ?_, hannounced⟩
  · intro i hi
    have hall : rounds.filter (i < ·.size) = rounds := by
      refine List.filter_eq_self.2 fun r hr => ?_
      have hsize := hsizes r hr
      simp only [decide_eq_true_eq]
      omega
    rw [delivered_of_idle hledger hidle, hall, ← hchanges]
  · intro i hi hi'
    refine exists_adds hw hadded ?_ ?_
    · rwa [hbuilt]
    · rwa [hcallbacks]
  · intro i v new hadds
    rw [← hcallbacks]
    exact delivered_of_adds hadded hadds hidle

/-- The first callback asks for another change and adds a callback when it is called. -/
theorem observers_see_history_nested :
    let order : JobOrder := ⟨"me", 1, "actor", "", "text", none⟩
    let finish : Reaction := ⟨"x", some .running, "finish", .ok (.finish .empty)⟩
    let listen : Reaction := ⟨"x", some .running, "listen", .ok (.listen (.scripted "late" []))⟩
    let b : Blueprint :=
      ⟨order, some .channel, [.scripted "watch" [finish, listen], .scripted "record" []], true, none⟩
    let built := (((empty true).add b).hold "x" 0).run
    let w := (built.ask 0 (.set .running .empty)).1
    (empty true).Leads (empty true) ∧ ((empty true).add b).Leads w ∧
      (∀ e ∈ w.agenda, e.delivers 0 = false) ∧ w.delivered 0 1 = [.ready, .running, .done] ∧ w.delivered 0 2 = [.done] ∧
      w.announced 0 = ['>', ':'] ∧
      ∃ job, w.job? 0 = some job ∧ job.pending = [] ∧
        JobStatus.ready.Path [.running, .done] job.status := by
  intro order finish listen b built w
  have hbuilt : ((empty true).add b).Leads built := (Move.hold "x" 0).leads.trans (leads_run _)
  have hw : ((empty true).add b).Leads w := hbuilt.trans (leads_ask built 0 _)
  have hempty : w.agenda = [] := List.isEmpty_iff.1 (by decide +kernel)
  have hidle : ∀ e ∈ w.agenda, e.delivers 0 = false := by
    rw [hempty]
    nofun
  have hchanges : w.changes 0 = [.running, .done] := by decide +kernel
  obtain ⟨job, hj, hpending, -, hpath, -, -, hseen, -, -, -⟩ := observers_see_history (.refl _) hw hidle
  have hrecord : w.delivered 0 1 = [.ready] ++ w.changes 0 := hseen 1 (by decide)
  have hhistory : JobStatus.ready.Path (w.changes 0) job.status := hpath
  rw [hchanges] at hrecord hhistory
  exact ⟨.refl _, hw, hidle, hrecord, by decide +kernel, by decide +kernel, job, hj, hpending,
    hhistory⟩

end Jobs

end ActorHub
