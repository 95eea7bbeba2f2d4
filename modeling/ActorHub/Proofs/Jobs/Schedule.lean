import ActorHub.Proofs.Jobs.Stream

/-!
# Schedules

What can be done with the jobs of a process from outside, as operations in a row. Each of them comes to a
row of deeds, which are done one after another (`foldl_trace`): so what holds at every moment of a schedule is
what holds after every beginning of its trace.
-/

namespace ActorHub.Jobs

inductive Op where
  | ask (id : JobId) (act : Act)
  | spawn (id : JobId) (script : Script)
  | build (b : Blueprint)
  | hold (name : String) (id : JobId)
  | release (name : String)
  | track (mid : Nat) (id : JobId)
  | untrack (mid : Nat)
  | openStream (name : String) (id : JobId)
  | poll (name : String)
  | drain (name : String)
  | advance (milliseconds : Nat)
  | awaitDone (id : JobId) (limit : Nat)
  | awaitStatus (id : JobId) (status : JobStatus) (limit : Nat)

def Op.run (w : Jobs) : Op → Jobs
  | ask id act => (w.ask id act).1
  | spawn id script => (w.spawn id script).1
  | build b => (w.build b).1
  | hold name id => w.hold name id
  | release name => w.release name
  | track mid id => w.track mid id
  | untrack mid => w.untrack mid
  | openStream name id => w.openStream name id
  | poll name => (w.poll name).1
  | drain name => (w.drain name).1
  | advance milliseconds => w.advance milliseconds
  | awaitDone id limit => (w.awaitDone id limit).1
  | awaitStatus id status limit => (w.awaitStatus id status limit).1

/-! ## Operations as rows of deeds -/

/-- The errands that are done until none is left, and no more than a number of them. -/
def errandsFor : Nat → Jobs → List Deed
  | 0, _ => []
  | n + 1, w =>
    match w.step with
    | some w => .errand :: errandsFor n w
    | none => []

def errands (w : Jobs) : List Deed :=
  errandsFor errandLimit w

def settling : List Due → Jobs → List Deed
  | [], _ => []
  | d :: due, w => .due d :: (w.begin d).errands ++ settling due (w.begin d).run

def ticking (w : Jobs) : List Deed :=
  if w.hasClock then
    let w := { w with now := w.now + 1 }
    .tick :: settling w.due w
  else []

def waitingFor (p : Jobs → Bool) : Nat → Jobs → List Deed
  | 0, _ => []
  | n + 1, w => if p w then [] else w.ticking ++ waitingFor p n w.tick

def waiting (w : Jobs) (p : Jobs → Bool) (milliseconds : Nat) : List Deed :=
  settling w.due w ++ waitingFor p milliseconds w.settle

def Op.deeds (w : Jobs) : Op → List Deed
  | ask id act => .ask id act :: (w.perform .caller id act).errands
  | spawn id script =>
    if w.hasClock then
      .spawn id script :: (w.changeFor .caller id .running .empty [.attach id script .caller]).errands
    else []
  | build b => if b.timeout.isSome && !w.hasClock then [] else .add b :: (w.add b).errands
  | hold name id => [.hold name id]
  | release name => [.release name]
  | track mid id => [.track mid id]
  | untrack mid => [.untrack mid]
  | openStream name id => [.openStream name id]
  | poll name => [.poll name]
  | drain name => [.drain name]
  | advance milliseconds => if w.hasClock then w.waiting (fun _ => false) milliseconds else []
  | awaitDone id limit => w.waiting (·.shows id JobStatus.isDone) limit
  | awaitStatus id status limit => w.waiting (·.shows id (· == status)) limit

def trace : Jobs → List Op → List Deed
  | _, [] => []
  | w, op :: ops => op.deeds w ++ trace (op.run w) ops

theorem foldl_errandsFor (n : Nat) (w : Jobs) : (errandsFor n w).foldl Deed.run w = runFor n w := by
  induction n generalizing w with
  | zero => rfl
  | succ n ih =>
    unfold errandsFor runFor
    cases hstep : w.step with
    | none => rfl
    | some w' =>
      rw [List.foldl_cons, Deed.run, hstep]
      exact ih w'

theorem foldl_errands (w : Jobs) : w.errands.foldl Deed.run w = w.run :=
  foldl_errandsFor errandLimit w

theorem foldl_due (w : Jobs) (x : Due) :
    (Deed.due x :: (w.begin x).errands).foldl Deed.run w = (w.begin x).run :=
  foldl_errands (w.begin x)

theorem foldl_settling_cons (x : Due) (due : List Due) (w : Jobs) :
    (settling (x :: due) w).foldl Deed.run w =
      (settling due (w.begin x).run).foldl Deed.run (w.begin x).run := by
  rw [settling, List.foldl_append, foldl_due]

theorem foldl_settling (due : List Due) (w : Jobs) :
    (settling due w).foldl Deed.run w = due.foldl (fun w d => (w.begin d).run) w := by
  induction due generalizing w with
  | nil => rfl
  | cons d due ih => rw [foldl_settling_cons, ih, List.foldl_cons]

theorem foldl_ticking (w : Jobs) : w.ticking.foldl Deed.run w = w.tick := by
  unfold ticking tick
  split
  · exact foldl_settling _ _
  · rfl

theorem tickFor_eq_waitFor (n : Nat) (w : Jobs) : tickFor n w = waitFor (fun _ => false) n w := by
  induction n generalizing w with
  | zero => rfl
  | succ n ih => exact ih w.tick

theorem foldl_waiting (w : Jobs) (p : Jobs → Bool) (n : Nat) :
    (w.waiting p n).foldl Deed.run w = waitFor p n w.settle := by
  have hwaiting : ∀ n w, (waitingFor p n w).foldl Deed.run w = waitFor p n w := by
    intro n
    induction n with
    | zero => exact fun _ => rfl
    | succ n ih =>
      intro w
      unfold waitingFor waitFor
      split
      · rfl
      · rw [List.foldl_append, foldl_ticking, ih]
  rw [waiting, List.foldl_append, foldl_settling]
  exact hwaiting n w.settle

theorem foldl_deeds (w : Jobs) (op : Op) : (op.deeds w).foldl Deed.run w = op.run w := by
  cases op with
  | ask id act => exact foldl_errands _
  | spawn id script =>
    simp only [Op.deeds, Op.run, spawn]
    split
    · exact foldl_errands _
    · rfl
  | build b =>
    simp only [Op.deeds, Op.run, build]
    split
    · rfl
    · exact foldl_errands _
  | advance milliseconds =>
    simp only [Op.deeds, Op.run, advance]
    split
    · rw [foldl_waiting, tickFor_eq_waitFor]
    · rfl
  | awaitDone id limit => exact foldl_waiting w _ limit
  | awaitStatus id status limit => exact foldl_waiting w _ limit
  | _ => rfl

theorem foldl_trace (w : Jobs) (ops : List Op) :
    (trace w ops).foldl Deed.run w = ops.foldl Op.run w := by
  induction ops generalizing w with
  | nil => rfl
  | cons op ops ih => rw [trace, List.foldl_append, foldl_deeds, ih, List.foldl_cons]

/-! ## Along a row of deeds -/

def Along (P : Jobs → Deed → Prop) : Jobs → List Deed → Prop
  | _, [] => True
  | w, d :: deeds => P w d ∧ Along P (d.run w) deeds

section
variable {P : Jobs → Deed → Prop} {w : Jobs} {ds es : List Deed} {d : Deed}

theorem along_append : Along P w (ds ++ es) ↔ Along P w ds ∧ Along P (ds.foldl Deed.run w) es := by
  induction ds generalizing w with
  | nil => exact ⟨fun h => ⟨trivial, h⟩, fun h => h.2⟩
  | cons d ds ih =>
    rw [List.cons_append, Along, Along, ih, List.foldl_cons, and_assoc]

theorem Along.of_beginning (h : Along P w ds) (hes : es <+: ds) : Along P w es := by
  obtain ⟨later, rfl⟩ := hes
  exact (along_append.mp h).1

theorem along_of_forall (h : ∀ earlier d, earlier ++ [d] <+: ds → P (earlier.foldl Deed.run w) d) :
    Along P w ds := by
  induction ds generalizing w with
  | nil => trivial
  | cons d ds ih =>
    refine ⟨h [] d ⟨ds, rfl⟩, ih fun earlier d' hd' => h (d :: earlier) d' ?_⟩
    exact List.cons_prefix_cons.mpr ⟨rfl, hd'⟩

end

end ActorHub.Jobs
