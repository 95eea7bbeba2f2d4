import ActorHub.Jobs.Clock
import Mathlib.Logic.Relation

/-!
# Moves

What can happen to the jobs of a process, one thing at a time and in any order: an errand is done,
somebody asks for something, a timer or an operation is due, a millisecond passes. Whatever an operation
of the library does is a row of such moves, so what every move preserves holds of all runs. To take the
journal is to read it and no move: nothing that the jobs do depends on it.
-/

namespace ActorHub.Jobs

inductive Move (w : Jobs) : Jobs → Prop
  | errand {w' : Jobs} : w.step = some w' → Move w w'
  | ask (id : JobId) (act : Act) : Move w (w.perform .caller id act)
  | spawn (id : JobId) (script : Script) :
      Move w (w.changeFor .caller id .running .empty [.attach id script .caller])
  | add (b : Blueprint) : Move w (w.add b)
  | due (d : Due) : Move w (w.begin d)
  | tick : Move w { w with now := w.now + 1 }
  | hold (name : String) (id : JobId) : Move w (w.hold name id)
  | release (name : String) : Move w (w.release name)
  | track (mid : Nat) (id : JobId) : Move w (w.track mid id)
  | untrack (mid : Nat) : Move w (w.untrack mid)
  | openStream (name : String) (id : JobId) : Move w (w.openStream name id)
  | drain (name : String) : Move w (w.drain name).1

def Leads : Jobs → Jobs → Prop :=
  Relation.ReflTransGen Move

section
variable {w w' w'' : Jobs}

theorem Leads.refl (w : Jobs) : w.Leads w :=
  Relation.ReflTransGen.refl

theorem Leads.trans (h : w.Leads w') (h' : w'.Leads w'') : w.Leads w'' :=
  Relation.ReflTransGen.trans h h'

theorem Move.leads (h : Move w w') : w.Leads w' :=
  Relation.ReflTransGen.single h

end

/-! ## Operations as rows of moves -/

section
variable (w : Jobs)

theorem leads_runFor (n : Nat) : w.Leads (runFor n w) := by
  induction n generalizing w with
  | zero => exact .refl w
  | succ n ih =>
    unfold runFor
    cases hs : w.step with
    | none => exact .refl w
    | some w' => exact (Move.errand hs).leads.trans (ih w')

theorem leads_run : w.Leads w.run :=
  leads_runFor w errandLimit

theorem leads_ask (id : JobId) (act : Act) : w.Leads (w.ask id act).1 :=
  (Move.ask id act).leads.trans (leads_run _)

theorem leads_spawn (id : JobId) (script : Script) : w.Leads (w.spawn id script).1 := by
  unfold spawn
  split
  · exact (Move.spawn id script).leads.trans (leads_run _)
  · exact .refl w

theorem leads_build (b : Blueprint) : w.Leads (w.build b).1 := by
  unfold build
  split
  · exact .refl w
  · exact (Move.add b).leads.trans (leads_run _)

theorem leads_settle : w.Leads w.settle := by
  unfold settle
  generalize w.due = due
  induction due generalizing w with
  | nil => exact .refl w
  | cons d due ih =>
    rw [List.foldl_cons]
    exact (Move.due d).leads.trans ((leads_run _).trans (ih _))

theorem leads_tick : w.Leads w.tick := by
  unfold tick
  split
  · exact Move.tick.leads.trans (leads_settle _)
  · exact .refl w

theorem leads_advance (milliseconds : Nat) : w.Leads (w.advance milliseconds) := by
  have hticks : ∀ n w, Leads w (tickFor n w) := by
    intro n
    induction n with
    | zero => exact Leads.refl
    | succ n ih => exact fun w => (leads_tick w).trans (ih w.tick)
  unfold advance
  split
  · exact (leads_settle w).trans (hticks milliseconds _)
  · exact .refl w

theorem leads_waitFor (p : Jobs → Bool) (n : Nat) : w.Leads (waitFor p n w) := by
  induction n generalizing w with
  | zero => exact .refl w
  | succ n ih =>
    unfold waitFor
    split
    · exact .refl w
    · exact (leads_tick w).trans (ih w.tick)

theorem leads_awaitDone (id : JobId) (limit : Nat) : w.Leads (w.awaitDone id limit).1 :=
  (leads_settle w).trans (leads_waitFor _ _ limit)

theorem leads_awaitStatus (id : JobId) (status : JobStatus) (limit : Nat) :
    w.Leads (w.awaitStatus id status limit).1 :=
  (leads_settle w).trans (leads_waitFor _ _ limit)

end

end ActorHub.Jobs
