import ActorHub.Proofs.Jobs.History

/-!
# What streams are fed

Seen from the streams there is one thing that can happen to the jobs: a change is recorded, and all
streams are offered it. Whatever else moves leaves them alone (`feeds_step`, `feeds_perform`), except for
what opens a stream or reads it.
-/

namespace ActorHub

def JournalEntry.isChange : JournalEntry → Bool
  | .changed .. => true
  | .wrote .. | .called .. | .reacted .. | .worked .. => false

namespace Jobs

def feed (w : Jobs) : List (String × StatusStream) × List JournalEntry :=
  (w.streams, w.journal.filter (·.isChange))

/-- The streams stay as they are, or one change is recorded and offered to each. -/
def Feeds (w w' : Jobs) : Prop :=
  w'.feed = w.feed ∨ ∃ id status,
    w'.feed = (w.streams.map fun (n, s) => (n, s.offer id status), w.feed.2 ++ [.changed id status])

/-! ## Edits that feed nothing -/

section
variable (w : Jobs)

theorem feed_enter {e : JournalEntry} (he : e.isChange = false) : (w.enter e).feed = w.feed := by
  simp [feed, enter, he]

theorem feed_tell (asker : Asker) (outcome : Outcome) : (w.tell asker outcome).feed = w.feed := by
  cases asker with
  | caller | nobody => rfl
  | reaction label on | operation label => exact feed_enter w rfl

theorem feed_conclude (asker : Asker) (result : Except JobError Unit) :
    (w.conclude asker result).feed = w.feed := by
  cases asker with
  | caller => rfl
  | reaction label on => exact feed_tell w (.reaction label on) _
  | operation label => exact feed_tell w (.operation label) _
  | nobody => rfl

theorem feed_windUp (i : JobId) : (w.windUp i).feed = w.feed := by
  unfold windUp
  dsimp only
  split <;> rfl

theorem feed_start (i : JobId) (script : Script) : (w.start i script).feed = w.feed := by
  unfold start
  split <;> rfl

theorem feed_sleep (o : Operation) (milliseconds : Nat) : (w.sleep o milliseconds).feed = w.feed := by
  unfold sleep
  split <;> rfl

theorem feed_untrackDone (mid : Nat) : (w.untrackDone mid).feed = w.feed := by
  unfold untrackDone
  split
  · split <;> rfl
  · rfl

theorem feed_callOne (status : JobStatus) (c : Callback) : (w.callOne status c).feed = w.feed := by
  unfold callOne
  split
  · rfl
  · split
    · exact feed_untrackDone w _
    · rfl

theorem feed_notify (i : JobId) : (w.notify i).feed = w.feed := by
  unfold notify
  split
  · rfl
  · split <;> rfl

theorem feed_add (b : Blueprint) : (w.add b).feed = w.feed := by
  have hwriter : (w.writerFor b).1.feed = w.feed := by
    unfold writerFor
    split <;> rfl
  unfold add
  dsimp only
  split
  · exact hwriter
  · exact hwriter

end

/-! ## Changes -/

section
variable {w w' : Jobs}

theorem feed_wrote {i : JobId} (h : Wrote i w w') : w'.feed = w.feed := by
  obtain rfl | ⟨writer, writers, reply, rfl⟩ := h
  · rfl
  · exact feed_enter { w with writers } rfl

theorem feed_record (i : JobId) (status : JobStatus) : (w.record i status).1.feed =
    (w.streams.map fun (n, s) => (n, s.offer i status), w.feed.2 ++ [.changed i status]) := by
  have hrecorded : (w.recorded i status).feed =
      (w.streams.map fun (n, s) => (n, s.offer i status), w.feed.2 ++ [.changed i status]) := by
    simp [feed, recorded, JournalEntry.isChange]
  rw [record_fst]
  split
  · rw [feed_windUp, hrecorded]
  · exact hrecorded

theorem Feeds.of_feed {u : Jobs} (hu : u.feed = w.feed) (h : Feeds u w') : Feeds w w' := by
  have hstreams : u.streams = w.streams := congrArg Prod.fst hu
  rwa [Feeds, hu, hstreams] at h

end

section
variable (w : Jobs)

theorem feeds_changeFor (asker : Asker) (i : JobId) (status : JobStatus) (content : Content)
    (afterwards : List Errand) : Feeds w (w.changeFor asker i status content afterwards) := by
  unfold changeFor
  split
  · next u errands hs =>
    obtain ⟨rfl, -, -⟩ | ⟨job, v, -, -, -, hv, hr⟩ := setStatus_cases hs
    · exact .inl rfl
    · obtain rfl : (v.record i status).1 = u := congrArg Prod.fst hr
      exact .of_feed (feed_wrote (wrote_of_announce hv)) (.inr ⟨i, status, feed_record i status⟩)
  · exact .inl (feed_conclude w asker _)

theorem feeds_perform (asker : Asker) (i : JobId) (act : Act) : Feeds w (w.perform asker i act) := by
  unfold perform
  cases act with
  | set status content => exact feeds_changeFor w asker i status content _
  | write code content =>
    dsimp only
    split
    · next u hu => exact .inl ((feed_conclude u asker _).trans (feed_wrote (wrote_of_write hu)))
    · exact .inl (feed_conclude w asker _)
  | cancel =>
    dsimp only
    split
    · exact .inl (feed_conclude w asker _)
    · exact feeds_changeFor w asker i _ _ _
  | listen c => exact .inl (feed_conclude (w.addCallback i c) asker _)

theorem feeds_handle (asker : Asker) (i : JobId) (r : Request) : Feeds w (w.handle asker i r) := by
  unfold handle
  split
  · exact feeds_perform w asker i _
  · exact .inl (feed_tell w asker _)

theorem feeds_handleNamed (asker : Asker) (name : String) (r : Request) :
    Feeds w (w.handleNamed asker name r) := by
  unfold handleNamed
  split
  · exact feeds_handle w asker _ r
  · exact .inl (feed_tell w asker _)

theorem feeds_complete (o : Operation) : Feeds w (w.complete o) := by
  have hdropped : (w.dropOperation o.id).feed = w.feed := rfl
  unfold complete
  dsimp only
  split
  · exact .of_feed hdropped (feeds_perform _ .nobody o.job _)
  · exact .of_feed hdropped (feeds_perform _ .nobody o.job _)

theorem feeds_operate (o : Operation) : Feeds w (w.operate o) := by
  unfold operate
  split
  · exact feeds_complete w o
  · next first rest _ =>
    dsimp only
    split
    · exact .inl rfl
    · exact .inl (feed_sleep _ o _)
    · exact .of_feed rfl (feeds_handle _ _ _ _)

theorem feeds_carryOut (e : Errand) : Feeds w (w.carryOut e) := by
  cases e with
  | notify i => exact .inl (feed_notify w i)
  | call i status place callbacks =>
    cases callbacks with
    | nil => exact .inl rfl
    | cons c callbacks =>
      exact .inl ((feed_callOne _ status c).trans (feed_enter (w.push _) rfl))
  | react reactions =>
    cases reactions with
    | nil => exact .inl rfl
    | cons r rest => exact .of_feed rfl (feeds_handleNamed (w.push [.react rest]) _ _ _)
  | report asker => exact .inl (feed_conclude w asker _)
  | completeCancel i asker => exact feeds_perform w asker i (.set .cancelled .empty)
  | attach i script asker => exact .inl ((feed_conclude _ asker _).trans (feed_start w i script))
  | operate o =>
    unfold carryOut
    dsimp only
    split
    · exact feeds_operate w _
    · exact .inl rfl

theorem feeds_step {w' : Jobs} (h : w.step = some w') : Feeds w w' := by
  unfold step at h
  split at h
  · cases h
  · next e rest ha =>
    obtain rfl := Option.some.inj h
    exact .of_feed rfl (feeds_carryOut { w with agenda := rest } e)

theorem feeds_begin (d : Due) : Feeds w (w.begin d) := by
  cases d with
  | operation o => exact .inl rfl
  | timer i =>
    unfold begin timeOut
    dsimp only
    split
    · exact .inl rfl
    · split
      · exact .of_feed rfl (feeds_perform _ .nobody i _)
      · exact .inl rfl

end

end Jobs

end ActorHub
