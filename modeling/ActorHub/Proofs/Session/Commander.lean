import ActorHub.Proofs.Outcome
import ActorHub.Proofs.Session.Tracking

/-!
# Commanders

A session sends its commands under its own commander, but the replies it takes in are those of all actors
to all commanders. The message id alone tells which command a reply belongs to. So the commander of a reply
has no part in what the reply does, and one to another commander ends a command of the same id.
-/

namespace ActorHub

/-- The replies say the same, each to a commander of its own. -/
structure Reply.Readdressed (r r' : Reply) : Prop where
  commandId : r'.header.commandId = r.header.commandId
  actor : r'.header.actor = r.header.actor
  code : r'.header.code = r.header.code
  keywords : r'.keywords = r.keywords

namespace Session

/-! ## Lines sent -/

structure Course.From (s : Session) (c : Course) : Prop where
  commander : c.session.commander = s.commander
  lines : ∀ command ∈ c.sent, ∃ target body, command.line = s.commandLine command.mid target body

section
variable {s t : Session} {c : Course} {mid : Nat} {target body : String}

theorem commandLine_congr (h : t.commander = s.commander) :
    t.commandLine mid target body = s.commandLine mid target body := by
  rw [commandLine, h, commandLine]

theorem commander_sendAs : (s.sendAs mid target body).1.commander = s.commander := by
  unfold sendAs
  split <;> rfl

theorem line_of_sendAs {sent : SentCommand} (h : (s.sendAs mid target body).2 = .ok sent) :
    sent.line = s.commandLine sent.mid target body := by
  unfold sendAs at h
  split at h
  · cases h
  · obtain ⟨-, -, rfl⟩ := map_eq_ok_iff.mp h
    rfl

theorem commander_resolve (r : Reply) : (s.resolve r).1.commander = s.commander := by
  unfold resolve
  split <;> rfl

theorem commander_handleLine (text : String) : (s.handleLine text).1.commander = s.commander := by
  cases hr : Reply.read text with
  | error e => rw [handleLine_of_error hr]
  | ok r =>
    obtain ⟨models, count, notices, hhandled⟩ := handleLine_of_ok (s := s) hr
    rw [hhandled]
    exact commander_resolve r

theorem Course.From.sendAs (h : c.From s) (ht : t.commander = s.commander) :
    (c.sending (t.sendAs mid target body)).From s := by
  have hcommander : (t.sendAs mid target body).1.commander = s.commander := commander_sendAs.trans ht
  cases hsent : t.sendAs mid target body with
  | mk session result =>
    rw [hsent] at hcommander
    cases result with
    | error e => exact ⟨hcommander, h.lines⟩
    | ok sent =>
      refine ⟨hcommander, fun command hcommand => ?_⟩
      rcases List.mem_append.1 hcommand with hold | hnew
      · exact h.lines command hold
      · rw [List.mem_singleton.1 hnew]
        exact ⟨target, body, (line_of_sendAs (by rw [hsent])).trans (commandLine_congr ht)⟩

theorem Course.From.next (h : c.From s) (e : Event) : (c.next e).From s := by
  cases e with
  | send target body => exact h.sendAs (t := { c.session with nextMid := _ }) h.commander
  | sendAs mid target body => exact h.sendAs h.commander
  | line text =>
    have hcommander := (commander_handleLine (s := c.session) text).trans h.commander
    show (c.receiving (c.session.handleLine text)).From s
    cases hhandled : c.session.handleLine text with
    | mk session result =>
      rw [hhandled] at hcommander
      cases result <;> exact ⟨hcommander, h.lines⟩
  | _ => exact ⟨h.commander, h.lines⟩

theorem from_after (s : Session) (hasClock : Bool) (events : List Event) :
    (Course.after s hasClock events).From s := by
  induction events using List.reverseRecOn with
  | nil => exact ⟨rfl, nofun⟩
  | append_singleton events e ih =>
    rw [Course.after, List.foldl_append]
    exact ih.next e

end

/-! ## Replies to any commander -/

section
variable {s : Session} {r r' : Reply} {id : JobId}

theorem models_of_readdressed (h : r.Readdressed r') (m : ModelSet) : m.applyReply r' = m.applyReply r := by
  unfold ModelSet.applyReply KeywordModel.applyReply
  rw [h.actor, h.keywords]

theorem resolve_of_readdressed (h : r.Readdressed r') : s.resolve r' = s.resolve r := by
  unfold resolve ended? finalStatus?
  rw [h.code, h.commandId]

theorem handleLine_of_readdressed {text text' : String} (hr : Reply.read text = .ok r)
    (hr' : Reply.read text' = .ok r') (h : r.Readdressed r') {s' : Session} {handled : HandledReply}
    (hhandled : s.handleLine text = (s', .ok handled)) :
    s.handleLine text' = (s', .ok { handled with reply := r' }) := by
  rw [handleLine_eq_of_ok hr] at hhandled
  cases hhandled
  rw [handleLine_eq_of_ok hr', models_of_readdressed h, resolve_of_readdressed h]

theorem isDone_code : r.header.code.isDone = true ↔ r.header.code.char ∈ [':', 'F', '!'] := by
  cases r.header.code <;> decide

theorem status_of_not_completed (h : s.jobs.Idle) {last : Nat → Option JobId}
    (hagrees : s.jobs.roster.Agrees last) (hid : (s.resolve r).2 ≠ some id) :
    ((s.resolve r).1.jobs.job? id).map (·.status) = (s.jobs.job? id).map (·.status) := by
  cases hcompleted : (s.resolve r).2 with
  | none => rw [jobs_resolve_of_none hcompleted]
  | some other =>
    have hne : id ≠ other := by
      rintro rfl
      exact hid hcompleted
    exact (status_of_completed h hagrees hcompleted).2 id hne

theorem Course.Follows.kept {c : Course} (h : c.Follows) {text : String}
    (hr : Reply.read text = .ok r) {s' : Session} {handled : HandledReply}
    (hhandled : c.session.handleLine text = (s', .ok handled)) {m : Nat}
    (hid : c.session.jobs.tracked.lookup m = some id) (hnot : handled.completed ≠ some id) :
    (s'.jobs.job? id).map (·.status) = (c.session.jobs.job? id).map (·.status) ∧
      s'.jobs.tracked.lookup m = some id := by
  have hnext := h.line text
  rw [hhandled] at hnext
  have hstatus : (s'.jobs.job? id).map (·.status) = (c.session.jobs.job? id).map (·.status) := by
    rw [handleLine_eq_of_ok hr] at hhandled
    cases hhandled
    let t : Session := { c.session with models := (c.session.models.applyReply r).models }
    exact status_of_not_completed (s := t) h.idle h.agrees hnot
  have hdone : ∀ w : Jobs, w.isDone id = ((w.job? id).map (·.status)).any (·.isDone) := by
    intro w
    rw [Option.any_map]
    rfl
  obtain ⟨hlast, hrunning⟩ := (h.agrees.tracked m id).mp hid
  refine ⟨hstatus, (hnext.agrees.tracked m id).mpr ⟨hlast, ?_⟩⟩
  rw [Jobs.isDone_roster, hdone] at hrunning ⊢
  exact (congrArg _ hstatus).trans hrunning

end

/-- A reply is matched to a command by the message id alone: a reply of a done code ends the command that
is tracked under its id, whoever its commander is, and no reply ends any other. That command was sent under
the commander of the session and the id of the reply, as the last one of this id. The same reply to another
commander does the same. -/
theorem completed_by_message_id (s : Session) (hasClock : Bool) (events : List Event) :
    let c := Course.after s hasClock events
    let w := c.session.jobs
    ∀ text r, Reply.read text = .ok r →
      ∃ s' handled, c.session.handleLine text = (s', .ok handled) ∧
        (∀ id, handled.completed = some id ↔ r.header.code.isDone = true ∧
          r.header.commandId < UInt32.size ∧ w.tracked.lookup r.header.commandId = some id) ∧
        (∀ id, handled.completed = some id → id ∉ c.completed ∧
          c.lastSent r.header.commandId = some id ∧
          ∃ command ∈ c.sent, command.mid = r.header.commandId ∧ command.job = id ∧
            ∃ target body, command.line = s.commandLine command.mid target body) ∧
        (∀ m id, w.tracked.lookup m = some id → handled.completed ≠ some id →
          (s'.jobs.job? id).map (·.status) = (w.job? id).map (·.status) ∧
          s'.jobs.tracked.lookup m = some id) ∧
        ∀ text' r', Reply.read text' = .ok r' → r.Readdressed r' →
          c.session.handleLine text' = (s', .ok { handled with reply := r' }) := by
  intro c w text r hr
  have h : c.Follows := follows_after s hasClock events
  have hfrom : c.From s := from_after s hasClock events
  have hhandled := handleLine_eq_of_ok (s := c.session) hr
  let t : Session := { c.session with models := (c.session.models.applyReply r).models }
  have hcompleted : ∀ id, (t.resolve r).2 = some id ↔ r.header.code.isDone = true ∧
      r.header.commandId < UInt32.size ∧ w.tracked.lookup r.header.commandId = some id := by
    intro id
    rw [completed_eq_some_iff, isDone_code]
  refine ⟨_, _, hhandled, hcompleted, ?_, ?_, ?_⟩
  · intro id hid
    obtain ⟨hlast, hrunning⟩ := (h.agrees.tracked _ id).mp ((hcompleted id).mp hid).2.2
    obtain ⟨command, hfound, hjob⟩ := Option.map_eq_some_iff.mp hlast
    have hmem : command ∈ c.sent := List.mem_reverse.mp (List.mem_of_find?_eq_some hfound)
    have hmid := List.find?_some (p := fun sent : SentCommand => sent.mid == r.header.commandId) hfound
    refine ⟨fun hbefore => ?_, hlast, command, hmem, beq_iff_eq.mp hmid, hjob, hfrom.lines command hmem⟩
    rw [h.ended id hbefore] at hrunning
    cases hrunning
  · exact fun m id hid hnot => h.kept hr hhandled hid hnot
  · exact fun text' r' hr' hsame => handleLine_of_readdressed hr hr' hsame hhandled

/-- A done reply to another commander completes a command that the session sent under the same id. -/
theorem foreign_reply_completes :
    ¬∀ (s : Session) (hasClock : Bool) (events : List Event) (text : String) (r : Reply) (s' : Session)
      (handled : HandledReply) (id : JobId), Reply.read text = .ok r →
      (Course.after s hasClock events).session.handleLine text = (s', .ok handled) →
      handled.completed = some id → r.header.commander = s.commander := by
  intro h
  let s := make "tron.tron" .empty true
  let c := Course.after s true [.send "alerts" "status"]
  have hread : (Reply.read "a.b 1 alerts :").toOption.map (·.header.commander) = some "a.b" := by
    decide +kernel
  obtain ⟨r, hr, hcommander⟩ := exists_of_toOption_map hread
  have hcompleted : ((c.session.handleLine "a.b 1 alerts :").2.toOption.bind (·.completed)) = some 0 := by
    decide +kernel
  cases hhandled : c.session.handleLine "a.b 1 alerts :" with
  | mk s' result =>
    rw [hhandled] at hcompleted
    cases result with
    | error e => cases hcompleted
    | ok handled =>
      have hsame := h s true [.send "alerts" "status"] _ r s' handled 0 hr hhandled hcompleted
      rw [hcommander] at hsame
      revert hsame
      decide

end Session

end ActorHub
