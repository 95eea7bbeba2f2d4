import ActorHub.Proofs.Jobs.Effects
import ActorHub.Proofs.Jobs.Final

/-!
# Children

A job with a parent writes under the ids of its parent. What the statuses of the child say is put in words
that do not end the parent, but a caller who chooses another code that ends a job is taken at its word
(`child_replies_under_parent`). The status of the parent is left to those who ask something of the parent.
-/

namespace ActorHub

/-! ## Codes -/

theorem JobStatus.isDone_ofCode {c : Char} :
    (ofCode c).isDone = true ↔ c = ':' ∨ c = 'f' ∨ c = 'F' ∨ c = '!' := by
  unfold ofCode
  by_cases hdone : c = ':'
  · simp [hdone, isDone]
  · by_cases hfailed : (c = 'f' || c = 'F' || c = '!') = true
    · rw [if_neg hdone, if_pos hfailed]
      simpa [isDone, or_assoc, hdone] using hfailed
    · rw [if_neg hdone, if_neg hfailed]
      simpa [isDone, or_assoc, hdone] using hfailed

theorem JobStatus.code_ne (s : JobStatus) : s.code ≠ 'F' ∧ s.code ≠ '!' := by
  cases s <;> decide

theorem code_of_child {code c : Char} {keywords : Keywords} (h : childCode? code keywords = some c) :
    c ≠ '>' ∧ ((JobStatus.ofCode c).isDone = true → c = code ∧ (code = 'F' ∨ code = '!')) := by
  rw [JobStatus.isDone_ofCode]
  unfold childCode? at h
  split at h
  · cases h
  · next hrunning =>
    split at h
    · split at h
      · cases h
      · cases h
        simp
    · next hdone =>
      split at h
      · cases h
        simp
      · next hfailed =>
        cases h
        refine ⟨hrunning, fun hends => ⟨rfl, ?_⟩⟩
        exact (hends.resolve_left hdone).resolve_left hfailed

theorem childCode?_of_passed {code : Char} (h : code = 'F' ∨ code = '!') (keywords : Keywords) :
    childCode? code keywords = some code := by
  obtain rfl | rfl := h <;> rfl

theorem act_of_code {act : Act} {code : Char} (h : act.code? = some code) (hcode : code = 'F' ∨ code = '!') :
    ∃ content, act = .write code content := by
  have hstatus : ∀ s : JobStatus, s.code ≠ code := fun s hs =>
    hcode.elim (hs ▸ s.code_ne.1) (hs ▸ s.code_ne.2)
  cases act with
  | write c content =>
    obtain rfl : c = code := Option.some.inj h
    exact ⟨content, rfl⟩
  | set status content => exact absurd (Option.some.inj h) (hstatus status)
  | cancel => exact absurd (Option.some.inj h) (hstatus .cancelling)
  | listen c => cases h

theorem code?_of_change? {act : Act} {status : JobStatus} {content : Content}
    (h : act.change? = some (status, content)) : act.code? = some status.code := by
  cases act with
  | write | listen => cases h
  | set | cancel => rw [Act.code?, h, Option.map_some]; nofun

namespace Jobs

/-! ## Ids -/

def order? (w : Jobs) (id : JobId) : Option JobOrder :=
  (w.job? id).map (·.toJobOrder)

section
variable {w w' : Jobs} {id p : JobId} {o : JobOrder}

theorem order?_eq_some : w.order? id = some o ↔ ∃ f, w.face? id = some f ∧ f.order = o := by
  rw [order?, face?]
  cases w.job? id <;> simp [Job.face]

theorem Quiet.order? (h : Quiet w w') (ho : w.order? id = some o) : w'.order? id = some o := by
  obtain ⟨f, hf, hfo⟩ := order?_eq_some.mp ho
  exact order?_eq_some.mpr ⟨f, h.face? hf, hfo⟩

theorem order?_prepare (d : Deed) (ho : w.order? id = some o) : (d.prepare w).order? id = some o := by
  obtain ⟨f, hf, rfl⟩ := order?_eq_some.mp ho
  refine order?_eq_some.mpr ⟨_, face?_prepare d hf, ?_⟩
  split <;> rfl

theorem order?_run (d : Deed) (ho : w.order? id = some o) : (d.run w).order? id = some o := by
  obtain ⟨f, hf, rfl⟩ := order?_eq_some.mp ho
  obtain ⟨f', changes, hf', -, hturn⟩ := turn_run d hf
  refine order?_eq_some.mpr ⟨f', hf', ?_⟩
  cases hturn with
  | stays => split <;> rfl
  | changes => dsimp only [Face.change]; split <;> rfl

theorem reply_of_child {job : Job} {code : Char} {keywords : Keywords} {reply : OutgoingReply}
    (hparent : job.parent = some p) (ho : w.order? p = some o)
    (h : w.reply? job code keywords = some reply) :
    reply.commander = o.commander ∧ reply.commandId = o.commandId ∧
      childCode? code keywords = some reply.code := by
  obtain ⟨parent, hp, rfl⟩ := Option.map_eq_some_iff.mp ho
  unfold reply? at h
  simp only [hparent, hp, Option.bind_eq_bind, Option.bind_some] at h
  obtain ⟨c, hc, h⟩ := Option.bind_eq_some_iff.mp h
  cases h
  exact ⟨rfl, rfl, hc⟩

end

/-! ## Replies -/

section
variable {w w' : Jobs} {id : JobId}

def Answers (asked : Option (JobId × Act)) (w : Jobs) (id : JobId) (reply : OutgoingReply) : Prop :=
  ∃ act code v job keywords, asked = some (id, act) ∧ act.code? = some code ∧ Quiet w v ∧
    v.job? id = some job ∧ v.reply? job code keywords = some reply

theorem Effect.journal {i : JobId} {act : Act} (h : Effect w i act w') :
    ∃ more, w'.journal = w.journal ++ more ∧ ∀ id writer reply, .wrote id writer reply ∈ more →
      Answers (some (i, act)) w id reply := by
  have hsaid : ∀ {code v}, act.code? = some code → Says w i code v →
      ∃ more, v.journal = w.journal ++ more ∧ ∀ id writer reply, .wrote id writer reply ∈ more →
        Answers (some (i, act)) w id reply := by
    intro code v hcode hsays
    cases hsays with
    | nothing => exact ⟨[], (List.append_nil _).symm, nofun⟩
    | @reply job writer keywords reply _ _ hj _ hreply _ _ =>
      refine ⟨[.wrote i writer reply], rfl, fun id writer' reply' hmem => ?_⟩
      cases List.mem_singleton.mp hmem
      exact ⟨act, code, w, job, keywords, rfl, hcode, .refl w, hj, hreply⟩
  cases h with
  | write h => exact hsaid rfl h
  | @change _ status content job v hact hj hdone hne hv =>
    obtain ⟨more, hmore, hall⟩ := hsaid (code?_of_change? hact) hv
    refine ⟨more ++ [.changed i status], by rw [journal_record, hmore, List.append_assoc], ?_⟩
    intro id writer reply hmem
    exact hall id writer reply (by simpa using hmem)

theorem wrote_run (w : Jobs) (d : Deed) :
    ∃ more, (d.run w).journal = w.journal ++ more ∧ ∀ id writer reply, .wrote id writer reply ∈ more →
      Answers (d.act? w) (d.prepare w) id reply := by
  have hquiet : ∀ {u v : Jobs}, Quiet u v →
      ∃ more, v.journal = u.journal ++ more ∧ ∀ id writer reply, .wrote id writer reply ∉ more := by
    intro u v h
    obtain ⟨more, hmore, hnone⟩ := h.journal
    refine ⟨more, hmore, fun id writer reply hmem => ?_⟩
    cases hnone _ hmem
  rw [← journal_prepare w d]
  obtain h | ⟨i, act, u, u', hasked, hu, he, hw⟩ := obeys_run w d
  · obtain ⟨more, hmore, hnone⟩ := hquiet h
    exact ⟨more, hmore, fun id writer reply hmem => absurd hmem (hnone id writer reply)⟩
  · obtain ⟨before, hbefore, hnone⟩ := hquiet hu
    obtain ⟨more, hmore, hall⟩ := he.journal
    obtain ⟨after, hafter, hnone'⟩ := hquiet hw
    refine ⟨before ++ more ++ after, ?_, fun id writer reply hmem => ?_⟩
    · rw [hafter, hmore, hbefore, List.append_assoc, List.append_assoc, List.append_assoc]
    · simp only [List.mem_append, hnone, hnone', false_or, or_false] at hmem
      obtain ⟨act', code, v, job, keywords, hact, hcode, hv, hj, hreply⟩ := hall id writer reply hmem
      exact ⟨act', code, v, job, keywords, hasked.trans hact, hcode, hu.trans hv, hj, hreply⟩

end

/-! ## Parents and children -/

structure Family (w : Jobs) (id p : JobId) (ids : JobOrder) : Prop where
  child : ∃ o, w.order? id = some o ∧ o.parent = some p
  parent : w.order? p = some ids

section
variable {w : Jobs} {id p : JobId} {ids : JobOrder}

theorem Family.run (h : Family w id p ids) (d : Deed) : Family (d.run w) id p ids := by
  obtain ⟨o, ho, hparent⟩ := h.child
  exact ⟨⟨o, order?_run d ho, hparent⟩, order?_run d h.parent⟩

theorem Family.foldl (h : Family w id p ids) (deeds : List Deed) :
    Family (deeds.foldl Deed.run w) id p ids := by
  induction deeds generalizing w with
  | nil => exact h
  | cons d deeds ih => exact ih (h.run d)

theorem family_add {b : Blueprint} {parent : Job} (hb : b.order.parent = some p)
    (hp : w.job? p = some parent) : Family (w.add b) w.jobs.length p parent.toJobOrder := by
  have hparent : w.order? p = some parent.toJobOrder := by rw [order?, hp, Option.map_some]
  exact ⟨⟨b.order, order?_eq_some.mpr ⟨_, face?_add w b, rfl⟩, hb⟩, (quiet_add w b).order? hparent⟩

theorem Family.wrote (h : Family w id p ids) (d : Deed) :
    ∃ more, (d.run w).journal = w.journal ++ more ∧ ∀ writer reply, .wrote id writer reply ∈ more →
      reply.commander = ids.commander ∧ reply.commandId = ids.commandId ∧ reply.code ≠ '>' ∧
      ((JobStatus.ofCode reply.code).isDone = true → (reply.code = 'F' ∨ reply.code = '!') ∧
        ∃ content, d.act? w = some (id, .write reply.code content)) := by
  obtain ⟨more, hmore, hall⟩ := wrote_run w d
  refine ⟨more, hmore, fun writer reply hmem => ?_⟩
  obtain ⟨act, code, v, job, keywords, hasked, hcode, hv, hj, hreply⟩ := hall id writer reply hmem
  obtain ⟨o, ho, hparent⟩ := h.child
  have hchild := hv.order? (order?_prepare d ho)
  rw [order?, hj, Option.map_some] at hchild
  cases hchild
  obtain ⟨hcommander, hid, hwritten⟩ := reply_of_child hparent (hv.order? (order?_prepare d h.parent)) hreply
  obtain ⟨hrunning, hdone⟩ := code_of_child hwritten
  refine ⟨hcommander, hid, hrunning, fun hends => ?_⟩
  obtain ⟨hsame, hpassed⟩ := hdone hends
  obtain ⟨content, rfl⟩ := act_of_code hcode hpassed
  rw [hsame]
  exact ⟨hpassed, content, hasked⟩

theorem Family.write (h : Family w id p ids) {code : Char} {content : Content} {w' : Jobs}
    (hcode : code = 'F' ∨ code = '!') (hw : w.write id code content = .ok w') :
    ∃ writer keywords, w'.journal =
      w.journal ++ [.wrote id writer ⟨ids.commander, ids.commandId, code, keywords⟩] := by
  obtain ⟨o, ho, hparent⟩ := h.child
  obtain ⟨job, hj, rfl⟩ := Option.map_eq_some_iff.mp ho
  obtain ⟨parent, hp, rfl⟩ := Option.map_eq_some_iff.mp h.parent
  unfold Jobs.write at hw
  rw [hj] at hw
  dsimp only at hw
  split at hw
  · next writer _ =>
    obtain ⟨keywords, -, hw⟩ := bind_eq_ok_iff.mp hw
    have hreply : w.reply? job code keywords =
        some ⟨parent.commander, parent.commandId, code, keywords⟩ := by
      simp [reply?, hparent, hp, childCode?_of_passed hcode]
    rw [hreply] at hw
    dsimp only at hw
    split at hw
    · obtain ⟨state, -, hw⟩ := bind_eq_ok_iff.mp hw
      exact ⟨writer, keywords, congrArg Jobs.journal (pure_eq_ok_iff.mp hw).symm⟩
    · exact absurd hw throw_ne_ok
  · exact absurd hw throw_ne_ok

theorem act?_of_hasStatus {d : Deed} {s s' : JobStatus} (hs : w.hasStatus id s = true)
    (hs' : (d.run w).hasStatus id s' = true) (hne : s ≠ s') : ∃ act, d.act? w = some (id, act) := by
  obtain ⟨job, hj, rfl⟩ := hasStatus_iff.mp hs
  obtain ⟨job', hj', rfl⟩ := hasStatus_iff.mp hs'
  obtain ⟨f, changes, hf, -, hturn⟩ := turn_run d (face?_of_job hj)
  obtain rfl := Option.some.inj ((face?_of_job hj').symm.trans hf)
  generalize hstatus : job'.face = f at hturn
  cases hturn with
  | changes hasked => exact ⟨_, hasked⟩
  | stays =>
    refine absurd ?_ hne
    change job.status = job'.face.status
    rw [hstatus]
    split <;> rfl

end

/-- Whatever is asked of the jobs of a process after a child was added, and whatever follows by itself, all
that the child writes is under the ids of its parent and under a code that does not end the parent, unless a
caller has it write under one of the two codes `F` and `!`, which the child passes on. The status of the
parent changes only when something is asked of the parent. -/
theorem child_replies_under_parent {u : Jobs} {b : Blueprint} {p : JobId} {parent : Job}
    (hb : b.order.parent = some p) (hp : u.job? p = some parent) (deeds : List Deed) :
    let id := u.jobs.length
    let v := deeds.foldl Deed.run (u.add b)
    (∃ more, v.journal = u.journal ++ more ∧ ∀ writer reply, .wrote id writer reply ∈ more →
      reply.commander = parent.commander ∧ reply.commandId = parent.commandId ∧ reply.code ≠ '>' ∧
      ((JobStatus.ofCode reply.code).isDone = true → reply.code = 'F' ∨ reply.code = '!')) ∧
    (∀ d : Deed, ∃ more, (d.run v).journal = v.journal ++ more ∧ ∀ writer reply,
      .wrote id writer reply ∈ more → (JobStatus.ofCode reply.code).isDone = true →
      ∃ content, d.act? v = some (id, .write reply.code content)) ∧
    (∀ code content w, code = 'F' ∨ code = '!' → v.write id code content = .ok w →
      ∃ writer keywords, w.journal =
        v.journal ++ [.wrote id writer ⟨parent.commander, parent.commandId, code, keywords⟩]) ∧
    ∀ (d : Deed) s s', v.hasStatus p s = true → (d.run v).hasStatus p s' = true → s ≠ s' →
      ∃ act, d.act? v = some (p, act) := by
  intro id v
  have hadded := family_add hb hp
  have hv : Family v id p parent.toJobOrder := hadded.foldl deeds
  refine ⟨?_, fun d => ?_, fun code content w hcode hw => hv.write hcode hw,
    fun d s s' hs hs' hne => act?_of_hasStatus hs hs' hne⟩
  · -- from the last deed: what it writes comes after what the deeds before it wrote
    clear hv
    induction deeds using List.reverseRecOn with
    | nil => exact ⟨[], by rw [List.append_nil]; exact journal_add u b, nofun⟩
    | append_singleton deeds d ih =>
      obtain ⟨before, hbefore, hold⟩ := ih
      obtain ⟨more, hmore, hnew⟩ := (hadded.foldl deeds).wrote d
      have hrun : v = d.run (deeds.foldl Deed.run (u.add b)) := List.foldl_append
      refine ⟨before ++ more, by rw [hrun, hmore, hbefore, List.append_assoc], fun writer reply hmem => ?_⟩
      obtain hmem | hmem := List.mem_append.mp hmem
      · exact hold writer reply hmem
      · obtain ⟨hcommander, hid, hrunning, hdone⟩ := hnew writer reply hmem
        exact ⟨hcommander, hid, hrunning, fun hends => (hdone hends).1⟩
  · obtain ⟨more, hmore, hnew⟩ := hv.wrote d
    exact ⟨more, hmore, fun writer reply hmem hends => ((hnew writer reply hmem).2.2.2 hends).2⟩

/-- A child fails with a message and then writes a code of its own. -/
theorem child_replies_under_parent_failed :
    let parent : Blueprint := ⟨⟨"a.b", 7, "act", "", "text", none⟩, some .channel, [], false, none⟩
    let child : Blueprint := ⟨⟨"act.x", 0, "act", "", "text", some 0⟩, none, [], false, none⟩
    let u := (empty true).add parent
    let v := [Deed.ask 1 (.fail (.text "lost")), .errand, .ask 1 (.info .empty)].foldl Deed.run (u.add child)
    child.order.parent = some 0 ∧ (∃ job, u.job? 0 = some job ∧ job.commander = "a.b") ∧
      v.isDone 1 = true ∧ v.isDone 0 = false ∧
      ∃ more, v.journal = u.journal ++ more ∧ more.length = 3 ∧ ∀ writer reply, .wrote 1 writer reply ∈ more →
        reply.commander = "a.b" ∧ reply.commandId = 7 ∧ reply.code ≠ '>' := by
  intro parent child u v
  obtain ⟨more, hmore, hall⟩ := (child_replies_under_parent (rfl : child.order.parent = some 0)
    (rfl : u.job? 0 = some _) [.ask 1 (.fail (.text "lost")), .errand, .ask 1 (.info .empty)]).1
  refine ⟨rfl, ⟨_, rfl, rfl⟩, by decide, by decide, more, hmore, ?_, fun writer reply hmem => ?_⟩
  · have hlength : v.journal.length = 3 := by decide
    rwa [hmore] at hlength
  · obtain ⟨hcommander, hid, hrunning, -⟩ := hall writer reply hmem
    exact ⟨hcommander, hid, hrunning⟩

/-- A child that writes under the code `F` ends its parent. -/
theorem child_ends_parent :
    ¬∀ (u : Jobs) (b : Blueprint) (p : JobId) (deeds : List Deed) (writer : WriterId) (reply : OutgoingReply),
      b.order.parent = some p → (u.job? p).isSome = true →
      .wrote u.jobs.length writer reply ∈ (deeds.foldl Deed.run (u.add b)).journal →
      .wrote u.jobs.length writer reply ∉ u.journal → (JobStatus.ofCode reply.code).isDone = false := by
  intro h
  let parent : Blueprint := ⟨⟨"a.b", 7, "act", "", "text", none⟩, some .channel, [], false, none⟩
  let child : Blueprint := ⟨⟨"act.x", 0, "act", "", "text", some 0⟩, none, [], false, none⟩
  have hlater := h ((empty true).add parent) child 0 [.ask 1 (.write 'F' .empty)] 0 ⟨"a.b", 7, 'F', []⟩ rfl rfl
    (List.mem_singleton.mpr rfl) List.not_mem_nil
  cases hlater

end Jobs

end ActorHub
