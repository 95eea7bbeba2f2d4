import ActorHub.Proofs.Model.Commuting
import ActorHub.Proofs.Outcome
import ActorHub.Proofs.Session.Commander

/-!
# Lines in either order

A reply line touches one model, the tracking under one message id, and one job. Two lines that touch
different names and end different commands leave the same models, the same tracking and the same statuses
in either order. Only the journal tells which came first.
-/

namespace ActorHub

theorem modify_congr {α : Type} {l : List α} {f g : α → α} {i : Nat} {a : α} (ha : l[i]? = some a)
    (h : f a = g a) : l.modify i f = l.modify i g := by
  refine List.ext_getElem? fun j => ?_
  rw [List.getElem?_modify, List.getElem?_modify]
  by_cases hj : i = j
  · subst hj
    simp [ha, h]
  · simp [hj]

/-! ## Rosters -/

namespace Roster

/-- The end of the command of a message id: it is tracked no longer and has its last status. -/
def conclude (r : Roster) (mid : Nat) (id : JobId) (status : JobStatus) : Roster where
  entries := r.entries.modify id fun e => (e.1, if e.2.isDone then e.2 else status)
  tracked := r.tracked.filter (·.1 != mid)

section
variable {r : Roster} {mid mid' : Nat} {id id' : JobId} {status status' old : JobStatus}

theorem conclude_comm (h : id ≠ id') : (r.conclude mid id status).conclude mid' id' status' =
    (r.conclude mid' id' status').conclude mid id status :=
  congrArg₂ mk (List.modify_modify_ne _ _ r.entries h) (List.filter_comm _ _ r.tracked)

theorem change_untracked (hentry : r.entries[id]? = some (mid, old)) (hs : status.isDone = true) :
    change { r with tracked := r.tracked.filter (·.1 != mid) } id status = r.conclude mid id status := by
  have hnone : (r.tracked.filter (·.1 != mid)).lookup mid = none := by
    rw [lookup_filter_ne, if_pos rfl]
  cases hold : old.isDone with
  | true =>
    have hkept : r.entries.modify id (fun e => (e.1, if e.2.isDone then e.2 else status)) =
        r.entries :=
      (modify_congr (g := fun e => e) hentry (by simp [hold])).trans (List.modify_id id r.entries)
    simp only [change, hentry, hold, Bool.true_or, if_true, conclude, hkept]
  | false =>
    have hne : (old == status) = false := by
      rw [beq_eq_false_iff_ne]
      rintro rfl
      rw [hs] at hold
      cases hold
    have hchanged : r.entries.modify id (fun e => (e.1, if e.2.isDone then e.2 else status)) =
        r.entries.modify id fun e => (e.1, status) := modify_congr hentry (by simp [hold])
    simp only [change, hentry, hold, hne, Bool.or_false, Bool.false_eq_true, if_false, hs, if_true,
      untrackDone, put, hnone, conclude, hchanged]

end

end Roster

/-! ## Commands that nobody else waits for -/

/-- No work is left over, and the tracking is all that hears of a tracked job. -/
structure Jobs.Unobserved (w : Jobs) : Prop where
  agenda : w.agenda = []
  tracked : ∀ mid id, w.tracked.lookup mid = some id →
    ∃ job, w.job? id = some job ∧ job.commandId = mid ∧ job.Quiet

namespace Session

section
variable {s : Session} {r r' : Reply} {id : JobId} {status : JobStatus}

theorem resolve_unobserved (h : s.jobs.Unobserved) (he : s.ended? r = some (id, status)) :
    let w := (s.resolve r).1.jobs
    w.roster = s.jobs.roster.conclude r.header.commandId id status ∧ w.agenda = [] ∧
      ∀ i, i ≠ id → w.job? i = s.jobs.job? i := by
  obtain ⟨hfinal, -, htracked⟩ := ended?_eq_some_iff.mp he
  obtain ⟨job, hjob, hmid, hquiet⟩ := h.tracked _ id htracked
  let u := s.jobs.untrack r.header.commandId
  have hjobs : ∀ other, u.job? id = some other → other.Quiet := by
    intro other hother
    rwa [← Option.some.inj (hjob.symm.trans hother)]
  have hasked := (Jobs.ask_quiet hjobs h.agenda status .empty).1
  have hentry : s.jobs.roster.entries[id]? = some (r.header.commandId, job.status) := by
    rw [Jobs.entries_roster, hjob, Option.map_some, hmid]
  intro w
  have hw : w = (u.ask id (.set status .empty)).1 := by
    unfold w resolve
    rw [he]
  rw [hw]
  refine ⟨?_, hasked.agenda, hasked.others⟩
  rw [hasked.roster, ← Roster.change_untracked hentry (isDone_of_finalStatus? hfinal)]
  rfl

/-! ## Whole replies -/

theorem models_applyReply (s : Session) (r : Reply) :
    (s.applyReply r).1.models = (s.models.applyReply r).models := by
  unfold applyReply resolve
  dsimp only
  split <;> rfl

theorem jobs_applyReply (s : Session) (r : Reply) :
    (s.applyReply r).1.jobs = (s.resolve r).1.jobs := by
  have hended : ∀ models, ended? { s with models } r = s.ended? r := fun _ => rfl
  unfold applyReply resolve
  dsimp only
  rw [hended]
  cases s.ended? r <;> rfl

theorem handleLine_fst {text : String} (h : Reply.read text = .ok r) :
    (s.handleLine text).1 = (s.applyReply r).1 := by
  rw [handleLine_eq_of_ok h]
  rfl

theorem roster_applyReply (h : s.jobs.Unobserved) (r : Reply) : (s.applyReply r).1.jobs.roster =
    match s.ended? r with
    | none => s.jobs.roster
    | some (id, status) => s.jobs.roster.conclude r.header.commandId id status := by
  rw [jobs_applyReply]
  cases he : s.ended? r with
  | none => rw [resolve_of_not_ended he]
  | some ended => exact (resolve_unobserved h he).1

theorem unobserved_applyReply (h : s.jobs.Unobserved) (r : Reply) :
    (s.applyReply r).1.jobs.Unobserved := by
  rw [jobs_applyReply]
  cases he : s.ended? r with
  | none =>
    rw [resolve_of_not_ended he]
    exact h
  | some ended =>
    obtain ⟨id, status⟩ := ended
    obtain ⟨hroster, hagenda, hothers⟩ := resolve_unobserved h he
    obtain ⟨-, -, hended⟩ := ended?_eq_some_iff.mp he
    obtain ⟨job, hjob, hmid, -⟩ := h.tracked _ id hended
    have htracked : (s.resolve r).1.jobs.tracked =
        s.jobs.tracked.filter (·.1 != r.header.commandId) := congrArg Roster.tracked hroster
    refine ⟨hagenda, fun mid other hother => ?_⟩
    rw [htracked, lookup_filter_ne] at hother
    split at hother
    · cases hother
    · next hne =>
      obtain ⟨kept, hkept, hcommand, hquiet⟩ := h.tracked mid other hother
      have hdifferent : other ≠ id := by
        rintro rfl
        rw [Option.some.inj (hkept.symm.trans hjob), hmid] at hcommand
        exact hne hcommand.symm
      exact ⟨kept, (hothers other hdifferent).trans hkept, hcommand, hquiet⟩

def EndApart (r r' : Reply) : Prop :=
  r.header.code.isDone = true → r'.header.code.isDone = true →
    r.header.commandId ≠ r'.header.commandId

theorem EndApart.symm (h : EndApart r r') : EndApart r' r :=
  fun hr' hr => (h hr hr').symm

theorem isDone_of_ended? (he : s.ended? r = some (id, status)) : r.header.code.isDone = true :=
  isDone_code.mpr (finalStatus?_eq_some_iff.mp (ended?_eq_some_iff.mp he).1).1

theorem ended?_applyReply (h : s.jobs.Unobserved) (ha : EndApart r r') :
    (s.applyReply r).1.ended? r' = s.ended? r' := by
  have htracked := congrArg Roster.tracked (roster_applyReply h r)
  have hiff : ∀ ended, (s.applyReply r).1.ended? r' = some ended ↔ s.ended? r' = some ended := by
    rintro ⟨id', status'⟩
    rw [ended?_eq_some_iff, ended?_eq_some_iff]
    refine and_congr_right fun hfinal => and_congr_right fun _ => ?_
    show (s.applyReply r).1.jobs.roster.tracked.lookup _ = _ ↔ _
    rw [htracked]
    cases he : s.ended? r with
    | none => rfl
    | some ended =>
      have hne : r'.header.commandId ≠ r.header.commandId :=
        (ha (isDone_of_ended? he) (isDone_code.mpr (finalStatus?_eq_some_iff.mp hfinal).1)).symm
      show (s.jobs.tracked.filter _).lookup _ = _ ↔ _
      rw [lookup_filter_ne, if_neg hne]
  exact Option.ext hiff

theorem ne_of_ended? (h : s.jobs.Unobserved) (ha : EndApart r r') {id' : JobId} {status' : JobStatus}
    (he : s.ended? r = some (id, status)) (he' : s.ended? r' = some (id', status')) : id ≠ id' := by
  obtain ⟨job, hjob, hmid, -⟩ := h.tracked _ id (ended?_eq_some_iff.mp he).2.2
  obtain ⟨job', hjob', hmid', -⟩ := h.tracked _ id' (ended?_eq_some_iff.mp he').2.2
  rintro rfl
  rw [Option.some.inj (hjob.symm.trans hjob')] at hmid
  exact ha (isDone_of_ended? he) (isDone_of_ended? he') (hmid.symm.trans hmid')

theorem roster_comm (h : s.jobs.Unobserved) (ha : EndApart r r') :
    ((s.applyReply r).1.applyReply r').1.jobs.roster =
      ((s.applyReply r').1.applyReply r).1.jobs.roster := by
  rw [roster_applyReply (unobserved_applyReply h r), roster_applyReply (unobserved_applyReply h r'),
    ended?_applyReply h ha, ended?_applyReply h ha.symm, roster_applyReply h, roster_applyReply h]
  cases he : s.ended? r with
  | none => rfl
  | some ended =>
    cases he' : s.ended? r' with
    | none => rfl
    | some ended' => exact Roster.conclude_comm (ne_of_ended? h ha he he')

/-! ## Replies in any order -/

/-- The sessions store the same keywords under the same names, and agree on their commands. -/
structure Same (s t : Session) : Prop where
  keywords : ∀ actor name, s.models.keyword? actor name = t.models.keyword? actor name
  dictionaries : ∀ actor, s.models.dictionary? actor = t.models.dictionary? actor
  keysPrefix : s.models.keysPrefix = t.models.keysPrefix
  roster : s.jobs.roster = t.jobs.roster

structure Independent (s : Session) (r r' : Reply) : Prop where
  keys : s.models.Apart r r'
  ends : EndApart r r'

def applyReplies (s : Session) (rs : List Reply) : Session :=
  rs.foldl (fun s r => (s.applyReply r).1) s

variable {t : Session}

theorem Same.refl (s : Session) : s.Same s :=
  ⟨fun _ _ => rfl, fun _ => rfl, rfl, rfl⟩

theorem Same.trans {u : Session} (h : s.Same t) (h' : t.Same u) : s.Same u where
  keywords actor name := (h.keywords actor name).trans (h'.keywords actor name)
  dictionaries actor := (h.dictionaries actor).trans (h'.dictionaries actor)
  keysPrefix := h.keysPrefix.trans h'.keysPrefix
  roster := h.roster.trans h'.roster

theorem Same.applyReply (h : s.Same t) (hs : s.jobs.Unobserved) (ht : t.jobs.Unobserved) (r : Reply) :
    (s.applyReply r).1.Same (t.applyReply r).1 := by
  have hended : s.ended? r = t.ended? r := by
    have htracked : s.jobs.tracked = t.jobs.tracked := congrArg Roster.tracked h.roster
    unfold ended?
    rw [htracked]
  refine ⟨fun actor name => ?_, fun actor => ?_, ?_, ?_⟩
  · rw [models_applyReply, models_applyReply, ModelSet.keyword?_applyReply,
      ModelSet.keyword?_applyReply, h.keywords, ModelSet.news?_congr h.keysPrefix h.dictionaries]
  · rw [models_applyReply, models_applyReply, ModelSet.dictionary?_applyReply,
      ModelSet.dictionary?_applyReply, h.dictionaries]
  · rw [models_applyReply, models_applyReply, ModelSet.keysPrefix_applyReply,
      ModelSet.keysPrefix_applyReply, h.keysPrefix]
  · rw [roster_applyReply hs, roster_applyReply ht, hended, h.roster]

theorem Same.applyReplies (h : s.Same t) (hs : s.jobs.Unobserved) (ht : t.jobs.Unobserved)
    (rs : List Reply) : (s.applyReplies rs).Same (t.applyReplies rs) := by
  induction rs generalizing s t with
  | nil => exact h
  | cons r rs ih =>
    exact ih (h.applyReply hs ht r) (unobserved_applyReply hs r) (unobserved_applyReply ht r)

theorem Independent.symm (h : s.Independent r r') : s.Independent r' r :=
  ⟨h.keys.symm, h.ends.symm⟩

theorem Independent.applyReply (h : s.Independent r r') (q : Reply) :
    (s.applyReply q).1.Independent r r' := by
  refine ⟨?_, h.ends⟩
  rw [models_applyReply]
  exact h.keys.congr (ModelSet.keysPrefix_applyReply s.models q).symm

theorem same_swap (hs : s.jobs.Unobserved) (h : s.Independent r r') :
    ((s.applyReply r).1.applyReply r').1.Same ((s.applyReply r').1.applyReply r).1 := by
  refine ⟨fun actor name => ?_, fun actor => ?_, ?_, roster_comm hs h.ends⟩
  · rw [models_applyReply, models_applyReply, models_applyReply, models_applyReply]
    exact ModelSet.keyword?_comm h.keys actor name
  · simp only [models_applyReply, ModelSet.dictionary?_applyReply]
  · simp only [models_applyReply, ModelSet.keysPrefix_applyReply]

theorem same_of_perm (hs : s.jobs.Unobserved) {rs rs' : List Reply} (hperm : rs.Perm rs')
    (h : rs.Pairwise s.Independent) : (s.applyReplies rs).Same (s.applyReplies rs') := by
  induction hperm generalizing s with
  | nil => exact .refl s
  | cons r _ ih =>
    have hrest := (List.pairwise_cons.mp h).2
    exact ih (unobserved_applyReply hs r) (hrest.imp fun hi => hi.applyReply r)
  | swap r r' rs =>
    have hfirst : s.Independent r' r := (List.pairwise_cons.mp h).1 r List.mem_cons_self
    refine (same_swap hs hfirst).applyReplies ?_ ?_ rs
    · exact unobserved_applyReply (unobserved_applyReply hs r') r
    · exact unobserved_applyReply (unobserved_applyReply hs r) r'
  | trans hperm _ ih ih' =>
    exact (ih hs h).trans (ih' hs (hperm.pairwise h fun hi => hi.symm))

/-! ## Sessions that only send and receive -/

theorem unobserved_after (s : Session) (hasClock : Bool) (events : List Event) :
    (Course.after s hasClock events).session.jobs.Unobserved := by
  have h : (Course.after s hasClock events).Follows := follows_after s hasClock events
  refine ⟨h.idle.agenda, fun mid id hid => ?_⟩
  obtain ⟨status, hentry⟩ := h.agrees.sent mid id ((h.agrees.tracked mid id).mp hid).1
  rw [Jobs.entries_roster] at hentry
  obtain ⟨job, hjob, hentry⟩ := Option.map_eq_some_iff.mp hentry
  exact ⟨job, hjob, congrArg Prod.fst hentry, h.idle.quiet job hjob⟩

end

/-- Two reply lines that name no keyword of one model in common, and do not both end a command of one
message id, may come in either order: the same keywords are stored, the same commands are tracked, and
every command has the same status. -/
theorem independent_lines_commute {s : Session} (hs : s.jobs.Unobserved) {text text' : String}
    {r r' : Reply} (hr : Reply.read text = .ok r) (hr' : Reply.read text' = .ok r')
    (hkeys : s.models.Apart r r') (hends : EndApart r r') :
    let t := ((s.handleLine text).1.handleLine text').1
    let t' := ((s.handleLine text').1.handleLine text).1
    (∀ actor name, t.models.keyword? actor name = t'.models.keyword? actor name) ∧
    t.jobs.tracked = t'.jobs.tracked ∧
    ∀ id, (t.jobs.job? id).map (·.status) = (t'.jobs.job? id).map (·.status) := by
  intro t t'
  have hsame : t.Same t' := by
    have ht : t = ((s.applyReply r).1.applyReply r').1 := by
      rw [← handleLine_fst hr, ← handleLine_fst hr']
    have ht' : t' = ((s.applyReply r').1.applyReply r).1 := by
      rw [← handleLine_fst hr', ← handleLine_fst hr]
    rw [ht, ht']
    exact same_swap hs ⟨hkeys, hends⟩
  refine ⟨hsame.keywords, congrArg Roster.tracked hsame.roster, fun id => ?_⟩
  rw [status_roster, status_roster, hsame.roster]

/-- Two answers of one actor, of which one fails its command and the other one finishes it. -/
theorem independent_lines_commute_answers :
    let key (name : String) : Key := ⟨name, .counted [.single (.ofKind .int)] rfl, none, none, none, none⟩
    let d : Dictionary := ⟨"act", ⟨1, 0⟩, [key "temp", key "pos"], [], none⟩
    let start := make "tron.tron" (ModelSet.empty.insert (.ofDictionary d)) true
    let s := (Course.after start true [.send "act" "a", .send "act" "b"]).session
    let t := ((s.handleLine "tron.tron 1 act : temp=6").1.handleLine "a.b 2 keys_act F pos=7").1
    let t' := ((s.handleLine "a.b 2 keys_act F pos=7").1.handleLine "tron.tron 1 act : temp=6").1
    s.jobs.tracked = [(2, 1), (1, 0)] ∧ t.jobs.tracked = [] ∧ t'.jobs.tracked = [] ∧
      (t'.jobs.job? 0).map (·.status) = some .done ∧
      (t'.jobs.job? 1).map (·.status) = some .failed ∧
      (t'.models.keyword? "act" "temp").isSome = true ∧
      (t'.models.keyword? "act" "pos").isSome = true := by
  intro key d start s t t'
  have hread : (Reply.read "tron.tron 1 act : temp=6").toOption.map
      (fun r => (r.header, r.keywords.map (·.name))) =
        some (⟨"tron", "tron", "", 1, "act", .finished⟩, ["temp"]) := by decide +kernel
  have hread' : (Reply.read "a.b 2 keys_act F pos=7").toOption.map
      (fun r => (r.header, r.keywords.map (·.name))) =
        some (⟨"a", "b", "", 2, "keys_act", .failed⟩, ["pos"]) := by decide +kernel
  obtain ⟨r, hr, hparts⟩ := exists_of_toOption_map hread
  obtain ⟨r', hr', hparts'⟩ := exists_of_toOption_map hread'
  obtain ⟨hheader, hnames⟩ := Prod.mk.inj hparts
  obtain ⟨hheader', hnames'⟩ := Prod.mk.inj hparts'
  have hkeys : s.models.Apart r r' := by
    intro k hk k' hk' _
    have hname : k.name ∈ r.keywords.map (·.name) := List.mem_map_of_mem hk
    have hname' : k'.name ∈ r'.keywords.map (·.name) := List.mem_map_of_mem hk'
    rw [hnames, List.mem_singleton] at hname
    rw [hnames', List.mem_singleton] at hname'
    rw [hname, hname']
    decide
  have hends : EndApart r r' := by
    intro _ _
    rw [hheader, hheader']
    decide
  obtain ⟨hkeywords, htracked, hstatus⟩ :=
    independent_lines_commute (unobserved_after start true _) hr hr' hkeys hends
  have hdone : t.jobs.tracked = [] ∧ (t.jobs.job? 0).map (·.status) = some .done ∧
      (t.jobs.job? 1).map (·.status) = some .failed ∧
      (t.models.keyword? "act" "temp").isSome = true ∧
      (t.models.keyword? "act" "pos").isSome = true := by decide +kernel
  obtain ⟨htracked', hfirst, hsecond, htemp, hpos⟩ := hdone
  refine ⟨by decide +kernel, htracked', htracked.symm.trans htracked', ?_, ?_, ?_, ?_⟩
  · exact (hstatus 0).symm.trans hfirst
  · exact (hstatus 1).symm.trans hsecond
  · exact (congrArg Option.isSome (hkeywords "act" "temp")).symm.trans htemp
  · exact (congrArg Option.isSome (hkeywords "act" "pos")).symm.trans hpos

end Session

end ActorHub
