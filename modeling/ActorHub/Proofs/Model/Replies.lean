import ActorHub.Model
import ActorHub.Proofs.Key.Transport

/-!
# Models and the replies behind them

A model is what the replies to it say, taken one keyword after another: under each name it has the
keyword that its key accepted last. The names are those of the keys and stay so, since a key accepts a
keyword only under its own name. `Represents` says what is known of a model that took certain keywords;
one more keyword keeps it (`Represents.keyword`), and so does everything that happens to a model.
-/

namespace ActorHub

def Dictionary.accept? (d : Dictionary) (k : Keyword) : Option Keyword :=
  (d.get? (Text.lowercase k.name)).bind (·.consume k)

def Dictionary.acceptAs? (d : Dictionary) (name : String) (k : Keyword) : Option Keyword :=
  if Text.lowercase k.name = name then d.accept? k else none

def Dictionary.entryNames (d : Dictionary) : List String :=
  (d.keys.map fun k => Text.lowercase k.name).eraseDups

namespace KeywordModel

/-! ## What happens to a model -/

inductive Event where
  | reply (r : Reply)
  | observe (observer : String)
  | observeKey (name observer : String)

namespace Event

def keywords : Event → Keywords
  | reply r => r.keywords
  | observe _ | observeKey .. => []

def observer? : Event → Option String
  | observe observer => some observer
  | reply _ | observeKey .. => none

def keyObserver? (name : String) : Event → Option String
  | observeKey n observer => if Text.lowercase n = name then some observer else none
  | reply _ | observe _ => none

end Event

def follow (m : KeywordModel) : Event → KeywordModel
  | .reply r => (m.applyReply r).model
  | .observe observer => m.observe observer
  | .observeKey name observer =>
    match m.observeKey name observer with
    | .ok m => m
    | .error _ => m

def after (d : Dictionary) (events : List Event) : KeywordModel :=
  events.foldl follow (ofDictionary d)

/-! ## Entries -/

section
variable {name n : String} {f : ModelEntry → ModelEntry} {entries : List (String × ModelEntry)}

theorem map_fst_updateEntry (h : name ∈ entries.map Prod.fst) :
    (updateEntry name f entries).map Prod.fst = entries.map Prod.fst := by
  induction entries with
  | nil => cases h
  | cons p rest ih =>
    unfold updateEntry
    split
    · rfl
    · next hne =>
      rw [List.map_cons, List.mem_cons] at h
      rw [List.map_cons, List.map_cons, ih (h.resolve_left fun e => hne e.symm)]

theorem lookup_updateEntry : (updateEntry name f entries).lookup n =
    if n = name then some (f ((entries.lookup name).getD ⟨none, []⟩)) else entries.lookup n := by
  induction entries with
  | nil =>
    rw [updateEntry, List.lookup_cons]
    by_cases hn : n = name
    · simp [hn]
    · simp [hn, beq_eq_false_iff_ne.mpr hn]
  | cons p rest ih =>
    obtain ⟨n', e⟩ := p
    unfold updateEntry
    by_cases hp : n' = name
    · subst hp
      rw [if_pos rfl, List.lookup_cons, List.lookup_cons, List.lookup_cons]
      by_cases hn : n = n'
      · simp [hn]
      · simp [hn, beq_eq_false_iff_ne.mpr hn]
    · rw [if_neg hp, List.lookup_cons, ih, List.lookup_cons, List.lookup_cons,
        beq_eq_false_iff_ne.mpr (Ne.symm hp)]
      by_cases hn : n = name
      · simp [hn, beq_eq_false_iff_ne.mpr (Ne.symm hp)]
      · simp [hn]

theorem mem_map_fst_iff : n ∈ entries.map Prod.fst ↔ (entries.lookup n).isSome = true := by
  simp only [List.lookup_isSome_iff, List.mem_map, beq_iff_eq]
  exact exists_congr fun p => and_congr_right fun _ => eq_comm

theorem lookup_map_mk {names : List String} (e : ModelEntry) (h : n ∈ names) :
    (names.map fun name => (name, e)).lookup n = some e := by
  induction names with
  | nil => cases h
  | cons name names ih =>
    rw [List.map_cons, List.lookup_cons]
    by_cases hn : n = name
    · simp [hn]
    · rw [beq_eq_false_iff_ne.mpr hn]
      exact ih ((List.mem_cons.mp h).resolve_left hn)

end

/-! ## Accepted keywords -/

section
variable {d : Dictionary} {k typed : Keyword}

theorem name_of_consume {key : Key} (h : key.consume k = some typed) :
    Text.lowercase key.name = Text.lowercase k.name ∧
      typed.matched = true ∧ ∃ vs : List TypedValue, typed.values = vs.map .typed := by
  obtain ⟨hname, vs, -, rfl⟩ := Key.consume_eq_some_iff.mp h
  exact ⟨(Text.lowercase_of_sameName hname).symm, rfl, vs, rfl⟩

theorem nodup_eraseDups : ∀ names : List String, names.eraseDups.Nodup
  | [] => List.nodup_nil
  | n :: names => by
    rw [List.eraseDups_cons, List.nodup_cons, List.mem_eraseDups]
    exact ⟨by simp, nodup_eraseDups _⟩
termination_by names => names.length
decreasing_by exact Nat.lt_succ_of_le (List.length_filter_le _ _)

theorem mem_entryNames_iff {n : String} :
    n ∈ d.entryNames ↔ ∃ key ∈ d.keys, Text.lowercase key.name = n := by
  rw [Dictionary.entryNames, List.mem_eraseDups, List.mem_map]

/-- The key that accepts a keyword may be registered under any name, but it has the name of the
keyword. -/
theorem accepted (h : d.accept? k = some typed) : Text.lowercase k.name ∈ d.entryNames ∧
    typed.matched = true ∧ ∃ vs : List TypedValue, typed.values = vs.map .typed := by
  obtain ⟨key, hkey, hc⟩ := Option.bind_eq_some_iff.mp h
  obtain ⟨hname, htyped⟩ := name_of_consume hc
  exact ⟨mem_entryNames_iff.mpr ⟨key, List.mem_of_find?_eq_some hkey, hname⟩, htyped⟩

theorem acceptAs?_self : d.acceptAs? (Text.lowercase k.name) k = d.accept? k :=
  if_pos rfl

theorem acceptAs?_of_ne {n : String} (h : n ≠ Text.lowercase k.name) : d.acceptAs? n k = none :=
  if_neg h.symm

theorem acceptAs?_of_none {n : String} (h : d.accept? k = none) : d.acceptAs? n k = none := by
  rw [Dictionary.acceptAs?, h, ite_self]

end

/-! ## Models and what they took -/

/-- A model of the dictionary that took the keywords and calls the observers. -/
structure Represents (d : Dictionary) (taken : Keywords) (ofKey : String → List String)
    (ofModel : List String) (m : KeywordModel) : Prop where
  dictionary : m.dictionary = d
  names : m.entries.map Prod.fst = d.entryNames
  entry : ∀ n ∈ d.entryNames,
    m.entries.lookup n = some ⟨(taken.filterMap (d.acceptAs? n)).getLast?, ofKey n⟩
  observers : m.observers = ofModel

namespace Represents

variable {d : Dictionary} {taken : Keywords} {ofKey : String → List String} {ofModel : List String}
variable {m : KeywordModel}

theorem ofDictionary (d : Dictionary) : Represents d [] (fun _ => []) [] (ofDictionary d) where
  dictionary := rfl
  names := by
    rw [KeywordModel.ofDictionary, List.map_map]
    exact List.map_id _
  entry n hn := lookup_map_mk ⟨none, []⟩ hn
  observers := rfl

theorem accept?_eq (h : Represents d taken ofKey ofModel m) (k : Keyword) :
    m.accept? k = d.accept? k := by
  rw [KeywordModel.accept?, h.dictionary, Dictionary.accept?]

theorem update (h : Represents d taken ofKey ofModel m) {name : String} (hname : name ∈ d.entryNames)
    {f : ModelEntry → ModelEntry} {taken' : Keywords} {ofKey' : String → List String}
    (hf : f ⟨(taken.filterMap (d.acceptAs? name)).getLast?, ofKey name⟩ =
      ⟨(taken'.filterMap (d.acceptAs? name)).getLast?, ofKey' name⟩)
    (hother : ∀ n, n ≠ name → taken'.filterMap (d.acceptAs? n) = taken.filterMap (d.acceptAs? n) ∧
      ofKey' n = ofKey n) :
    Represents d taken' ofKey' ofModel { m with entries := updateEntry name f m.entries } where
  dictionary := h.dictionary
  names := by rw [map_fst_updateEntry (h.names ▸ hname), h.names]
  entry n hn := by
    rw [lookup_updateEntry]
    by_cases he : n = name
    · rw [if_pos he, he, h.entry name hname, Option.getD_some, hf]
    · rw [if_neg he, h.entry n hn, (hother n he).1, (hother n he).2]
  observers := h.observers

theorem keyword {a : Applied} (h : Represents d taken ofKey ofModel a.model) (k : Keyword) :
    Represents d (taken ++ [k]) ofKey ofModel (applyKeyword a k).model := by
  unfold KeywordModel.applyKeyword
  rw [h.accept?_eq]
  cases hk : d.accept? k with
  | none =>
    have htaken : ∀ n, (taken ++ [k]).filterMap (d.acceptAs? n) = taken.filterMap (d.acceptAs? n) := by
      intro n
      rw [List.filterMap_append, List.filterMap_cons_none (acceptAs?_of_none hk), List.filterMap_nil,
        List.append_nil]
    exact ⟨h.dictionary, h.names, fun n hn => by rw [htaken, h.entry n hn], h.observers⟩
  | some typed =>
    refine h.update (accepted hk).1 ?_ fun n hn => ⟨?_, rfl⟩
    · simp [acceptAs?_self, hk]
    · simp [acceptAs?_of_ne hn]

theorem foldl {a : Applied} (h : Represents d taken ofKey ofModel a.model) (ks : Keywords) :
    Represents d (taken ++ ks) ofKey ofModel (ks.foldl applyKeyword a).model := by
  induction ks generalizing a taken with
  | nil => rwa [List.append_nil]
  | cons k ks ih =>
    rw [List.foldl_cons, List.append_cons]
    exact ih (h.keyword k)

theorem keywords (h : Represents d taken ofKey ofModel m) (ks : Keywords) :
    Represents d (taken ++ ks) ofKey ofModel (m.applyKeywords ks).model :=
  foldl (a := ⟨m, 0, []⟩) h ks

theorem observe (h : Represents d taken ofKey ofModel m) (observer : String) :
    Represents d taken ofKey (ofModel ++ [observer]) (m.observe observer) where
  dictionary := h.dictionary
  names := h.names
  entry := h.entry
  observers := congrArg (· ++ [observer]) h.observers

theorem observeKey (h : Represents d taken ofKey ofModel m) (name observer : String) :
    Represents d taken
      (fun n => ofKey n ++ if Text.lowercase name = n then [observer] else []) ofModel
      (m.follow (.observeKey name observer)) := by
  unfold KeywordModel.follow KeywordModel.observeKey entry?
  dsimp only
  by_cases hname : Text.lowercase name ∈ d.entryNames
  · rw [h.entry _ hname]
    refine h.update hname ?_ fun n hn => ⟨rfl, ?_⟩
    · rw [if_pos rfl]
    · rw [if_neg hn.symm, List.append_nil]
  · -- a name without an entry has no observers
    have hnone : m.entries.lookup (Text.lowercase name) = none := by
      rwa [← Option.not_isSome_iff_eq_none, ← mem_map_fst_iff, h.names]
    rw [hnone]
    refine ⟨h.dictionary, h.names, fun n hn => ?_, h.observers⟩
    have hne : Text.lowercase name ≠ n := fun he => hname (he ▸ hn)
    rw [h.entry n hn, if_neg hne, List.append_nil]

theorem follow (h : Represents d taken ofKey ofModel m) (e : Event) :
    Represents d (taken ++ e.keywords) (fun n => ofKey n ++ (e.keyObserver? n).toList)
      (ofModel ++ e.observer?.toList) (m.follow e) := by
  cases e with
  | reply r =>
    simp only [Event.keywords, Event.keyObserver?, Event.observer?, Option.toList_none, List.append_nil]
    exact h.keywords r.keywords
  | observe observer =>
    simp only [Event.keywords, Event.keyObserver?, Event.observer?, Option.toList_none, List.append_nil]
    exact h.observe observer
  | observeKey name observer =>
    have hobservers : ∀ n, ((Event.observeKey name observer).keyObserver? n).toList =
        if Text.lowercase name = n then [observer] else [] := by
      intro n
      rw [Event.keyObserver?]
      split <;> rfl
    simp only [Event.keywords, Event.observer?, hobservers, Option.toList_none, List.append_nil]
    exact h.observeKey name observer

end Represents

theorem represents_after (d : Dictionary) (events : List Event) :
    Represents d (events.flatMap Event.keywords) (fun n => events.filterMap (·.keyObserver? n))
      (events.filterMap Event.observer?) (after d events) := by
  induction events using List.reverseRecOn with
  | nil => exact .ofDictionary d
  | append_singleton events e ih =>
    have hafter : after d (events ++ [e]) = (after d events).follow e := by
      rw [after, List.foldl_append]
      rfl
    have hone : ∀ f : Event → Option String, [e].filterMap f = (f e).toList := by
      intro f
      rw [List.filterMap_cons]
      cases f e <;> rfl
    simp only [hafter, List.flatMap_append, List.filterMap_append, List.flatMap_singleton, hone]
    exact ih.follow e

/-! ## Stored keywords -/

section
variable {d : Dictionary} {taken : Keywords} {ofKey : String → List String} {ofModel : List String}
variable {m : KeywordModel}

theorem Represents.stored (h : Represents d taken ofKey ofModel m) (n : String) :
    (m.entries.lookup n).bind (·.keyword) = (taken.filterMap (d.acceptAs? n)).getLast? := by
  by_cases hn : n ∈ d.entryNames
  · rw [h.entry n hn, Option.bind_some]
  · have hnone : m.entries.lookup n = none := by
      rwa [← Option.not_isSome_iff_eq_none, ← mem_map_fst_iff, h.names]
    have hempty : taken.filterMap (d.acceptAs? n) = [] := by
      refine List.filterMap_eq_nil_iff.mpr fun k _ => ?_
      by_cases hk : n = Text.lowercase k.name
      · refine acceptAs?_of_none (Option.eq_none_iff_forall_ne_some.mpr fun typed ht => ?_)
        exact hn (hk ▸ (accepted ht).1)
      · exact acceptAs?_of_ne hk
    rw [hnone, hempty, Option.bind_none, List.getLast?_nil]

theorem Represents.typed (h : Represents d taken ofKey ofModel m) {n : String} {k : Keyword}
    (hk : m.keyword? n = some k) :
    k.matched = true ∧ ∃ vs : List TypedValue, k.values = vs.map .typed ∧ m.get? n = some vs := by
  have hlast : (taken.filterMap (d.acceptAs? (Text.lowercase n))).getLast? = some k :=
    (h.stored _).symm.trans hk
  obtain ⟨received, -, hreceived⟩ := List.mem_filterMap.mp (List.mem_of_getLast? hlast)
  have haccepted : d.accept? received = some k := by
    unfold Dictionary.acceptAs? at hreceived
    split at hreceived
    · exact hreceived
    · cases hreceived
  obtain ⟨-, hmatched, vs, hvs⟩ := accepted haccepted
  refine ⟨hmatched, vs, hvs, ?_⟩
  rw [get?, hk, Option.bind_some, hvs, Values.typed?_map_typed]

/-! ## One reply -/

theorem applyKeywords_concat (m : KeywordModel) (ks : Keywords) (k : Keyword) :
    m.applyKeywords (ks ++ [k]) = applyKeyword (m.applyKeywords ks) k := by
  rw [applyKeywords, List.foldl_append]
  rfl

theorem Represents.count_eq (h : Represents d taken ofKey ofModel m) (ks : Keywords) :
    (m.applyKeywords ks).count = (ks.filterMap d.accept?).length := by
  induction ks using List.reverseRecOn with
  | nil => rfl
  | append_singleton ks k ih =>
    have hks := h.keywords ks
    rw [applyKeywords_concat, List.filterMap_append, List.length_append, ← ih, applyKeyword,
      hks.accept?_eq]
    cases hk : d.accept? k with
    | none => simp [hk]
    | some typed => simp [hk]

theorem Represents.passed_over {a : Applied} (h : Represents d taken ofKey ofModel a.model)
    {k : Keyword} (hk : d.accept? k = none) : applyKeyword a k = a := by
  rw [applyKeyword, h.accept?_eq, hk]

/-- First the observers of the name are called, then those of the model, who see the keyword stored. -/
theorem Represents.called {a : Applied} (h : Represents d taken ofKey ofModel a.model)
    {k typed : Keyword} (hk : d.accept? k = some typed) :
    let b := applyKeyword a k
    let name := Text.lowercase k.name
    b.notices = a.notices ++ (ofKey name).map (.key · typed) ++ ofModel.map (.model · b.model name) ∧
      b.model.keyword? k.name = some typed := by
  intro b name
  have hstored : Represents d (taken ++ [k]) ofKey ofModel b.model := h.keyword k
  have hentry := hstored.entry name (accepted hk).1
  constructor
  · have hb : b.notices = a.notices ++ b.model.notices name typed := by
      change (applyKeyword a k).notices = a.notices ++ (applyKeyword a k).model.notices name typed
      rw [applyKeyword, h.accept?_eq, hk]
    rw [hb, notices, hentry, hstored.observers, List.append_assoc]
    rfl
  · rw [keyword?, entry?, hentry, Option.bind_some]
    simp [name, acceptAs?_self, hk]

end

/-- A model is what happened to it. Its entries are those of the keys and each has the keyword of its
name that was accepted last, typed. A reply with one more keyword, which is none after it, differs in
what that keyword does: nothing at all, or one more keyword stored and every observer called. -/
theorem model_follows_events (d : Dictionary) (events : List Event) :
    let m := after d events
    let taken := events.flatMap Event.keywords
    (m.entries.map Prod.fst).Nodup ∧
    (∀ n, n ∈ m.entries.map Prod.fst ↔ ∃ key ∈ d.keys, Text.lowercase key.name = n) ∧
    (∀ n, (m.entries.lookup n).bind (·.keyword) = (taken.filterMap (d.acceptAs? n)).getLast?) ∧
    (∀ n k, m.keyword? n = some k →
      k.matched = true ∧ ∃ vs : List TypedValue, k.values = vs.map .typed ∧ m.get? n = some vs) ∧
    (∀ n, (m.get? n).isSome = (m.keyword? n).isSome) ∧
    (∀ r, (m.applyReply r).count = (r.keywords.filterMap d.accept?).length) ∧
    ∀ (r : Reply) (before : Keywords) (k : Keyword),
      m.applyReply { r with keywords := [] } = ⟨m, 0, []⟩ ∧
      let a := m.applyReply { r with keywords := before }
      let b := m.applyReply { r with keywords := before ++ [k] }
      let name := Text.lowercase k.name
      (d.accept? k = none → b = a) ∧
      ∀ typed, d.accept? k = some typed →
        b.notices = a.notices ++ (events.filterMap (·.keyObserver? name)).map (.key · typed) ++
          (events.filterMap Event.observer?).map (.model · b.model name) ∧
        b.model.keyword? k.name = some typed := by
  intro m taken
  have h : Represents d taken (fun n => events.filterMap (·.keyObserver? n))
      (events.filterMap Event.observer?) m := represents_after d events
  refine ⟨?_, ?_, h.stored, fun n k => h.typed, fun n => ?_, fun r => h.count_eq r.keywords, ?_⟩
  · rw [h.names]
    exact nodup_eraseDups _
  · intro n
    rw [h.names, mem_entryNames_iff]
  · cases hk : m.keyword? n with
    | none => rw [get?, hk, Option.bind_none]; rfl
    | some k =>
      obtain ⟨-, vs, -, hvs⟩ := h.typed hk
      rw [hvs]; rfl
  · intro r before k
    refine ⟨rfl, ?_⟩
    intro a b name
    have ha : Represents d (taken ++ before) (fun n => events.filterMap (·.keyObserver? n))
        (events.filterMap Event.observer?) a.model := h.keywords before
    have hb : b = applyKeyword a k := applyKeywords_concat m before k
    rw [hb]
    exact ⟨ha.passed_over, fun typed hk => ha.called hk⟩

end KeywordModel

end ActorHub
