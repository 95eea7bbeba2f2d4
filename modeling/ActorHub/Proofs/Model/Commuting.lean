import ActorHub.Proofs.Model.Replies
import ActorHub.Proofs.Model.Routing

/-!
# Replies in either order

What a reply stores under a name depends on the keys only, not on what is stored already. So two replies
that store nothing under the same name of the same model may come in either order.
-/

namespace ActorHub

namespace KeywordModel

section
variable {m : KeywordModel} {k : Keyword} {n : String}

theorem keyword?_store (m : KeywordModel) (name : String) (k : Keyword) (n : String) :
    (m.store name k).keyword? n = if Text.lowercase n = name then some k else m.keyword? n := by
  show ((updateEntry _ _ _).lookup _).bind _ = _
  rw [lookup_updateEntry]
  by_cases hn : Text.lowercase n = name
  · rw [if_pos hn, if_pos hn, Option.bind_some]
  · rw [if_neg hn, if_neg hn]
    rfl

theorem dictionary_applyKeyword (a : Applied) (k : Keyword) :
    (applyKeyword a k).model.dictionary = a.model.dictionary := by
  unfold applyKeyword
  split <;> rfl

theorem keyword?_applyKeyword (a : Applied) (k : Keyword) (n : String) :
    (applyKeyword a k).model.keyword? n =
      (a.model.dictionary.acceptAs? (Text.lowercase n) k).or (a.model.keyword? n) := by
  have haccept : a.model.accept? k = a.model.dictionary.accept? k := rfl
  unfold applyKeyword
  rw [haccept]
  by_cases hn : Text.lowercase n = Text.lowercase k.name
  · rw [hn, acceptAs?_self]
    cases a.model.dictionary.accept? k with
    | none => rfl
    | some typed => exact (keyword?_store _ _ typed n).trans (if_pos hn)
  · rw [acceptAs?_of_ne hn, Option.none_or]
    cases a.model.dictionary.accept? k with
    | none => rfl
    | some typed => exact (keyword?_store _ _ typed n).trans (if_neg hn)

theorem dictionary_applyKeywords (m : KeywordModel) (ks : Keywords) :
    (m.applyKeywords ks).model.dictionary = m.dictionary := by
  induction ks using List.reverseRecOn with
  | nil => rfl
  | append_singleton ks k ih => rw [applyKeywords_concat, dictionary_applyKeyword, ih]

theorem keyword?_applyKeywords (m : KeywordModel) (ks : Keywords) (n : String) :
    (m.applyKeywords ks).model.keyword? n =
      ((ks.filterMap (m.dictionary.acceptAs? (Text.lowercase n))).getLast?).or (m.keyword? n) := by
  induction ks using List.reverseRecOn with
  | nil => rfl
  | append_singleton ks k ih =>
    rw [applyKeywords_concat, keyword?_applyKeyword, dictionary_applyKeywords, ih,
      List.filterMap_append]
    cases hk : m.dictionary.acceptAs? (Text.lowercase n) k with
    | none => simp [hk]
    | some typed => simp [hk]

theorem name_of_acceptAs? {d : Dictionary} {typed : Keyword} (h : d.acceptAs? n k = some typed) :
    Text.lowercase k.name = n := by
  unfold Dictionary.acceptAs? at h
  split at h
  · assumption
  · cases h

end

end KeywordModel

namespace ModelSet

def keyword? (s : ModelSet) (actor name : String) : Option Keyword :=
  (s.get? actor).bind (·.keyword? name)

def dictionary? (s : ModelSet) (actor : String) : Option Dictionary :=
  (s.get? actor).map (·.dictionary)

def news? (s : ModelSet) (r : Reply) (actor name : String) : Option Keyword :=
  if actor = s.modelActor r.header.actor then
    (s.dictionary? actor).bind fun d =>
      (r.keywords.filterMap (d.acceptAs? (Text.lowercase name))).getLast?
  else none

/-- No name of a keyword of the one reply is that of one of the other, if both go to one model. -/
def Apart (s : ModelSet) (r r' : Reply) : Prop :=
  ∀ k ∈ r.keywords, ∀ k' ∈ r'.keywords,
    s.modelActor r.header.actor = s.modelActor r'.header.actor →
      Text.lowercase k.name ≠ Text.lowercase k'.name

section
variable {s : ModelSet} {r r' : Reply} {actor name : String}

theorem get?_applyReply (s : ModelSet) (r : Reply) (actor : String) :
    (s.applyReply r).models.get? actor = if actor = s.modelActor r.header.actor then
      (s.get? actor).map fun m => (m.applyReply r).model else s.get? actor := by
  cases hm : s.get? (s.modelActor r.header.actor) with
  | none =>
    rw [applyReply_of_untracked rfl hm]
    split
    · next hactor => rw [hactor, hm, Option.map_none]
    · rfl
  | some m =>
    rw [applyReply_of_tracked rfl hm, get?_put]
    split
    · next hactor => rw [hactor, hm, Option.map_some]
    · rfl

theorem keysPrefix_applyReply (s : ModelSet) (r : Reply) :
    (s.applyReply r).models.keysPrefix = s.keysPrefix := by
  unfold applyReply
  dsimp only
  split <;> rfl

theorem dictionary?_applyReply (s : ModelSet) (r : Reply) (actor : String) :
    (s.applyReply r).models.dictionary? actor = s.dictionary? actor := by
  unfold dictionary?
  rw [get?_applyReply]
  split
  · rw [Option.map_map]
    exact congrArg (Option.map · (s.get? actor)) (funext fun m => m.dictionary_applyKeywords r.keywords)
  · rfl

theorem modelActor_congr {t : ModelSet} (h : s.keysPrefix = t.keysPrefix) (actor : String) :
    s.modelActor actor = t.modelActor actor := by
  unfold modelActor
  rw [h]

theorem keyword?_applyReply (s : ModelSet) (r : Reply) (actor name : String) :
    (s.applyReply r).models.keyword? actor name =
      (s.news? r actor name).or (s.keyword? actor name) := by
  unfold keyword? news? dictionary?
  rw [get?_applyReply]
  by_cases hactor : actor = s.modelActor r.header.actor
  · rw [if_pos hactor, if_pos hactor]
    cases s.get? actor with
    | none => rfl
    | some m => exact m.keyword?_applyKeywords r.keywords name
  · rw [if_neg hactor, if_neg hactor, Option.none_or]

theorem news?_congr {t : ModelSet} (hbeginning : s.keysPrefix = t.keysPrefix)
    (h : ∀ actor, s.dictionary? actor = t.dictionary? actor) (r : Reply) (actor name : String) :
    s.news? r actor name = t.news? r actor name := by
  unfold news?
  rw [modelActor_congr hbeginning, h]

theorem news?_applyReply (s : ModelSet) (r r' : Reply) (actor name : String) :
    (s.applyReply r).models.news? r' actor name = s.news? r' actor name :=
  news?_congr (keysPrefix_applyReply s r) (dictionary?_applyReply s r) r' actor name

theorem of_news? {k : Keyword} (h : s.news? r actor name = some k) :
    actor = s.modelActor r.header.actor ∧
      ∃ k ∈ r.keywords, Text.lowercase k.name = Text.lowercase name := by
  unfold news? at h
  split at h
  · next hactor =>
    obtain ⟨d, -, hlast⟩ := Option.bind_eq_some_iff.mp h
    obtain ⟨k, hk, haccepted⟩ := List.mem_filterMap.mp (List.mem_of_getLast? hlast)
    exact ⟨hactor, k, hk, KeywordModel.name_of_acceptAs? haccepted⟩
  · cases h

theorem Apart.symm (h : s.Apart r r') : s.Apart r' r :=
  fun k hk k' hk' hactor hname => h k' hk' k hk hactor.symm hname.symm

theorem Apart.congr {t : ModelSet} (h : s.Apart r r') (hbeginning : s.keysPrefix = t.keysPrefix) :
    t.Apart r r' := by
  intro k hk k' hk' hactor
  rw [← modelActor_congr hbeginning, ← modelActor_congr hbeginning] at hactor
  exact h k hk k' hk' hactor

theorem Apart.news? (h : s.Apart r r') (actor name : String) :
    s.news? r actor name = none ∨ s.news? r' actor name = none := by
  cases hr : s.news? r actor name with
  | none => exact .inl rfl
  | some typed =>
    cases hr' : s.news? r' actor name with
    | none => exact .inr rfl
    | some typed' =>
      obtain ⟨hactor, k, hk, hname⟩ := of_news? hr
      obtain ⟨hactor', k', hk', hname'⟩ := of_news? hr'
      exact absurd (hname.trans hname'.symm) (h k hk k' hk' (hactor.symm.trans hactor'))

/-- Replies that store nothing in the same place leave the same keywords in either order. -/
theorem keyword?_comm (h : s.Apart r r') (actor name : String) :
    ((s.applyReply r).models.applyReply r').models.keyword? actor name =
      ((s.applyReply r').models.applyReply r).models.keyword? actor name := by
  rw [keyword?_applyReply, keyword?_applyReply, keyword?_applyReply, keyword?_applyReply,
    news?_applyReply, news?_applyReply]
  obtain hnone | hnone := h.news? actor name
  · rw [hnone, Option.none_or, Option.none_or]
  · rw [hnone, Option.none_or, Option.none_or]

end

end ModelSet

end ActorHub
