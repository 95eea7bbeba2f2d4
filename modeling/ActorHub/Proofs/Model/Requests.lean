import ActorHub.Proofs.Dictionary.Calls
import ActorHub.Proofs.Model.Replies
import ActorHub.Session

/-!
# Requests

Which answers to the requests for keys a model can store. A request asks for the name of a key, but a
dictionary finds keys under the names they are registered under. So an answer is stored just if the key that
is registered under the name asked for has this name itself and accepts the values (`asked_key_stored_iff`):
a key is found under its own name if it is registered under no other, and otherwise only by chance.
-/

namespace ActorHub

/-! ## What is asked for -/

namespace Session

theorem flatten_groups (n : Nat) : ∀ names : List String, (groups n names).flatten = names
  | [] => by rw [groups, List.flatten_nil]
  | name :: rest => by
    rw [groups, List.flatten_cons, flatten_groups n (rest.drop n), List.cons_append, List.take_append_drop]
termination_by names => names.length
decreasing_by
  rw [List.length_drop, List.length_cons]
  omega

def requestBody (actor : String) (names : List String) : String :=
  "getFor=" ++ actor ++ " " ++ " ".intercalate names

theorem mem_requestsFor {m : KeywordModel} {k : Key} (hk : k ∈ m.dictionary.keys) :
    ∃ names, Text.lowercase k.name ∈ names ∧ requestBody m.actor names ∈ requestsFor m := by
  have hname : Text.lowercase k.name ∈ (groups (keysPerRequest - 1) m.keyNames).flatten := by
    rw [flatten_groups]
    exact List.mem_map_of_mem hk
  obtain ⟨names, hnames, hmem⟩ := List.mem_flatten.mp hname
  exact ⟨names, hmem, List.mem_map.mpr ⟨names, hnames, rfl⟩⟩

theorem mem_keysRequests {s : Session} {actor body : String} {m : KeywordModel}
    (hm : s.models.get? actor = some m) (hbody : body ∈ requestsFor m) : body ∈ s.keysRequests := by
  have hactor : actor ∈ s.models.actors := by
    rw [ModelSet.actors, SearchPath.sortNames, List.mem_eraseDups, List.mem_mergeSort]
    obtain ⟨before, after, hsplit, -⟩ := List.lookup_eq_some_iff.mp hm
    rw [hsplit]
    simp
  exact List.mem_flatMap.mpr ⟨m, List.mem_filterMap.mpr ⟨actor, hactor, hm⟩, hbody⟩

end Session

/-! ## What is stored -/

namespace KeywordModel

section
variable {m : KeywordModel} {d : Dictionary} {k : Key} {keyword typed : Keyword} {name : String}

theorem get?_store (hname : Text.lowercase name = name) (keyword : Keyword) :
    (m.store name keyword).get? name = Values.typed? keyword.values := by
  rw [get?, keyword?, entry?, hname, store, lookup_updateEntry, if_pos rfl]
  rfl

theorem applyKeyword_of_none (h : m.accept? keyword = none) :
    applyKeyword ⟨m, 0, []⟩ keyword = ⟨m, 0, []⟩ := by
  rw [applyKeyword, h]

theorem applyKeyword_of_some (h : m.accept? keyword = some typed) :
    (applyKeyword ⟨m, 0, []⟩ keyword).count = 1 ∧
      (applyKeyword ⟨m, 0, []⟩ keyword).model = m.store (Text.lowercase keyword.name) typed := by
  rw [applyKeyword, h]
  exact ⟨rfl, rfl⟩

theorem stored_iff {vs : List TypedValue} (hname : Text.lowercase keyword.name = name)
    (hidle : Text.lowercase name = name) :
    let applied := applyKeyword ⟨m, 0, []⟩ keyword
    applied.count = 1 ∧ applied.model.get? name = some vs ↔
      ∃ k', m.dictionary.get? name = some k' ∧ Text.sameName keyword.name k'.name = true ∧
        k'.shape.typed? (keyword.values.map Value.display) = some vs := by
  intro applied
  constructor
  · rintro ⟨hcount, hget⟩
    cases haccept : m.accept? keyword with
    | none =>
      have happlied : applied = ⟨m, 0, []⟩ := applyKeyword_of_none haccept
      rw [happlied] at hcount
      cases hcount
    | some typed =>
      obtain ⟨-, hmodel⟩ := applyKeyword_of_some haccept
      rw [KeywordModel.accept?, hname] at haccept
      obtain ⟨k', hk', hconsume⟩ := Option.bind_eq_some_iff.mp haccept
      obtain ⟨hsame, vs', hvs', rfl⟩ := Key.consume_eq_some_iff.mp hconsume
      have hstored : applied.model.get? name = some vs' := by
        rw [hmodel, hname, get?_store hidle]
        exact Values.typed?_map_typed vs'
      cases hget.symm.trans hstored
      exact ⟨k', hk', hsame, hvs'⟩
  · rintro ⟨k', hk', hsame, hvs⟩
    have haccept : m.accept? keyword = some { keyword with values := vs.map .typed, matched := true } := by
      rw [KeywordModel.accept?, hname, hk', Option.bind_some]
      exact Key.consume_eq_some_iff.mpr ⟨hsame, vs, hvs, rfl⟩
    obtain ⟨hcount, hmodel⟩ := applyKeyword_of_some haccept
    refine ⟨hcount, ?_⟩
    rw [hmodel, hname, get?_store hidle]
    exact Values.typed?_map_typed vs

end

/-- The requests of a session ask for every key of every tracked model, by its name. An answer whose values
the key accepts is stored just if the key that is registered under the name asked for has this name and types
the values alike. This holds of a key that is registered under its own name; if no key is registered under
the name asked for, the answer is passed over. -/
theorem asked_key_stored_iff {name : String} {version : Version} {start : Dictionary}
    (h : Dictionary.make name version = .ok start) (calls : List Dictionary.Call) {s : Session}
    {actor : String} {m : KeywordModel} (hm : s.models.get? actor = some m)
    (hd : m.dictionary = start.after calls) {k : Key} (hk : k ∈ m.dictionary.keys)
    (hname : Lexeme.isName k.name.toList = true) :
    let asked := Text.lowercase k.name
    (∃ names, asked ∈ names ∧ Session.requestBody m.actor names ∈ s.keysRequests) ∧
    ∀ (header : ReplyHeader) (source : Option String) (keyword : Keyword) (vs : List TypedValue),
      Text.sameName keyword.name asked = true →
      k.shape.typed? (keyword.values.map Value.display) = some vs →
      let applied := m.applyReply ⟨header, [keyword], source⟩
      (applied.count = 1 ∧ applied.model.get? asked = some vs ↔
        ∃ k' ∈ m.dictionary.keys, k'.registeredName = asked ∧ Text.sameName keyword.name k'.name = true ∧
          k'.shape.typed? (keyword.values.map Value.display) = some vs) ∧
      (k.registeredName = asked → applied.count = 1 ∧ applied.model.get? asked = some vs) ∧
      ((∀ k' ∈ m.dictionary.keys, k'.registeredName ≠ asked) → applied = ⟨m, 0, []⟩) := by
  intro asked
  have hnodup : (m.dictionary.keys.map Key.registeredName).Nodup := by
    rw [hd]
    exact ((Dictionary.loaded_make h).after calls).stored.nodup
  have hidle : Text.lowercase asked = asked := Lexeme.lowercase_lowercase hname
  have hfound : ∀ k', m.dictionary.get? asked = some k' ↔
      k' ∈ m.dictionary.keys ∧ k'.registeredName = asked := by
    intro k'
    rw [Dictionary.get?_eq_some_iff hnodup, hidle]
  constructor
  · obtain ⟨names, hmem, hbody⟩ := Session.mem_requestsFor hk
    exact ⟨names, hmem, Session.mem_keysRequests hm hbody⟩
  intro header source keyword vs hsame hvs applied
  have hkeyword : Text.lowercase keyword.name = asked := (Text.lowercase_of_sameName hsame).trans hidle
  have hstored : applied.count = 1 ∧ applied.model.get? asked = some vs ↔
      ∃ k' ∈ m.dictionary.keys, k'.registeredName = asked ∧ Text.sameName keyword.name k'.name = true ∧
        k'.shape.typed? (keyword.values.map Value.display) = some vs := by
    refine (stored_iff hkeyword hidle).trans (exists_congr fun k' => ?_)
    rw [hfound, and_assoc]
  refine ⟨hstored, fun hown => hstored.mpr ⟨k, hk, hown, ?_, hvs⟩, fun hnone => applyKeyword_of_none ?_⟩
  · have hplain : Text.sameName asked k.name = true :=
      (Lexeme.sameName_lowercase hname k.name).trans (beq_self_eq_true _)
    rw [Text.sameName, beq_iff_eq] at hsame hplain ⊢
    exact hsame.trans hplain
  · have hmissing : m.dictionary.get? asked = none := by
      refine Option.eq_none_iff_forall_ne_some.mpr fun k' hk' => ?_
      obtain ⟨hmem, hreg⟩ := (hfound k').mp hk'
      exact hnone k' hmem hreg
    rw [KeywordModel.accept?, hkeyword, hmissing, Option.bind_none]

/-- A key that is registered under its own name. -/
theorem asked_key_stored_iff_temp :
    let temp : Key := ⟨"Temp", .counted [.single (.ofKind .int)] rfl, none, none, none, none⟩
    let start : Dictionary := ⟨"act", ⟨1, 0⟩, [], [], none⟩
    let m := ofDictionary (start.after [.add temp])
    let s := Session.make "hub.hub" (ModelSet.empty.insert m) true
    let r : Reply := ⟨⟨"tron", "tron", "", 4, "act", .information⟩, [⟨.named "TEMP", [.raw "6"], false⟩], none⟩
    Dictionary.make "act" ⟨1, 0⟩ = .ok start ∧ s.models.get? "act" = some m ∧
      (∃ names, "temp" ∈ names ∧ Session.requestBody "act" names ∈ s.keysRequests) ∧
      (m.applyReply r).count = 1 ∧ (m.applyReply r).model.get? "temp" = some [.int 6] := by
  intro temp start m s r
  have hmake : Dictionary.make "act" ⟨1, 0⟩ = .ok start := by rfl
  have hm : s.models.get? "act" = some m := by rfl
  have hk : temp ∈ m.dictionary.keys := List.mem_singleton.mpr rfl
  have hasked : Text.lowercase temp.name = "temp" := by decide
  obtain ⟨hrequest, hanswer⟩ := asked_key_stored_iff hmake [.add temp] hm rfl hk (by decide)
  obtain ⟨-, hstored, -⟩ := hanswer r.header none ⟨.named "TEMP", [.raw "6"], false⟩ [.int 6] (by decide) (by rfl)
  rw [hasked] at hrequest hstored
  exact ⟨hmake, hm, hrequest, hstored hasked⟩

/-- The answer for a key that is registered under another name is passed over. -/
theorem asked_key_passed_over :
    ¬∀ (name : String) (version : Version) (start : Dictionary) (calls : List Dictionary.Call) (k : Key)
      (r : Reply) (keyword : Keyword), Dictionary.make name version = .ok start →
      k ∈ (start.after calls).keys → Lexeme.isName k.name.toList = true → r.keywords = [keyword] →
      keyword.name = Text.lowercase k.name → (k.shape.typed? (keyword.values.map Value.display)).isSome = true →
      ((ofDictionary (start.after calls)).applyReply r).count = 1 := by
  intro h
  let temp : Key := ⟨"temp", .counted [.single (.ofKind .int)] rfl, none, none, none, some "temp2"⟩
  have hlost := h "act" ⟨1, 0⟩ ⟨"act", ⟨1, 0⟩, [], [], none⟩ [.add temp] temp
    ⟨⟨"tron", "tron", "", 4, "act", .information⟩, [⟨.named "temp", [.raw "6"], false⟩], none⟩ _ rfl
    (List.mem_singleton.mpr rfl) (by decide) rfl (by decide) (by decide)
  revert hlost
  decide

end KeywordModel

end ActorHub
