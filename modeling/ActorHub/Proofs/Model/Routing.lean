import ActorHub.Model.Set
import ActorHub.Proofs.Lookup
import Mathlib.Data.List.TakeWhile

/-!
# Routing

Which model a reply goes to. A reply of a tracked actor goes to the model of the actor and to no other. Of
an actor with the keys prefix only the part before the next underscore is taken for the name of a tracked
actor, so the answers to requests for the keys of an actor reach its model just if there is no underscore in
its name (`key_answers_routed`).
-/

namespace ActorHub

def Reply.sentBy (r : Reply) (actor : String) : Reply :=
  { r with header := { r.header with actor } }

namespace ModelSet

def firstPart (actor : String) : String :=
  String.ofList (actor.toList.takeWhile (· != '_'))

section
variable {s : ModelSet} {a n : String} {m : KeywordModel} {r : Reply}

/-! ## Names -/

theorem firstPart_eq_self_iff : firstPart a = a ↔ '_' ∉ a.toList := by
  rw [firstPart, ← String.toList_inj, String.toList_ofList, List.takeWhile_eq_self_iff]
  exact ⟨fun h hmem => by simpa using h '_' hmem, fun h c hc => bne_iff_ne.mpr fun he => h (he ▸ hc)⟩

theorem modelActor_of_free (h : ¬s.keysPrefix.toList <+: a.toList) : s.modelActor a = a := by
  have hnone : afterPrefix? s.keysPrefix.toList a.toList = none := by
    rw [afterPrefix?, if_neg]
    rw [Bool.and_eq_true, List.isPrefixOf_iff_prefix]
    exact fun hbeginning => h hbeginning.2
  rw [modelActor, hnone]

theorem modelActor_prefix (h : s.keysPrefix ≠ "") (a : String) :
    s.modelActor (s.keysPrefix ++ a) = firstPart a := by
  have hne : s.keysPrefix.toList ≠ [] := by
    rwa [Ne, String.toList_eq_nil_iff]
  have hafter : afterPrefix? s.keysPrefix.toList (s.keysPrefix ++ a).toList = some a.toList := by
    rw [afterPrefix?, String.toList_append, if_pos, List.drop_left]
    rw [Bool.and_eq_true, bne_iff_ne, List.isPrefixOf_iff_prefix]
    exact ⟨hne, List.prefix_append _ _⟩
  rw [modelActor, hafter]
  rfl

/-! ## Models -/

theorem get?_put (s : ModelSet) (a : String) (m : KeywordModel) (n : String) :
    (s.put a m).get? n = if n = a then some m else s.get? n :=
  lookup_replaced s.models a m n

theorem applyReply_of_tracked (hactor : s.modelActor r.header.actor = n) (hm : s.get? n = some m) :
    s.applyReply r =
      ⟨s.put n (m.applyReply r).model, some (m.applyReply r).count, (m.applyReply r).notices⟩ := by
  rw [applyReply, hactor, hm]

theorem applyReply_of_untracked (hactor : s.modelActor r.header.actor = n) (hm : s.get? n = none) :
    s.applyReply r = ⟨s, none, []⟩ := by
  rw [applyReply, hactor, hm]

/-- A reply of a tracked actor goes to the model of the actor, and so does the answer of the actor for its
keys unless the name of the tracked actor has an underscore. Then the answer never reaches the model: it
goes to the actor, if it is tracked, whose name is the part before the underscore. -/
theorem key_answers_routed (hm : s.get? a = some m) (hbeginning : s.keysPrefix ≠ "")
    (hfree : ¬s.keysPrefix.toList <+: a.toList) (r : Reply) :
    let applied := m.applyReply r
    let own := s.applyReply (r.sentBy a)
    let asked := s.applyReply (r.sentBy (s.keysPrefix ++ a))
    (own.count = some applied.count ∧ own.notices = applied.notices ∧
      ∀ n, own.models.get? n = if n = a then some applied.model else s.get? n) ∧
    (s.modelActor (s.keysPrefix ++ a) = a ↔ '_' ∉ a.toList) ∧
    ('_' ∉ a.toList → asked = own) ∧
    ('_' ∈ a.toList → asked.models.get? a = some m ∧
      (s.get? (firstPart a) = none → asked.count = none ∧ asked.models = s) ∧
      ∀ m', s.get? (firstPart a) = some m' → asked.count = some (m'.applyReply r).count ∧
        ∀ n, asked.models.get? n = if n = firstPart a then some (m'.applyReply r).model else s.get? n) := by
  intro applied own asked
  have hown : own = ⟨s.put a applied.model, some applied.count, applied.notices⟩ :=
    applyReply_of_tracked (r := r.sentBy a) (modelActor_of_free hfree) hm
  have hactor : s.modelActor (s.keysPrefix ++ a) = firstPart a := modelActor_prefix hbeginning a
  refine ⟨?_, ?_, fun hwhole => ?_, fun hparts => ?_⟩
  · rw [hown]
    exact ⟨rfl, rfl, get?_put s a applied.model⟩
  · rw [hactor, firstPart_eq_self_iff]
  · rw [hown]
    exact applyReply_of_tracked (hactor.trans (firstPart_eq_self_iff.mpr hwhole)) hm
  · have hne : a ≠ firstPart a := fun he => firstPart_eq_self_iff.mp he.symm hparts
    cases hother : s.get? (firstPart a) with
    | none =>
      have hasked : asked = ⟨s, none, []⟩ := applyReply_of_untracked hactor hother
      rw [hasked]
      exact ⟨hm, fun _ => ⟨rfl, rfl⟩, nofun⟩
    | some m' =>
      have hasked : asked = ⟨s.put (firstPart a) (m'.applyReply r).model, _, _⟩ :=
        applyReply_of_tracked hactor hother
      rw [hasked]
      refine ⟨by rw [get?_put, if_neg hne, hm], nofun, fun m'' hm'' => ?_⟩
      cases hm''
      exact ⟨rfl, get?_put s _ _⟩

end

/-- The one key of the actor has a value that fits. -/
theorem key_answers_routed_act :
    let key : Key := ⟨"temp", .counted [.single (.ofKind .int)] rfl, none, none, none, none⟩
    let s := empty.insert (.ofDictionary ⟨"act", ⟨1, 0⟩, [key], [], none⟩)
    let r : Reply := ⟨⟨"tron", "tron", "", 4, "", .information⟩, [⟨.named "temp", [.raw "6"], false⟩], none⟩
    s.keysPrefix = "keys_" ∧ s.modelActor "keys_act" = "act" ∧
      s.applyReply (r.sentBy "keys_act") = s.applyReply (r.sentBy "act") ∧
      (s.applyReply (r.sentBy "keys_act")).count = some 1 := by
  intro key s r
  have hm : s.get? "act" = some (.ofDictionary ⟨"act", ⟨1, 0⟩, [key], [], none⟩) := by rfl
  obtain ⟨⟨hcount, -⟩, hactor, hwhole, -⟩ := key_answers_routed hm (by decide) (by decide) r
  have hplain : '_' ∉ "act".toList := by decide
  have hsame : s.applyReply (r.sentBy "keys_act") = s.applyReply (r.sentBy "act") := hwhole hplain
  refine ⟨rfl, hactor.mpr hplain, hsame, ?_⟩
  rw [hsame, hcount]
  decide

/-- The answer of an actor whose name has an underscore is applied to no model. -/
theorem key_answers_lost :
    ¬∀ (s : ModelSet) (a : String) (m : KeywordModel) (r : Reply), s.get? a = some m → s.keysPrefix ≠ "" →
      (∀ n, (s.get? n).isSome = true → ¬s.keysPrefix.toList <+: n.toList) →
      (s.applyReply (r.sentBy (s.keysPrefix ++ a))).count = (s.applyReply (r.sentBy a)).count := by
  intro h
  let key : Key := ⟨"temp", .counted [.single (.ofKind .int)] rfl, none, none, none, none⟩
  let m : KeywordModel := .ofDictionary ⟨"my_act", ⟨1, 0⟩, [key], [], none⟩
  let s := empty.insert m
  have hfree : ∀ n, (s.get? n).isSome = true → ¬s.keysPrefix.toList <+: n.toList := by
    intro n hn
    have hname : s.get? n = if n = "my_act" then some m else none := get?_put empty "my_act" m n
    rw [hname] at hn
    split at hn
    · next heq =>
      subst heq
      decide
    · cases hn
  have hlost := h s "my_act" m ⟨⟨"tron", "tron", "", 4, "", .information⟩,
    [⟨.named "temp", [.raw "6"], false⟩], none⟩ rfl (by decide) hfree
  revert hlost
  decide

end ModelSet

end ActorHub
