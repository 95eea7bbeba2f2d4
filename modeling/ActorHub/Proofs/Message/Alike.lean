import ActorHub.Proofs.Message.Reading

/-!
# Messages that are alike

Two values are alike when undoing the escapes of their texts leaves the same text. Keywords that are
printed as the same clause are alike, value by value, and what is alike has the same shape.
-/

namespace ActorHub

namespace Value

def Alike (v w : Value) : Prop :=
  Quoted.unescape v.display = Quoted.unescape w.display

theorem alike_of_printed {alone : Bool} {v w : Value} (h : v.printed alone = w.printed alone) :
    v.Alike w := by
  have hquoted : v.isQuoted alone = w.isQuoted alone := by
    rw [← v.isQuoted_printed, h, w.isQuoted_printed]
  have htext := congrArg String.toList h
  rw [v.printed_eq, w.printed_eq, hquoted] at htext
  unfold Alike Quoted.unescape
  by_cases hq : w.isQuoted alone = true
  · rw [if_pos hq, if_pos hq] at htext
    rw [Quoted.escapeQuotes_inj htext]
  · rw [if_neg hq, if_neg hq] at htext
    rw [htext]

end Value

namespace Values

theorem alike_of_printed {vs ws : Values} (h : vs.printed = ws.printed) :
    List.Forall₂ Value.Alike vs ws := by
  have hlength : vs.length = ws.length := by simpa [printed] using congrArg List.length h
  unfold printed at h
  rw [hlength, ← List.forall₂_eq_eq_eq, List.forall₂_map_left_iff, List.forall₂_map_right_iff] at h
  exact h.imp fun _ _ => Value.alike_of_printed

theorem tokenized_of_alike {vs ws : Values} (h : List.Forall₂ Value.Alike vs ws) :
    tokenized vs = tokenized ws := by
  unfold tokenized
  rw [List.map_const', List.map_const', h.length_eq]

end Values

namespace Keyword

structure Alike (k l : Keyword) : Prop where
  isRaw : k.isRaw = l.isRaw
  name : Text.lowercase k.name = Text.lowercase l.name
  values : List.Forall₂ Value.Alike k.values l.values

theorem alike_of_clause {mode : LexMode} {k l : Keyword} (hk : k.Grammatical mode)
    (hl : l.Grammatical mode) (h : k.clause = l.clause) : k.Alike l := by
  obtain ⟨kind, vs, m⟩ := k
  obtain ⟨kind', ws, m'⟩ := l
  cases kind with
  | raw =>
    cases kind' with
    | raw =>
      obtain ⟨-, text, rfl, -⟩ := hk
      obtain ⟨-, text', rfl, -⟩ := hl
      cases h
      exact ⟨rfl, rfl, .cons rfl .nil⟩
    | named => cases h
  | named n =>
    cases kind' with
    | raw => cases h
    | named n' =>
      simp only [clause, KeywordClause.named.injEq] at h
      exact ⟨rfl, h.1, Values.alike_of_printed h.2⟩

theorem tokenized_of_alike {k l : Keyword} (h : k.Alike l) : k.tokenized = l.tokenized := by
  obtain ⟨kind, vs, m⟩ := k
  obtain ⟨kind', ws, m'⟩ := l
  obtain ⟨hraw, -, hvalues⟩ := h
  cases kind with
  | raw =>
    cases kind' with
    | raw => rfl
    | named => cases hraw
  | named =>
    cases kind' with
    | raw => cases hraw
    | named =>
      have := Values.tokenized_of_alike hvalues
      cases hvalues with
      | nil => rfl
      | cons => simp only [tokenized, this]

end Keyword

namespace Keywords

theorem alike_of_clauses {mode : LexMode} {ks ls : Keywords} (hks : ∀ k ∈ ks, k.Grammatical mode)
    (hls : ∀ l ∈ ls, l.Grammatical mode) (h : ks.map Keyword.clause = ls.map Keyword.clause) :
    List.Forall₂ Keyword.Alike ks ls := by
  induction ks generalizing ls with
  | nil => rw [List.map_eq_nil_iff.mp h.symm]; exact .nil
  | cons k ks ih =>
    obtain ⟨l, ls, rfl, hl, hrest⟩ := List.map_eq_cons_iff.mp h.symm
    have hhead := Keyword.alike_of_clause (hks k (by simp)) (hls l (by simp)) hl.symm
    exact .cons hhead (ih (fun j hj => hks j (by simp [hj])) (fun j hj => hls j (by simp [hj])) hrest.symm)

theorem tokenized_of_alike {ks ls : Keywords} (h : List.Forall₂ Keyword.Alike ks ls)
    (separator : String) : tokenized ks separator = tokenized ls separator := by
  have hmap : ks.map Keyword.tokenized = ls.map Keyword.tokenized := by
    rw [← List.forall₂_eq_eq_eq, List.forall₂_map_left_iff, List.forall₂_map_right_iff]
    exact h.imp fun _ _ => Keyword.tokenized_of_alike
  rw [tokenized, tokenized, hmap]

end Keywords

end ActorHub
