import ActorHub.Line
import ActorHub.Proofs.Clause.Grammar
import ActorHub.Proofs.Message.Tokens
import ActorHub.Proofs.Outcome

/-!
# Reading printed keywords

The tokens of a keyword are a keyword clause again, with the texts that its values are printed with. In
the other direction, the tokens that a keyword was read from are rendered by its own tokens one by one.
-/

namespace ActorHub

open ActorHub.Clause ActorHub.Parser

/-! ## From messages to clauses -/

namespace Value

def printed (alone : Bool) (v : Value) : String :=
  (v.token alone).text

theorem isValue_token (alone : Bool) (v : Value) : IsValue (v.token alone) (v.printed alone) := by
  unfold printed token
  split
  · exact .quoted _
  · unfold Lexeme.wordToken
    split
    · exact .name _
    · exact .value _

theorem printed_eq (alone : Bool) (v : Value) : (v.printed alone).toList =
    if v.isQuoted alone then Quoted.escapeQuotes (Quoted.unescapeChars v.display.toList)
    else v.display.toList := by
  unfold printed token
  split
  · simp [Token.text]
  · unfold Lexeme.wordToken
    split <;> simp [Token.text]

theorem isQuoted_printed (alone : Bool) (v : Value) :
    (Value.raw (v.printed alone)).isQuoted alone = v.isQuoted alone := by
  have hp := v.printed_eq alone
  by_cases hq : v.isQuoted alone = true
  · rw [if_pos hq] at hp
    rw [hq]
    simp only [isQuoted, Bool.or_eq_true, Bool.not_eq_true'] at hq ⊢
    refine hq.imp_right fun hq => ?_
    rw [display, hp, ← Bool.not_eq_true, isBare_iff]
    intro h
    obtain ⟨hne, hw⟩ := h
    refine absurd (isBare_iff.mpr ⟨?_, fun c hc => ?_⟩) (Bool.eq_false_iff.mp hq)
    · rwa [Ne, Quoted.escapeQuotes_eq_nil, Quoted.unescapeChars_eq_nil] at hne
    · by_cases hb : c = '\\'
      · subst hb; decide
      · exact hw c ((Quoted.mem_escapeQuotes hb _).mpr ((Quoted.mem_unescapeChars hb _).mpr hc))
  · rw [if_neg hq] at hp
    rw [isQuoted, display, hp, isQuoted]

theorem token_printed {mode : LexMode} {alone : Bool} {v : Value} (h : v.Settled mode alone) :
    (Value.raw (v.printed alone)).token alone = v.token alone := by
  have hq := v.isQuoted_printed alone
  have hp := v.printed_eq alone
  rw [token, token, hq]
  by_cases hquoted : v.isQuoted alone = true
  · rw [Settled, if_pos hquoted] at h
    rw [if_pos hquoted] at hp
    rw [if_pos hquoted, if_pos hquoted, display, hp, Quoted.unescapeChars_escapeQuotes h]
  · rw [if_neg hquoted] at hp
    rw [if_neg hquoted, if_neg hquoted]
    rw [display, hp]

section
variable {alone : Bool} {v : Value}

theorem settled_of_not_mem (h : '\\' ∉ v.display.toList) : v.Settled .reply alone := by
  unfold Settled
  split
  · rw [Quoted.unescapeChars_of_not_mem h]
    exact Quoted.isSettled_of_not_mem h
  · intro e; cases e

theorem printed_of_not_mem (h : '\\' ∉ v.display.toList) :
    v.printed alone = Quoted.escaped v.display := by
  rw [← String.toList_inj, v.printed_eq alone, Quoted.escaped, String.toList_ofList]
  by_cases hq : v.isQuoted alone = true
  · rw [if_pos hq, Quoted.unescapeChars_of_not_mem h]
  · have hbare := isBare_iff.mp (isBare_of_not_isQuoted hq)
    rw [if_neg hq, Quoted.escapeQuotes_of_not_mem]
    intro hm
    exact absurd (hbare.2 _ hm) (by decide)

end

end Value

namespace Values

def printed (vs : Values) : List String :=
  vs.map (Value.printed (vs.length == 1))

theorem tokens_printed {mode : LexMode} {vs : Values} (h : Settled mode vs) :
    tokens (vs.printed.map .raw) = tokens vs := by
  simp only [tokens, printed, List.map_map, List.length_map]
  congr 1
  exact List.map_congr_left fun v hv => by simp [Value.token_printed (h v hv)]

theorem isMore_tokens (alone : Bool) (vs : Values) :
    Sequence IsMore (vs.flatMap fun v => [.delimiter .comma, v.token alone])
      (vs.map (Value.printed alone)) := by
  induction vs with
  | nil => exact .nil
  | cons v vs ih => exact .cons (.comma (v.isValue_token alone)) ih

end Values

namespace Keyword

def clause (k : Keyword) : KeywordClause :=
  match k.kind with
  | .raw => .raw (k.rawLine?.getD "")
  | .named name => .named (Text.lowercase name) (Values.printed k.values)

def reread (k : Keyword) : Keyword :=
  match k.kind with
  | .raw => .raw (k.rawLine?.getD "")
  | .named name => ⟨.named (Text.lowercase name), (Values.printed k.values).map .raw, false⟩

theorem isKeyword_tokens (k : Keyword) : IsKeyword k.tokens k.clause := by
  obtain ⟨kind, values, matched⟩ := k
  cases kind with
  | raw => exact .raw _ _
  | named name =>
    cases values with
    | nil => exact .bare _
    | cons v vs =>
      simp only [tokens, clause, Values.printed, Values.tokens, parted, List.map_cons, List.flatMap_map]
      exact .valued _ (v.isValue_token _) (Values.isMore_tokens _ vs)

theorem make_eq_ok_iff {n : String} {vs : Values} {k : Keyword} :
    make n vs = .ok k ↔
      Text.sameName n reserved = false ∧ k = ⟨.named n, vs, false⟩ := by
  unfold make
  by_cases h : Text.sameName n reserved = true
  · simp [h]
  · simp [h, eq_comm]

theorem buildKeyword_named_iff {n : String} {vs : List String} {k : Keyword} :
    Line.buildKeyword (.named n vs) = .ok k ↔
      Text.sameName n reserved = false ∧ k = ⟨.named n, vs.map .raw, false⟩ := by
  rw [Line.buildKeyword, mapError_eq_ok_iff, make_eq_ok_iff]

theorem buildKeyword_clause {mode : LexMode} {k : Keyword} (h : k.Grammatical mode) :
    Line.buildKeyword k.clause = .ok k.reread := by
  obtain ⟨kind, values, matched⟩ := k
  cases kind with
  | raw => rfl
  | named name =>
    obtain ⟨hn, hr, -⟩ := h
    refine Keyword.buildKeyword_named_iff.mpr ⟨?_, rfl⟩
    rw [Lexeme.sameName_lowercase hn]
    exact hr

theorem tokens_reread {mode : LexMode} {k : Keyword} (h : k.Grammatical mode) (hs : k.Settled mode) :
    k.reread.tokens = k.tokens := by
  obtain ⟨kind, values, matched⟩ := k
  cases kind with
  | raw => rfl
  | named name =>
    have hlower := Lexeme.lowercase_lowercase h.1
    cases values with
    | nil => simp [reread, tokens, Values.printed, hlower]
    | cons v vs =>
      have := Values.tokens_printed hs
      simp only [Values.printed, List.map_cons] at this
      simp only [reread, tokens, Values.printed, List.map_cons, hlower, this]

/-- A name of its own, and texts without backslashes and newlines. -/
def IsClear (k : Keyword) : Prop :=
  ∃ name, k.kind = .named name ∧ Lexeme.isName name.toList = true ∧
    Text.sameName name reserved = false ∧
    ∀ v ∈ k.values, '\\' ∉ v.display.toList ∧ '\n' ∉ v.display.toList

theorem IsClear.grammatical {mode : LexMode} {k : Keyword} (h : k.IsClear) : k.Grammatical mode := by
  obtain ⟨name, hkind, hname, hr, hv⟩ := h
  rw [Grammatical, hkind]
  exact ⟨hname, hr, fun v h => (hv v h).2⟩

theorem IsClear.settled {k : Keyword} (h : k.IsClear) : k.Settled .reply := by
  obtain ⟨name, hkind, -, -, hv⟩ := h
  rw [Settled, hkind]
  exact fun v h => Value.settled_of_not_mem (hv v h).1

end Keyword

/-! ## From clauses to messages -/

section
variable {mode : LexMode} {t : Token} {ts : List Token}

theorem renders_of_isValue {s : String} (h : IsValue t s) (alone : Bool) :
    t.Renders ((Value.raw s).token alone) := by
  have hraw : t.isRaw = false := by cases h <;> rfl
  have htext : t.text = s := by cases h <;> rfl
  refine ⟨by rw [hraw, Value.isRaw_token], fun b hb => ?_⟩
  rw [htext]
  unfold Value.token at hb
  split at hb
  · cases hb; rfl
  · unfold Lexeme.wordToken at hb
    split at hb <;> cases hb

theorem renders_delimiter (d : Delimiter) : (Token.delimiter d).Renders (.delimiter d) :=
  ⟨rfl, by simp⟩

theorem renders_name (n m : String) : (Token.name n).Renders (.name m) :=
  ⟨rfl, by simp⟩

theorem renders_of_isMore {more : List String} (h : Sequence IsMore ts more) (alone : Bool) :
    List.Forall₂ Token.Renders ts
      (more.flatMap fun s => [.delimiter .comma, (Value.raw s).token alone]) := by
  induction h with
  | nil => exact .nil
  | cons hp _ ih =>
    cases hp with
    | comma hv => exact .cons (renders_delimiter _) (.cons (renders_of_isValue hv alone) ih)

theorem renders_values {s : String} {more : List String} (hv : IsValue t s)
    (hm : Sequence IsMore ts more) :
    List.Forall₂ Token.Renders (t :: ts) (Values.tokens ((s :: more).map .raw)) := by
  have := renders_of_isMore hm (((s :: more).map Value.raw).length == 1)
  simp only [Values.tokens, parted, List.map_cons, List.map_map, List.flatMap_map]
  exact .cons (renders_of_isValue hv _) this

theorem renders_isValues {vs : List String} (h : IsValues ts vs) :
    List.Forall₂ Token.Renders ts (Values.tokens (vs.map .raw)) := by
  cases h with
  | nil => exact .nil
  | cons hv hm => exact renders_values hv hm

theorem renders_keyword {c : KeywordClause} {k : Keyword} (h : IsKeyword ts c)
    (hb : Line.buildKeyword c = .ok k) : List.Forall₂ Token.Renders ts k.tokens := by
  cases h with
  | raw w text =>
    cases hb
    exact .cons ⟨rfl, by simp⟩ (.cons ⟨rfl, by simp⟩ .nil)
  | bare n =>
    obtain ⟨-, rfl⟩ := Keyword.buildKeyword_named_iff.mp hb
    exact .cons (renders_name _ _) .nil
  | valued n hv hm =>
    obtain ⟨-, rfl⟩ := Keyword.buildKeyword_named_iff.mp hb
    exact .cons (renders_name _ _) (.cons (renders_delimiter _) (renders_values hv hm))

theorem newline_not_mem_of_isValue {s : String} (h : IsValue t s) (ht : t.IsLexed mode) :
    '\n' ∉ s.toList := by
  cases h with
  | name => exact fun hm => absurd (Lexeme.isNameChar_of_mem ht.1 _ hm) (by decide)
  | value => exact fun hm => absurd (ht.2.1 _ hm) (by decide)
  | quoted => exact ht

theorem newline_not_mem_of_isMore {more : List String} (h : Sequence IsMore ts more)
    (ht : ∀ t ∈ ts, t.IsLexed mode) : ∀ s ∈ more, '\n' ∉ s.toList := by
  induction h with
  | nil => simp
  | cons hp _ ih =>
    cases hp with
    | comma hv =>
      intro s hs
      rcases List.mem_cons.mp hs with rfl | hs
      · exact newline_not_mem_of_isValue hv (ht _ (by simp))
      · exact ih (fun t h => ht t (by simp [h])) s hs

theorem newline_not_mem_of_isValues {vs : List String} (h : IsValues ts vs)
    (ht : ∀ t ∈ ts, t.IsLexed mode) : ∀ v ∈ vs.map Value.raw, '\n' ∉ v.display.toList := by
  simp only [List.mem_map, forall_exists_index, and_imp, forall_apply_eq_imp_iff₂]
  cases h with
  | nil => simp
  | cons hv hm =>
    intro s hs
    rcases List.mem_cons.mp hs with rfl | hs
    · exact newline_not_mem_of_isValue hv (ht _ (by simp))
    · exact newline_not_mem_of_isMore hm (fun t h => ht t (by simp [h])) s hs

theorem grammatical_of_isKeyword {c : KeywordClause} {k : Keyword} (h : IsKeyword ts c)
    (hb : Line.buildKeyword c = .ok k) (ht : ∀ t ∈ ts, t.IsLexed mode) : k.Grammatical mode := by
  cases h with
  | raw w text =>
    cases hb
    exact ⟨ht (.raw w) (by simp), text, rfl, ht (.line text) (by simp)⟩
  | bare n =>
    obtain ⟨hr, rfl⟩ := Keyword.buildKeyword_named_iff.mp hb
    exact ⟨(ht (.name n) (by simp)).1, hr, by simp⟩
  | valued n hv hm =>
    obtain ⟨hr, rfl⟩ := Keyword.buildKeyword_named_iff.mp hb
    exact ⟨(ht (.name n) (by simp)).1, hr,
      newline_not_mem_of_isValues (.cons hv hm) fun t h => ht t (by simp [List.mem_cons.mp h])⟩

end

/-! ## Rows of keywords -/

section
variable {mode : LexMode} {ts : List Token} {cs : List KeywordClause} {ks : Keywords}
variable {P : List Token → KeywordClause → Prop} {print : Keyword → List Token}

theorem sequence_flatMap (h : ∀ k : Keyword, P (print k) k.clause) (ks : Keywords) :
    Sequence P (ks.flatMap print) (ks.map Keyword.clause) := by
  induction ks with
  | nil => exact .nil
  | cons k ks ih => exact .cons (h k) ih

theorem mapM_clause (h : ∀ k ∈ ks, k.Grammatical mode) :
    (ks.map Keyword.clause).mapM Line.buildKeyword = .ok (ks.map Keyword.reread) := by
  rw [mapM_eq_ok_iff, List.forall₂_map_left_iff, List.forall₂_map_right_iff, List.forall₂_same]
  exact fun k hk => Keyword.buildKeyword_clause (h k hk)

theorem renders_sequence (hP : ∀ piece c k, P piece c → Line.buildKeyword c = .ok k →
      List.Forall₂ Token.Renders piece (print k))
    (h : Sequence P ts cs) (hb : cs.mapM Line.buildKeyword = .ok ks) :
    List.Forall₂ Token.Renders ts (ks.flatMap print) := by
  rw [mapM_eq_ok_iff] at hb
  induction h generalizing ks with
  | nil => cases hb; exact .nil
  | cons hp _ ih =>
    cases hb with
    | cons hk hks => exact List.rel_append (hP _ _ _ hp hk) (ih hks)

theorem grammatical_of_sequence (hP : ∀ piece c k, P piece c → Line.buildKeyword c = .ok k →
      (∀ t ∈ piece, t.IsLexed mode) → k.Grammatical mode)
    (h : Sequence P ts cs) (hb : cs.mapM Line.buildKeyword = .ok ks)
    (ht : ∀ t ∈ ts, t.IsLexed mode) : ∀ k ∈ ks, k.Grammatical mode := by
  rw [mapM_eq_ok_iff] at hb
  induction h generalizing ks with
  | nil => cases hb; simp
  | cons hp _ ih =>
    cases hb with
    | cons hk hks =>
      intro k hmem
      rcases List.mem_cons.mp hmem with rfl | hmem
      · exact hP _ _ _ hp hk fun t h => ht t (by simp [h])
      · exact ih hks (fun t h => ht t (by simp [h])) k hmem

end

/-! ## Bodies of lines -/

namespace Line

theorem readBody_eq_ok_iff {α : Type} {mode : LexMode} {p : Parser Token α} {body line : String} {x : α} :
    readBody mode p body line = .ok x ↔ ∃ ts, Lexes mode false body.toList ts ∧
      ∃ stop, Parser.run (significant ts) p 0 = .ok (stop, x) := by
  rw [readBody, bind_eq_ok_iff]
  constructor
  · intro h
    obtain ⟨us, hus, hrun⟩ := h
    obtain ⟨ts, hts, rfl⟩ := significantTokens_eq_ok_iff.mp (mapError_eq_ok_iff.mp hus)
    split at hrun
    · rename_i stop y hp
      cases hrun
      exact ⟨ts, hts, stop, hp⟩
    · exact absurd hrun throw_ne_ok
  · intro h
    obtain ⟨ts, hts, stop, hrun⟩ := h
    refine ⟨significant ts, mapError_eq_ok_iff.mpr (significantTokens_eq_ok_iff.mpr ⟨ts, hts, rfl⟩), ?_⟩
    rw [hrun]
    rfl

theorem withoutNewline_of_last {s : String} (h : s.toList.getLast? ≠ some '\n') :
    withoutNewline s = s := by
  rw [withoutNewline, dropNewline, if_neg h, String.ofList_toList]

theorem withoutNewline_append (s : String) {body : String} (h : '\n' ∉ body.toList) :
    withoutNewline (s ++ " " ++ body) = s ++ " " ++ body := by
  apply withoutNewline_of_last
  rw [String.toList_append, String.toList_append, List.append_assoc,
    List.getLast?_append_of_ne_nil _ (by simp)]
  intro e
  have := List.mem_of_getLast? e
  simp only [List.mem_append] at this
  exact this.elim (by decide) h

end Line

end ActorHub
