import ActorHub.Proofs.Line.Header
import ActorHub.Proofs.Message.Reading

/-!
# Reply lines

A reply with a grammatical header and grammatical keywords is read back from its canonical form if it
is settled: nothing in it can add, drop or split a keyword. A reply that was read is grammatical, but
need not be settled, since canonical form undoes the escapes of backslashes and does not write them
again; what is read from its canonical form is then another reply, or nothing.
-/

namespace ActorHub.Reply

open ActorHub.Clause ActorHub.Parser

def tokens (r : Reply) : List Token :=
  Keywords.tokens (.delimiter .semicolon) r.keywords

structure Grammatical (r : Reply) : Prop where
  header : r.header.Grammatical
  keywords : ∀ k ∈ r.keywords, k.Grammatical .reply

/-- Every text that stands in quotes has only backslashes that stand before characters whose escape is
kept, once its escapes are undone. -/
def Settled (r : Reply) : Prop :=
  Keywords.Settled .reply r.keywords

/-! ## Reading -/

theorem read_eq_ok_iff {text : String} {r : Reply} : read text = .ok r ↔ ∃ body ts cs,
    ReplyHeader.read (Line.withoutNewline text) = .ok (r.header, body) ∧
    Lexes .reply false body.toList ts ∧ IsReplyBody (significant ts) cs ∧
    cs.mapM Line.buildKeyword = .ok r.keywords ∧ r.source = some (Line.withoutNewline text) := by
  simp only [read, bind_eq_ok_iff]
  constructor
  · intro h
    obtain ⟨⟨header, body⟩, hh, cs, hb, ks, hk, hr⟩ := h
    obtain rfl := pure_eq_ok_iff.mp hr
    obtain ⟨ts, hts, hrun⟩ := Line.readBody_eq_ok_iff.mp hb
    exact ⟨body, ts, cs, hh, hts, run_replyBody_iff.mp hrun, hk, rfl⟩
  · obtain ⟨header, keywords, source⟩ := r
    intro h
    obtain ⟨body, ts, cs, hh, hts, hcs, hk, rfl⟩ := h
    exact ⟨⟨header, body⟩, hh, cs, Line.readBody_eq_ok_iff.mpr ⟨ts, hts, run_replyBody_iff.mpr hcs⟩,
      keywords, hk, rfl⟩

/-! ## Tokens of replies -/

section
variable {r : Reply}

theorem spell_tokens (r : Reply) : spell r.tokens = (Keywords.canonical r.keywords ";").toList :=
  Keywords.spell_tokens rfl r.keywords

theorem isRaw_eq_false {k : Keyword} (h : k.Grammatical .reply) : k.isRaw = false := by
  obtain ⟨kind, values, matched⟩ := k
  cases kind with
  | raw => cases h.1
  | named name => rfl

theorem isRaw_tokens (h : r.Grammatical) : ∀ t ∈ r.tokens, t.isRaw = false := by
  intro t ht
  rcases mem_parted ht with rfl | ⟨piece, hp, ht⟩
  · rfl
  · obtain ⟨k, hk, rfl⟩ := List.mem_map.mp hp
    exact Keyword.isRaw_tokens (isRaw_eq_false (h.keywords k hk)) t ht

theorem printed_tokens (h : r.Grammatical) (hne : r.keywords ≠ []) : Printed .reply r.tokens := by
  refine printed_parted (.delimiter (by simp)) (by simpa) ?_ ?_
  · intro piece hp
    obtain ⟨k, hk, rfl⟩ := List.mem_map.mp hp
    exact Keyword.printed_tokens (h.keywords k hk)
  · intro piece hp
    obtain ⟨k, hk, rfl⟩ := List.mem_map.mp (List.dropLast_subset _ hp)
    exact Keyword.isRaw_tokens (isRaw_eq_false (h.keywords k hk))

theorem isTrivia_tokens (r : Reply) : ∀ t ∈ r.tokens, t.isTrivia = false := by
  intro t ht
  rcases mem_parted ht with rfl | ⟨piece, hp, ht⟩
  · rfl
  · obtain ⟨k, _, rfl⟩ := List.mem_map.mp hp
    exact k.isTrivia_tokens t ht

theorem isStable_tokens (h : r.Grammatical) : (∀ t ∈ r.tokens, t.IsStable .reply) ↔ r.Settled := by
  constructor
  · intro hs k hk
    exact (Keyword.isStable_tokens (h.keywords k hk)).mp fun t ht =>
      hs t (mem_parted_of_mem (List.mem_map_of_mem hk) ht)
  · intro hs t ht
    rcases mem_parted ht with rfl | ⟨piece, hp, ht⟩
    · trivial
    · obtain ⟨k, hk, rfl⟩ := List.mem_map.mp hp
      exact (Keyword.isStable_tokens (h.keywords k hk)).mpr (hs k hk) t ht

theorem isReplyBody_tokens (r : Reply) : IsReplyBody r.tokens (r.keywords.map Keyword.clause) := by
  unfold tokens Keywords.tokens
  cases r.keywords with
  | nil => exact .nil
  | cons k ks =>
    rw [List.map_cons, parted, List.flatMap_map]
    exact .cons k.isKeyword_tokens (sequence_flatMap (fun k => .semicolon k.isKeyword_tokens) ks)

end

section
variable {ts : List Token} {cs : List KeywordClause} {ks : Keywords}

theorem renders_replyBody (h : IsReplyBody ts cs) (hb : cs.mapM Line.buildKeyword = .ok ks) :
    List.Forall₂ Token.Renders ts (Keywords.tokens (.delimiter .semicolon) ks) := by
  rw [mapM_eq_ok_iff] at hb
  unfold Keywords.tokens
  cases h with
  | nil => cases hb; exact .nil
  | cons hfirst hts =>
    cases hb with
    | cons hk hks =>
      rw [List.map_cons, parted, List.flatMap_map]
      refine List.rel_append (renders_keyword hfirst hk) ?_
      refine renders_sequence (fun piece c k hn hk => ?_) hts (mapM_eq_ok_iff.mpr hks)
      cases hn with
      | semicolon hn => exact .cons (renders_delimiter _) (renders_keyword hn hk)

theorem grammatical_of_replyBody (h : IsReplyBody ts cs) (hb : cs.mapM Line.buildKeyword = .ok ks)
    (ht : ∀ t ∈ ts, t.IsLexed .reply) : ∀ k ∈ ks, k.Grammatical .reply := by
  rw [mapM_eq_ok_iff] at hb
  cases h with
  | nil => cases hb; simp
  | cons hfirst hrest =>
    cases hb with
    | cons hk hks =>
      intro k hmem
      rcases List.mem_cons.mp hmem with rfl | hmem
      · exact grammatical_of_isKeyword hfirst hk fun t h => ht t (by simp [h])
      · refine grammatical_of_sequence (fun piece c k hn hk ht => ?_) hrest (mapM_eq_ok_iff.mpr hks)
          (fun t h => ht t (by simp [h])) k hmem
        cases hn with
        | semicolon hn => exact grammatical_of_isKeyword hn hk fun t h => ht t (by simp [h])

end

theorem grammatical_of_read {text : String} {r : Reply} (h : read text = .ok r) : r.Grammatical := by
  obtain ⟨body, ts, cs, hh, hts, hcs, hk, -⟩ := read_eq_ok_iff.mp h
  exact ⟨ReplyHeader.grammatical_of_read hh, grammatical_of_replyBody hcs hk fun t ht =>
    hts.isLexed t (List.mem_of_mem_filter ht)⟩

/-! ## Round trips -/

theorem read_header_canonical {r : Reply} (h : r.Grammatical) :
    Line.withoutNewline r.canonical = r.canonical ∧
      ReplyHeader.read r.canonical = .ok (r.header, Keywords.canonical r.keywords ";") := by
  have hbody := spell_tokens r
  have hgap : ∀ c ∈ (Keywords.canonical r.keywords ";").toList.head?, ReplyHeader.isGap c = false := by
    by_cases hk : r.keywords = []
    · rw [hk]; simp [Keywords.canonical]
    · rw [← hbody]
      intro c hc
      rw [← Bool.not_eq_true, ReplyHeader.isGap_iff]
      rintro (rfl | rfl) <;> exact absurd ((printed_tokens h hk).head _ hc) (by decide)
  have hline : '\n' ∉ (Keywords.canonical r.keywords ";").toList := by
    by_cases hk : r.keywords = []
    · rw [hk]; simp [Keywords.canonical]
    · rw [← hbody]; exact (printed_tokens h hk).newline_not_mem
  exact ⟨Line.withoutNewline_append _ hline, ReplyHeader.read_canonical h.header hgap⟩

/-- The canonical form of a settled reply is read as the reply with its values in their printed
form. -/
theorem read_canonical {r : Reply} (h : r.Grammatical) (hs : r.Settled) : read r.canonical =
    .ok ⟨r.header, r.keywords.map Keyword.reread, some r.canonical⟩ := by
  obtain ⟨hline, hheader⟩ := read_header_canonical h
  refine read_eq_ok_iff.mpr ⟨Keywords.canonical r.keywords ";", r.tokens,
    r.keywords.map Keyword.clause, ?_, ?_, ?_, mapM_clause h.keywords, ?_⟩
  · rw [hline, hheader]
  · rw [← spell_tokens]
    by_cases hk : r.keywords = []
    · rw [tokens, hk]; exact .done
    · exact lexes_spell (printed_tokens h hk) ((isStable_tokens h).mpr hs)
  · rw [significant_eq_self r.isTrivia_tokens]
    exact r.isReplyBody_tokens
  · rw [hline]

theorem canonical_reread {r : Reply} (h : r.Grammatical) (hs : r.Settled) :
    (Reply.mk r.header (r.keywords.map Keyword.reread) (some r.canonical)).canonical = r.canonical := by
  have htokens : Keywords.tokens (.delimiter .semicolon) (r.keywords.map Keyword.reread) =
      Keywords.tokens (.delimiter .semicolon) r.keywords := by
    rw [Keywords.tokens, List.map_map]
    exact congrArg _ (List.map_congr_left fun k hk => Keyword.tokens_reread (h.keywords k hk) (hs k hk))
  have hspell : ∀ ks, spell (Keywords.tokens (.delimiter .semicolon) ks) =
      (Keywords.canonical ks ";").toList := Keywords.spell_tokens rfl
  have hbody : Keywords.canonical (r.keywords.map Keyword.reread) ";" =
      Keywords.canonical r.keywords ";" := by
    rw [← String.toList_inj, ← hspell, ← hspell, htokens]
  simp only [canonical, hbody]

theorem settled_of_read {r r' : Reply} (h : r.Grammatical) (hr : read r.canonical = .ok r')
    (he : r'.canonical = r.canonical) : r.Settled := by
  obtain ⟨hline, hheader⟩ := read_header_canonical h
  have hg := grammatical_of_read hr
  obtain ⟨body, ts, cs, hh, hts, hcs, hk, -⟩ := read_eq_ok_iff.mp hr
  rw [hline, hheader] at hh
  simp only [Except.ok.injEq, Prod.mk.injEq] at hh
  obtain ⟨hhead, rfl⟩ := hh
  -- the headers agree, so the bodies do
  have hspell : spell r'.tokens = spell r.tokens := by
    rw [spell_tokens, spell_tokens]
    rw [canonical, canonical, hhead] at he
    simpa [← String.toList_inj, String.toList_append] using he
  by_cases hempty : r.keywords = []
  · rw [Settled, hempty]; simp [Keywords.Settled]
  have hprinted := printed_tokens h hempty
  have hempty' : r'.keywords ≠ [] := by
    intro e
    refine hprinted.spell_ne_nil ?_
    rw [← hspell, tokens, e]
    rfl
  have hprinted' := printed_tokens hg hempty'
  rw [← spell_tokens, ← hspell] at hts
  have hrenders : List.Forall₂ Token.Renders (significant ts) r'.tokens := renders_replyBody hcs hk
  rw [← significant_eq_self r'.isTrivia_tokens] at hrenders
  have hstable := (stable_of_lexes hprinted' hts hrenders).2
  rw [spell_inj hprinted' hprinted (isRaw_tokens hg) (isRaw_tokens h) hspell] at hstable
  exact (isStable_tokens h).mp hstable

/-- What is read is read again from its canonical form, up to equivalence, if and only if it is
settled. -/
theorem reply_round_trip_iff {text : String} {r : Reply} (h : read text = .ok r) :
    (∃ r', read r.canonical = .ok r' ∧ r'.equals r = true) ↔ r.Settled := by
  have hg := grammatical_of_read h
  constructor
  · intro hx
    obtain ⟨r', hr, he⟩ := hx
    exact settled_of_read hg hr (beq_iff_eq.mp he)
  · intro hs
    exact ⟨_, read_canonical hg hs, beq_iff_eq.mpr (canonical_reread hg hs)⟩

theorem reply_round_trip_iff_escapes :
    ∃ r, read "hub.user.x 4 act i x='say \\\"a\\' \\n';Y=1,\"b c\"" = .ok r ∧
      r.canonical = "hub.user.x 4 act I x=\"say \\\"a' \\n\";y=1,\"b c\"" ∧
      ((∃ r', read r.canonical = .ok r' ∧ r'.equals r = true) ↔ r.Settled) := by
  obtain ⟨r, hr, hc⟩ : ∃ r, read "hub.user.x 4 act i x='say \\\"a\\' \\n';Y=1,\"b c\"" = .ok r ∧
      r.canonical = "hub.user.x 4 act I x=\"say \\\"a' \\n\";y=1,\"b c\"" :=
    exists_of_toOption_map (by decide +kernel)
  exact ⟨r, hr, hc, reply_round_trip_iff hr⟩

/-- The backslash that ends a bare value hides the quote that is printed behind it. -/
theorem trailing_backslash_unreadable : ∃ r, read "a.b 1 act i x=a\\" = .ok r ∧
    ¬ ∃ r', read r.canonical = .ok r' ∧ r'.equals r = true := by
  obtain ⟨r, hr, hc⟩ : ∃ r, read "a.b 1 act i x=a\\" = .ok r ∧
      r.canonical = "a.b 1 act I x=\"a\\\"" := exists_of_toOption_map (by decide +kernel)
  have hfail : (read "a.b 1 act I x=\"a\\\"").toOption.isNone = true := by decide +kernel
  refine ⟨r, hr, ?_⟩
  rw [hc]
  intro h
  obtain ⟨r', hr', -⟩ := h
  rw [hr'] at hfail
  cases hfail

/-! ## Texts without backslashes -/

section
variable {r : Reply}

theorem grammatical_of_isClear (hh : r.header.Grammatical) (hk : ∀ k ∈ r.keywords, k.IsClear) :
    r.Grammatical :=
  ⟨hh, fun k h => (hk k h).grammatical⟩

theorem settled_of_isClear (hk : ∀ k ∈ r.keywords, k.IsClear) : r.Settled :=
  fun k h => (hk k h).settled

end

/-- Values without backslashes and newlines cannot inject anything into a reply: each of them comes
back as one value with its text, under its keyword and in its place. -/
theorem canonical_injects_nothing {r : Reply} (hh : r.header.Grammatical)
    (hk : ∀ k ∈ r.keywords, ∃ name values, Keyword.make name values = .ok k ∧
      Lexeme.isName name.toList = true ∧
      ∀ v ∈ values, '\\' ∉ v.display.toList ∧ '\n' ∉ v.display.toList) :
    ∃ r', read r.canonical = .ok r' ∧ r'.header = r.header ∧
      List.Forall₂ (fun k k' => k'.kind = .named (Text.lowercase k.name) ∧
        List.Forall₂ (fun v v' => ∃ text, v' = .raw text ∧ Quoted.unescape text = v.display)
          k.values k'.values) r.keywords r'.keywords := by
  have hclear : ∀ k ∈ r.keywords, k.IsClear := by
    intro k hmem
    obtain ⟨name, values, hmake, hname, hv⟩ := hk k hmem
    obtain ⟨hr, rfl⟩ := Keyword.make_eq_ok_iff.mp hmake
    exact ⟨name, rfl, hname, hr, hv⟩
  refine ⟨_, read_canonical (grammatical_of_isClear hh hclear) (settled_of_isClear hclear), rfl, ?_⟩
  rw [List.forall₂_map_right_iff, List.forall₂_same]
  intro k hmem
  obtain ⟨name, hkind, -, -, hv⟩ := hclear k hmem
  rw [Keyword.reread, Keyword.name, hkind]
  refine ⟨rfl, ?_⟩
  rw [Values.printed, List.map_map, List.forall₂_map_right_iff, List.forall₂_same]
  intro v h
  refine ⟨_, rfl, ?_⟩
  rw [Value.printed_of_not_mem (hv v h).1, Quoted.unescape_escaped (hv v h).1]

theorem canonical_injects_nothing_punctuation :
    ∃ r', read (canonical ⟨⟨"", "hub", ".x.y", 18446744073709551615, "note", .failed⟩,
      [⟨.named "Text", [.raw "a\",;b = 'c'", .typed (.string "")], false⟩,
        ⟨.named "done", [], false⟩], none⟩) = .ok r' ∧ r'.keywords.length = 2 := by
  obtain ⟨r', hr, -, hk⟩ := canonical_injects_nothing
    (r := ⟨⟨"", "hub", ".x.y", 18446744073709551615, "note", .failed⟩,
      [⟨.named "Text", [.raw "a\",;b = 'c'", .typed (.string "")], false⟩,
        ⟨.named "done", [], false⟩], none⟩)
    ⟨.inl rfl, by decide, by decide, by decide, by decide⟩ <| by
      rw [List.forall_mem_cons, List.forall_mem_singleton]
      exact ⟨⟨"Text", _, rfl, by decide, by decide⟩, ⟨"done", _, rfl, by decide, by decide⟩⟩
  exact ⟨r', hr, hk.length_eq.symm⟩

end ActorHub.Reply
