import ActorHub.Proofs.Message.Reading

/-!
# Command lines

A command that is read from a line is read back from its canonical form, token by token, if and only if
it is settled: apart from escapes, no value among others may print as the word `raw`, and a bare name
that leads several values needs a bare name behind it. Raw lines may hold quotes, so two commands, one
of them with a raw line, can have the same canonical form.
-/

namespace ActorHub.Command

open ActorHub.Clause ActorHub.Parser

/-! ## Reading -/

theorem make_eq_ok_iff {n : String} {c : Command} : make n = .ok c ↔
    '.' ∉ n.toList ∧ Text.sameName n Keyword.reserved = false ∧ c = ⟨n, [], [], none⟩ := by
  unfold make
  rw [String.contains_char_eq]
  by_cases hdot : '.' ∈ n.toList
  · simp [hdot]
  · by_cases hraw : Text.sameName n Keyword.reserved = true
    · simp [hdot, hraw]
    · simp [hdot, hraw, eq_comm]

theorem readBody_eq_ok_iff {line : String} {cl : CommandClause} :
    Line.readBody .command command line line = .ok cl ↔
      ∃ ts, Lexes .command false line.toList ts ∧ IsCommand (significant ts) cl := by
  simp only [Line.readBody_eq_ok_iff, run_command_iff]

theorem read_eq_ok_iff {text : String} {c : Command} : read text = .ok c ↔ ∃ cl,
    Line.readBody .command command (Line.withoutNewline text) (Line.withoutNewline text) = .ok cl ∧
    cl.keywords.mapM Line.buildKeyword = .ok c.keywords ∧ '.' ∉ c.name.toList ∧
    Text.sameName c.name Keyword.reserved = false ∧ c.name = cl.verb ∧
    c.values = cl.values.map .raw ∧ c.source = some (Line.withoutNewline text) := by
  simp only [read, bind_eq_ok_iff, mapError_eq_ok_iff, make_eq_ok_iff, pure_eq_ok_iff]
  constructor
  · intro h
    obtain ⟨cl, hb, ks, hk, _, ⟨hdot, hraw, rfl⟩, rfl⟩ := h
    exact ⟨cl, hb, hk, hdot, hraw, rfl, rfl, rfl⟩
  · obtain ⟨name, values, keywords, source⟩ := c
    intro h
    obtain ⟨cl, hb, hk, hdot, hraw, rfl, rfl, rfl⟩ := h
    exact ⟨cl, hb, keywords, hk, _, ⟨hdot, hraw, rfl⟩, rfl⟩

/-! ## Tokens of commands -/

def clause (c : Command) : CommandClause :=
  ⟨Text.lowercase c.name, Values.printed c.values, c.keywords.map Keyword.clause⟩

theorem significant_tokens (c : Command) : significant c.tokens =
    .name (Text.lowercase c.name) :: (Values.tokens c.values ++ c.keywords.flatMap Keyword.tokens) := by
  rw [tokens, significant_parted rfl]
  · rw [pieces, List.flatten_cons, List.flatten_append, List.flatMap_def]
    cases c.values <;> simp [Values.tokens, parted]
  · intro piece hp t ht
    simp only [pieces, List.mem_cons, List.mem_append, List.mem_map] at hp
    rcases hp with rfl | hp | ⟨k, _, rfl⟩
    · rw [List.mem_singleton.mp ht]; rfl
    · split at hp
      · cases hp
      · rw [List.mem_singleton.mp hp] at ht
        exact Values.isTrivia_tokens _ t ht
    · exact k.isTrivia_tokens t ht

section
variable {c : Command}

theorem isRaw_tokens (h : ∀ k ∈ c.keywords, k.isRaw = false) : ∀ t ∈ c.tokens, t.isRaw = false := by
  intro t ht
  rcases mem_parted ht with rfl | ⟨piece, hp, ht⟩
  · rfl
  · simp only [pieces, List.mem_cons, List.mem_append, List.mem_map] at hp
    rcases hp with rfl | hp | ⟨k, hk, rfl⟩
    · rw [List.mem_singleton.mp ht]; rfl
    · split at hp
      · cases hp
      · rw [List.mem_singleton.mp hp] at ht
        exact Values.isRaw_tokens _ t ht
    · exact Keyword.isRaw_tokens (h k hk) t ht

theorem raw_eq_nil {k : Keyword} {ks : Keywords} (h : Keywords.Grammatical .command (k :: ks))
    (hk : k.isRaw = true) : ks = [] := by
  cases ks with
  | nil => rfl
  | cons k' ks => rw [h.rawLast k (by simp)] at hk; cases hk

theorem token_of_isName {v : Value} (h : Lexeme.isName v.display.toList = true) :
    v.token false = .name v.display := by
  rw [Value.token, Value.isQuoted, Value.isBare_of_isName h, Lexeme.wordToken, if_pos h]
  simp

theorem isName_of_token {v : Value} {w : String} (h : v.token false = .name w) :
    Lexeme.isName v.display.toList = true := by
  unfold Value.token at h
  split at h
  · cases h
  · unfold Lexeme.wordToken at h
    split at h
    · assumption
    · cases h

theorem isCommand_tokens (h : c.Grammatical) (hl : Leads c.values) :
    IsCommand (significant c.tokens) c.clause := by
  have hks := sequence_flatMap Keyword.isKeyword_tokens c.keywords
  rw [significant_tokens, clause]
  cases hv : c.values with
  | nil =>
    cases hk : c.keywords with
    | nil => exact .verb _
    | cons k ks =>
      have hks' := sequence_flatMap Keyword.isKeyword_tokens ks
      cases hkind : k.kind with
      | raw =>
        obtain rfl := raw_eq_nil (hk ▸ h.keywords) (by simp [Keyword.isRaw, hkind])
        simp only [List.flatMap_cons, List.flatMap_nil, List.append_nil, List.map_cons, List.map_nil,
          Keyword.tokens, Keyword.clause, hkind]
        exact .raw _ _ _
      | named name =>
        have hclause : k.clause = .named (Text.lowercase name) (Values.printed k.values) := by
          rw [Keyword.clause, hkind]
        have hkey := k.isKeyword_tokens
        rw [hclause] at hkey
        rw [show Values.tokens [] = [] from rfl, List.nil_append, List.flatMap_cons, List.map_cons,
          hclause]
        exact .keywords _ _ hkey hks'
  | cons v vs =>
    rw [Values.tokens_cons, Values.printed, List.map_cons, List.cons_append]
    have hmore := Values.isMore_tokens ((v :: vs).length == 1) vs
    by_cases hname : ∃ w, v.token ((v :: vs).length == 1) = .name w
    · obtain ⟨a, ha⟩ := hname
      cases vs with
      | nil => cases ha
      | cons w more =>
        have hfalse : ((v :: w :: more).length == 1) = false := by simp
        rw [hfalse] at ha ⊢
        have hw := token_of_isName (hl v w more hv (isName_of_token ha))
        have hmore := Values.isMore_tokens false more
        rw [Value.printed, List.map_cons, Value.printed, List.flatMap_cons, ha, hw]
        exact .names _ _ _ hmore hks
    · exact .values _ (v.isValue_token _) (fun w hw => hname ⟨w, hw⟩) hmore hks

theorem leads_of_isCommand {cl : CommandClause} (h : IsCommand (significant c.tokens) cl) :
    Leads c.values := by
  intro v w more hv hn
  have hfalse : ((v :: w :: more).length == 1) = false := by simp
  rw [significant_tokens, hv, Values.tokens_cons, hfalse, token_of_isName hn, List.flatMap_cons] at h
  generalize hus : _ :: _ = us at h
  cases h with
  | names =>
    simp only [List.cons_append, List.nil_append, List.cons.injEq] at hus
    exact isName_of_token hus.2.2.2.1
  | values _ _ hne =>
    simp only [List.cons_append, List.cons.injEq] at hus
    exact absurd hus.2.1.symm (hne _)
  | keywords _ _ hk hks =>
    cases hk with
    | bare =>
      simp only [List.cons_append, List.nil_append, List.cons.injEq] at hus
      obtain ⟨_, _, rfl⟩ := hus
      exact absurd rfl (sequence_ends hks _ rfl).2
    | valued => simp at hus
  | raw | verb => simp at hus

end

section
variable {us : List Token} {cl : CommandClause} {ks : Keywords}

theorem renders_command (h : IsCommand us cl) (hb : cl.keywords.mapM Line.buildKeyword = .ok ks)
    (source : Option String) : List.Forall₂ Token.Renders us
      (significant (tokens ⟨cl.verb, cl.values.map .raw, ks, source⟩)) := by
  obtain ⟨vts, kts, rfl, hv, hk⟩ := h.parts
  rw [significant_tokens]
  exact .cons (renders_name _ _) (List.rel_append (renders_isValues hv)
    (renders_sequence (fun _ _ _ hk hb => renders_keyword hk hb) hk hb))

/-- Where nothing but its line stands behind the word `raw`, only the last keyword is a raw line. -/
theorem rawLast_of_sequence {cs : List KeywordClause} (h : Sequence IsKeyword us cs)
    (hb : cs.mapM Line.buildKeyword = .ok ks)
    (hraw : ∀ front w back, us = front ++ .raw w :: back → back = [] ∨ ∃ text, back = [.line text]) :
    ∀ k ∈ ks.dropLast, k.isRaw = false := by
  rw [mapM_eq_ok_iff] at hb
  induction h generalizing ks with
  | nil => cases hb; simp
  | @cons piece ts c cs hp hts ih =>
    cases hb with
    | @cons _ k _ ks hk hks =>
      have htail := ih hks fun front w back e => hraw (piece ++ front) w back (by rw [e, List.append_assoc])
      cases ks with
      | nil => simp
      | cons k' ks =>
        rw [List.dropLast_cons_cons]
        intro j hj
        rcases List.mem_cons.mp hj with rfl | hj
        · cases hp with
          | raw w text =>
            have hnil : ts = [] := by
              rcases hraw [] w (.line text :: ts) rfl with e | ⟨text', e⟩ <;> cases e
              rfl
            cases hts with
            | nil => cases hks
            | cons hp' _ => cases hp' <;> cases hnil
          | bare | valued => rw [(Keyword.buildKeyword_named_iff.mp hk).2]; rfl
        · exact htail j hj

end

theorem grammatical_of_read {text : String} {c : Command} (h : read text = .ok c) : c.Grammatical := by
  obtain ⟨cl, hb, hk, hdot, hraw, hname, hvalues, -⟩ := read_eq_ok_iff.mp h
  obtain ⟨ts, hts, hcl⟩ := readBody_eq_ok_iff.mp hb
  have hlexed : ∀ t ∈ significant ts, t.IsLexed .command := fun t ht =>
    hts.isLexed t (List.mem_of_mem_filter ht)
  obtain ⟨vts, kts, hsplit, hv, hks⟩ := hcl.parts
  rw [hsplit] at hlexed
  refine ⟨?_, hdot, hraw, ?_, ?_, ?_⟩
  · rw [hname]
    exact (hlexed (.name cl.verb) (by simp)).1
  · rw [hvalues]
    exact newline_not_mem_of_isValues hv fun t h => hlexed t (by simp [h])
  · exact grammatical_of_sequence (fun _ _ _ hk hb ht => grammatical_of_isKeyword hk hb ht) hks hk
      fun t h => hlexed t (by simp [h])
  · refine rawLast_of_sequence hks hk fun front w back e => ?_
    have hfront : significant ts = (.name cl.verb :: (vts ++ front)) ++ .raw w :: back := by
      rw [hsplit, e]; simp
    exact hts.significant_raw_last hfront

/-! ## Round trips -/

theorem withoutNewline_canonical {c : Command} (h : c.Grammatical) :
    Line.withoutNewline c.canonical = c.canonical := by
  refine Line.withoutNewline_of_last fun e => ?_
  rw [← spell_tokens] at e
  exact (printed_tokens h).newline_not_mem (List.mem_of_getLast? e)

theorem read_canonical {c : Command} (h : c.Grammatical) (hs : c.Settled) : read c.canonical =
    .ok ⟨Text.lowercase c.name, (Values.printed c.values).map .raw, c.keywords.map Keyword.reread,
      some c.canonical⟩ := by
  have hprinted := printed_tokens h
  have hline := withoutNewline_canonical h
  refine read_eq_ok_iff.mpr ⟨c.clause, ?_, mapM_clause h.keywords.each, ?_, ?_, rfl, rfl, by rw [hline]⟩
  · have hstable := (isStable_tokens h).mpr ⟨hs.values, hs.keywords⟩
    rw [hline, readBody_eq_ok_iff, ← spell_tokens]
    exact ⟨c.tokens, lexes_spell hprinted hstable, isCommand_tokens h hs.leads⟩
  · exact Lexeme.dot_not_mem_lowercase h.name h.undotted
  · show Text.sameName (Text.lowercase c.name) _ = false
    rw [Lexeme.sameName_lowercase h.name]
    exact h.notRaw

theorem tokens_reread {c : Command} (h : c.Grammatical) (hs : c.Settled) (source : Option String) :
    tokens ⟨Text.lowercase c.name, (Values.printed c.values).map .raw, c.keywords.map Keyword.reread,
      source⟩ = c.tokens := by
  have hempty : ((Values.printed c.values).map Value.raw).isEmpty = c.values.isEmpty := by
    simp [Values.printed]
  have hks : (c.keywords.map Keyword.reread).map Keyword.tokens = c.keywords.map Keyword.tokens := by
    rw [List.map_map]
    exact List.map_congr_left fun k hk => Keyword.tokens_reread (h.keywords.each k hk) (hs.keywords k hk)
  simp only [tokens, pieces, hempty, hks, Values.tokens_printed hs.values,
    Lexeme.lowercase_lowercase h.name]

theorem canonical_inj {c d : Command} (e : c.tokens = d.tokens) : c.canonical = d.canonical := by
  rw [← String.toList_inj, ← spell_tokens, ← spell_tokens, e]

theorem settled_of_read {text : String} {c : Command} (h : read text = .ok c)
    (he : c.canonical = text) : c.Settled := by
  have hg := grammatical_of_read h
  obtain ⟨cl, hb, hk, -, -, hname, hvalues, -⟩ := read_eq_ok_iff.mp h
  obtain ⟨ts, hts, hcl⟩ := readBody_eq_ok_iff.mp hb
  rw [← he, withoutNewline_canonical hg, ← spell_tokens] at hts
  have hrenders := renders_command hcl hk c.source
  rw [← hname, ← hvalues] at hrenders
  obtain ⟨rfl, hstable⟩ := stable_of_lexes (printed_tokens hg) hts hrenders
  have hs := (isStable_tokens hg).mp hstable
  exact ⟨hs.1, leads_of_isCommand hcl, hs.2⟩

/-- A settled command with other tokens has the same canonical form. One of the two then has a raw
line, in which quotes mean nothing. -/
def Collides (c : Command) : Prop :=
  ∃ d : Command, d.Grammatical ∧ d.Settled ∧ d.canonical = c.canonical ∧ d.tokens ≠ c.tokens ∧
    ((∃ k ∈ c.keywords, k.isRaw = true) ∨ ∃ k ∈ d.keywords, k.isRaw = true)

theorem tokens_eq_of_canonical {c d : Command} (hc : c.Grammatical) (hd : d.Grammatical)
    (hcr : ∀ k ∈ c.keywords, k.isRaw = false) (hdr : ∀ k ∈ d.keywords, k.isRaw = false)
    (e : c.canonical = d.canonical) : c.tokens = d.tokens := by
  refine spell_inj (printed_tokens hc) (printed_tokens hd) (isRaw_tokens hcr) (isRaw_tokens hdr) ?_
  rw [spell_tokens, spell_tokens, e]

theorem settled_congr {c d : Command} (hc : c.Grammatical) (hd : d.Grammatical)
    (e : c.tokens = d.tokens) (h : c.Settled) : d.Settled := by
  have hs := (isStable_tokens hc).mpr ⟨h.values, h.keywords⟩
  have hcl := isCommand_tokens hc h.leads
  rw [e] at hs hcl
  have hs := (isStable_tokens hd).mp hs
  exact ⟨hs.1, leads_of_isCommand hcl, hs.2⟩

/-- What is read is read again from its canonical form with the same tokens if and only if it is
settled, and with the same canonical form also where it collides with a settled command. -/
theorem command_round_trip_iff {text : String} {c : Command} (h : read text = .ok c) :
    ((∃ c', read c.canonical = .ok c' ∧ c'.equals c = true) ↔ c.Settled ∨ c.Collides) ∧
    ((∃ c', read c.canonical = .ok c' ∧ c'.equals c = true ∧ c'.tokens = c.tokens) ↔ c.Settled) := by
  have hg := grammatical_of_read h
  have hback {d : Command} (hd : d.Grammatical) (hs : d.Settled) : ∃ c', read d.canonical = .ok c' ∧
      c'.canonical = d.canonical ∧ c'.tokens = d.tokens :=
    ⟨_, read_canonical hd hs, canonical_inj (tokens_reread hd hs _), tokens_reread hd hs _⟩
  constructor
  · constructor
    · intro hx
      obtain ⟨d, hd, he⟩ := hx
      have he := beq_iff_eq.mp he
      have hdg := grammatical_of_read hd
      have hds := settled_of_read hd he
      by_cases ht : d.tokens = c.tokens
      · exact .inl (settled_congr hdg hg ht hds)
      · refine .inr ⟨d, hdg, hds, he, ht, ?_⟩
        -- without raw lines a text is spelled by one row of tokens only
        by_contra hraw
        simp only [not_or, not_exists, not_and, Bool.not_eq_true] at hraw
        exact ht (tokens_eq_of_canonical hdg hg hraw.2 hraw.1 he)
    · rintro (hs | ⟨d, hd, hs, he, -⟩)
      · obtain ⟨c', hr, he, -⟩ := hback hg hs
        exact ⟨c', hr, beq_iff_eq.mpr he⟩
      · obtain ⟨c', hr, he', -⟩ := hback hd hs
        exact ⟨c', he ▸ hr, beq_iff_eq.mpr (he'.trans he)⟩
  · constructor
    · intro hx
      obtain ⟨d, hd, he, ht⟩ := hx
      exact settled_congr (grammatical_of_read hd) hg ht (settled_of_read hd (beq_iff_eq.mp he))
    · intro hs
      obtain ⟨c', hr, he, ht⟩ := hback hg hs
      exact ⟨c', hr, beq_iff_eq.mpr he, ht⟩

theorem command_round_trip_iff_raw :
    ∃ c, read "Move 1,'a \\'b\\'' Rate raw= x=\"y" = .ok c ∧
      c.canonical = "move 1,\"a 'b'\" rate raw= x=\"y" ∧
      ((∃ c', read c.canonical = .ok c' ∧ c'.equals c = true) ↔ c.Settled ∨ c.Collides) := by
  have hr : read "Move 1,'a \\'b\\'' Rate raw= x=\"y" = .ok ⟨"Move", [.raw "1", .raw "a \\'b\\'"],
      [⟨.named "Rate", [], false⟩, .raw " x=\"y"], some "Move 1,'a \\'b\\'' Rate raw= x=\"y"⟩ :=
    read_eq_ok_iff.mpr ⟨⟨"Move", ["1", "a \\'b\\'"], [.named "Rate" [], .raw " x=\"y"]⟩,
      eq_ok_of_toOption (by decide +kernel), rfl, by decide, by decide, rfl, rfl, rfl⟩
  exact ⟨_, hr, by decide, (command_round_trip_iff hr).1⟩

/-- A bare name in front of a value that is none is taken for a keyword. -/
theorem leading_name_unreadable : ∃ c, read "cmd \"a\",1" = .ok c ∧
    ¬ ∃ c', read c.canonical = .ok c' ∧ c'.equals c = true := by
  have hr : read "cmd \"a\",1" = .ok ⟨"cmd", [.raw "a", .raw "1"], [], some "cmd \"a\",1"⟩ :=
    read_eq_ok_iff.mpr ⟨⟨"cmd", ["a", "1"], []⟩, eq_ok_of_toOption (by decide +kernel), rfl,
      by decide, by decide, rfl, rfl, rfl⟩
  have hc : canonical ⟨"cmd", [.raw "a", .raw "1"], [], some "cmd \"a\",1"⟩ = "cmd a,1" := by decide
  have hfail : (read "cmd a,1").toOption.isNone = true := by decide +kernel
  refine ⟨_, hr, ?_⟩
  intro h
  obtain ⟨c', hr', -⟩ := h
  rw [hc] at hr'
  rw [hr'] at hfail
  cases hfail

end ActorHub.Command
