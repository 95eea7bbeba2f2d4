import ActorHub.Proofs.Line.Command
import ActorHub.Proofs.Line.Reply
import ActorHub.Proofs.Message.Alike

/-!
# Equality of what was read

Messages are compared by their canonical forms. Equal replies that were read from lines are alike in
every part. So are equal commands, except where a quoted text ends with a backslash, since its closing
quote then reads as escaped, and one of the two has a raw line that this quote can reach into.
-/

namespace ActorHub

open ActorHub.Clause ActorHub.Parser

/-! ## Replies -/

namespace Reply

section
variable {r s : Reply}

theorem tokens_eq_of_canonical (hr : r.Grammatical) (hs : s.Grammatical)
    (e : Keywords.canonical r.keywords ";" = Keywords.canonical s.keywords ";") : r.tokens = s.tokens := by
  have hspell : spell r.tokens = spell s.tokens := by rw [spell_tokens, spell_tokens, e]
  have hnil : ∀ {q : Reply}, q.keywords = [] → q.tokens = [] := by
    intro q hq
    rw [tokens, hq]
    rfl
  by_cases hrk : r.keywords = []
  · by_cases hsk : s.keywords = []
    · rw [hnil hrk, hnil hsk]
    · rw [hnil hrk] at hspell
      exact absurd hspell.symm (printed_tokens hs hsk).spell_ne_nil
  · by_cases hsk : s.keywords = []
    · rw [hnil hsk] at hspell
      exact absurd hspell (printed_tokens hr hrk).spell_ne_nil
    · exact spell_inj (printed_tokens hr hrk) (printed_tokens hs hsk) (isRaw_tokens hr) (isRaw_tokens hs)
        hspell

theorem clauses_eq_of_tokens (e : r.tokens = s.tokens) :
    r.keywords.map Keyword.clause = s.keywords.map Keyword.clause := by
  obtain ⟨stop, hrun⟩ := run_replyBody_iff.mpr r.isReplyBody_tokens
  obtain ⟨stop', hrun'⟩ := run_replyBody_iff.mpr s.isReplyBody_tokens
  rw [e, hrun'] at hrun
  exact (congrArg Prod.snd (Except.ok.inj hrun)).symm

end

/-- Equal replies have one header, and the same keywords with the same texts in the same order. -/
theorem equal_replies_alike {a b : String} {r s : Reply} (hr : read a = .ok r) (hs : read b = .ok s)
    (h : r.equals s = true) : r.header = s.header ∧
      List.Forall₂ Keyword.Alike r.keywords s.keywords ∧ r.tokenized = s.tokenized := by
  have hrg := grammatical_of_read hr
  have hsg := grammatical_of_read hs
  -- the header is read off the canonical form, and the keywords are what stands behind it
  have hheader := (read_header_canonical hrg).2
  rw [beq_iff_eq.mp h, (read_header_canonical hsg).2] at hheader
  simp only [Except.ok.injEq, Prod.mk.injEq] at hheader
  obtain ⟨hhead, hbody⟩ := hheader
  have hclauses := clauses_eq_of_tokens (tokens_eq_of_canonical hrg hsg hbody.symm)
  have halike := Keywords.alike_of_clauses hrg.keywords hsg.keywords hclauses
  refine ⟨hhead.symm, halike, ?_⟩
  rw [tokenized, tokenized, ← hhead, Keywords.tokenized_of_alike halike]

theorem equal_replies_alike_quotes :
    ∃ r s, read "a.b 1 act i X='say \"a\\'', 5;done" = .ok r ∧
      read "a.b  1 act I x = \"say \\\"a'\",5 ; DONE\n" = .ok s ∧ r.equals s = true ∧
      r.header = s.header ∧ List.Forall₂ Keyword.Alike r.keywords s.keywords ∧
      r.tokenized = s.tokenized := by
  obtain ⟨r, hr, hrc⟩ : ∃ r, read "a.b 1 act i X='say \"a\\'', 5;done" = .ok r ∧
      r.canonical = "a.b 1 act I x=\"say \\\"a'\",5;done" := exists_of_toOption_map (by decide +kernel)
  obtain ⟨s, hs, hsc⟩ : ∃ s, read "a.b  1 act I x = \"say \\\"a'\",5 ; DONE\n" = .ok s ∧
      s.canonical = "a.b 1 act I x=\"say \\\"a'\",5;done" := exists_of_toOption_map (by decide +kernel)
  have he : r.equals s = true := beq_iff_eq.mpr (hrc.trans hsc.symm)
  exact ⟨r, s, hr, hs, he, equal_replies_alike hr hs he⟩

end Reply

/-! ## Commands -/

namespace Command

theorem read_of_clause (text : String) (cl : CommandClause) (ks : Keywords)
    (hb : (Line.readBody .command command (Line.withoutNewline text)
      (Line.withoutNewline text)).toOption = some cl)
    (hk : cl.keywords.mapM Line.buildKeyword = .ok ks) (hdot : '.' ∉ cl.verb.toList)
    (hraw : Text.sameName cl.verb Keyword.reserved = false) :
    read text = .ok ⟨cl.verb, cl.values.map .raw, ks, some (Line.withoutNewline text)⟩ :=
  read_eq_ok_iff.mpr ⟨cl, eq_ok_of_toOption hb, hk, hdot, hraw, rfl, rfl, rfl⟩

section
variable {us us' : List Token} {cs cs' : List KeywordClause}

theorem keywords_ne_values (h : Sequence IsKeyword us cs) (v : Value) (vs : Values) :
    us ≠ Values.tokens (v :: vs) ++ us' := by
  rw [Values.tokens_cons]
  intro e
  cases h with
  | nil => cases e
  | cons hk hks =>
    cases hk with
    | raw w =>
      have hraw := congrArg Token.isRaw (List.cons.inj e).1
      rw [v.isRaw_token] at hraw
      cases hraw
    | bare n =>
      simp only [List.cons_append, List.nil_append, List.cons.injEq] at e
      cases vs with
      | nil => cases e.1
      | cons w vs =>
        -- the name is the first of several values, but no keyword ends in front of a comma
        rw [List.flatMap_cons] at e
        exact (sequence_ends hks (.delimiter .comma) (by rw [e.2]; rfl)).2 rfl
    | valued n =>
      simp only [List.cons_append, List.cons.injEq] at e
      cases vs with
      | nil => cases e.1
      | cons w vs => cases (List.cons.inj e.2).1

theorem values_tokens_inj {vs ws : Values} (h : Sequence IsKeyword us cs) (h' : Sequence IsKeyword us' cs')
    (e : Values.tokens vs ++ us = Values.tokens ws ++ us') :
    Values.printed vs = Values.printed ws ∧ us = us' := by
  cases vs with
  | nil =>
    cases ws with
    | nil => exact ⟨rfl, e⟩
    | cons w ws => exact absurd e (keywords_ne_values h w ws)
  | cons v vs =>
    cases ws with
    | nil => exact absurd e.symm (keywords_ne_values h' v vs)
    | cons w ws =>
      rw [Values.tokens_cons, Values.tokens_cons, List.cons_append, List.cons_append,
        List.cons.injEq] at e
      have hmore := parse_moreValues (Values.isMore_tokens ((v :: vs).length == 1) vs)
        fun t ht => (sequence_ends h t ht).2
      rw [e.2, parse_moreValues (Values.isMore_tokens _ ws) fun t ht => (sequence_ends h' t ht).2] at hmore
      simp only [Option.some.injEq, Prod.mk.injEq] at hmore
      obtain ⟨htexts, hrest⟩ := hmore
      have hlength : (v :: vs).length = (w :: ws).length := by
        simpa using (congrArg List.length htexts).symm
      rw [Values.printed, Values.printed, List.map_cons, List.map_cons, ← htexts]
      refine ⟨?_, hrest.symm⟩
      rw [Value.printed, Value.printed, e.1]

theorem clauses_eq_of_sequence (h : Sequence IsKeyword us cs) (h' : Sequence IsKeyword us cs') :
    cs = cs' := by
  have := parse_keywords h
  rw [parse_keywords h'] at this
  cases this
  rfl

end

section
variable {c d : Command}

theorem clause_eq_of_tokens (e : c.tokens = d.tokens) : c.clause = d.clause := by
  have hks := sequence_flatMap Keyword.isKeyword_tokens c.keywords
  have hks' := sequence_flatMap Keyword.isKeyword_tokens d.keywords
  have hsig : significant c.tokens = significant d.tokens := by rw [e]
  rw [significant_tokens, significant_tokens, List.cons.injEq, Token.name.injEq] at hsig
  obtain ⟨hvalues, hrest⟩ := values_tokens_inj hks hks' hsig.2
  rw [hrest] at hks
  rw [clause, clause, hsig.1, hvalues, clauses_eq_of_sequence hks hks']

def Closed (c : Command) : Prop :=
  ∀ t ∈ c.tokens, t.IsClosed

instance : DecidablePred Closed := fun c =>
  inferInstanceAs (Decidable (∀ t ∈ c.tokens, t.IsClosed))

theorem apart_tokens (hc : c.Grammatical) (hd : d.Grammatical)
    (h : (∀ k ∈ c.keywords ++ d.keywords, k.isRaw = false) ∨ c.Closed ∧ d.Closed) :
    Apart c.tokens d.tokens := by
  rcases h with h | ⟨hclosed, hclosed'⟩
  · rw [List.forall_mem_append] at h
    exact .rawless (isRaw_tokens h.1) (isRaw_tokens h.2)
  · exact .closed hclosed hclosed' (keyed_tokens hc) (keyed_tokens hd)

end

theorem tokenized_of_alike {c d : Command} (hv : List.Forall₂ Value.Alike c.values d.values)
    (hk : List.Forall₂ Keyword.Alike c.keywords d.keywords) : c.tokenized = d.tokenized := by
  have hempty : ∀ {α : Type} {R : α → α → Prop} {xs ys : List α}, List.Forall₂ R xs ys →
      xs.isEmpty = ys.isEmpty := by
    intro α R xs ys h
    cases h <;> rfl
  rw [tokenized, tokenized, hempty hv, hempty hk, Values.tokenized_of_alike hv,
    Keywords.tokenized_of_alike hk]

/-- Equal commands have the same verb, values and keywords with the same texts in the same order,
unless one of them has a raw line and one of them a quoted text that ends with a backslash. -/
theorem equal_commands_alike {a b : String} {c d : Command} (hc : read a = .ok c) (hd : read b = .ok d)
    (he : c.equals d = true)
    (h : (∀ k ∈ c.keywords ++ d.keywords, k.isRaw = false) ∨ c.Closed ∧ d.Closed) :
    Text.lowercase c.name = Text.lowercase d.name ∧ List.Forall₂ Value.Alike c.values d.values ∧
      List.Forall₂ Keyword.Alike c.keywords d.keywords ∧ c.tokenized = d.tokenized := by
  have hcg := grammatical_of_read hc
  have hdg := grammatical_of_read hd
  have htokens : c.tokens = d.tokens := by
    refine (apart_tokens hcg hdg h).spell_inj (printed_tokens hcg) (printed_tokens hdg) ?_
    rw [spell_tokens, spell_tokens, beq_iff_eq.mp he]
  have hclause := clause_eq_of_tokens htokens
  simp only [clause, CommandClause.mk.injEq] at hclause
  obtain ⟨hname, hvalues, hkeywords⟩ := hclause
  have hv := Values.alike_of_printed hvalues
  have hk := Keywords.alike_of_clauses hcg.keywords.each hdg.keywords.each hkeywords
  exact ⟨hname, hv, hk, tokenized_of_alike hv hk⟩

theorem equal_commands_alike_raw :
    ∃ c d, read "Move 1,'a \\'b\\'' Rate raw= x=\"y" = .ok c ∧
      read "move  1 ,\"a 'b'\" rate RAW = x=\"y\n" = .ok d ∧ c.equals d = true ∧
      (c.Closed ∧ d.Closed) ∧ Text.lowercase c.name = Text.lowercase d.name ∧
      List.Forall₂ Value.Alike c.values d.values ∧
      List.Forall₂ Keyword.Alike c.keywords d.keywords ∧ c.tokenized = d.tokenized := by
  have hc := read_of_clause "Move 1,'a \\'b\\'' Rate raw= x=\"y"
    ⟨"Move", ["1", "a \\'b\\'"], [.named "Rate" [], .raw " x=\"y"]⟩ _ (by decide +kernel) rfl
    (by decide) (by decide)
  have hd := read_of_clause "move  1 ,\"a 'b'\" rate RAW = x=\"y\n"
    ⟨"move", ["1", "a 'b'"], [.named "rate" [], .raw " x=\"y"]⟩ _ (by decide +kernel) rfl
    (by decide) (by decide)
  have halike := fun he hclosed => equal_commands_alike hc hd he (.inr hclosed)
  refine ⟨_, _, hc, hd, ?_, ?_, halike ?_ ?_⟩
  all_goals decide

/-- A backslash in front of a closing quote lets a raw line be read as the rest of a quoted text. -/
theorem raw_line_hidden_by_quote : ∃ c d, read "cmd x=a\\ raw=b\"" = .ok c ∧
    read "cmd x='a\" raw=b'" = .ok d ∧ c.equals d = true ∧ c.tokenized ≠ d.tokenized := by
  have hc := read_of_clause "cmd x=a\\ raw=b\"" ⟨"cmd", [], [.named "x" ["a\\"], .raw "b\""]⟩ _
    (by decide +kernel) rfl (by decide) (by decide)
  have hd := read_of_clause "cmd x='a\" raw=b'" ⟨"cmd", [], [.named "x" ["a\" raw=b"]]⟩ _
    (by decide +kernel) rfl (by decide) (by decide)
  refine ⟨_, _, hc, hd, ?_, ?_⟩
  all_goals decide

end Command

end ActorHub
