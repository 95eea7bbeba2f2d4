import ActorHub.Proofs.Clause.Grammar

/-!
# The longest body

Keywords are read greedily, and a separator that no keyword follows is left unread. So reading stops
behind the longest front of the tokens that is a body, and a row of tokens that is no body fails at
the token behind that front.
-/

namespace ActorHub.Clause

open ActorHub.Parser

section
variable {first front : List Token}

/-! ## How far reading goes -/

theorem parse_keyword_reaches {c : KeywordClause} (h : IsKeyword first c) (rest : List Token) :
    ∃ d rest', keyword.parse (first ++ rest) = some (d, rest') ∧ rest'.length ≤ rest.length := by
  rw [keyword, parse_inContext, parse_choice]
  cases h with
  | raw w text => exact ⟨_, _, rfl, Nat.le_refl _⟩
  | bare n =>
    -- an equals sign behind the name, with a value, makes the keyword longer
    cases hvalues : values.parse rest with
    | none =>
      exact ⟨.named n [], rest, by simp [List.findSome?_cons, parse, tuple2, raw, name, hvalues],
        Nat.le_refl _⟩
    | some r =>
      obtain ⟨vs, rest'⟩ := r
      exact ⟨.named n vs, rest', by simp [List.findSome?_cons, parse, tuple2, raw, name, hvalues],
        length_le_of_parse hvalues⟩
  | @valued n t ts s more ht hm =>
    obtain ⟨more', rest', hmany, hle⟩ := parse_many_reaches (p := preceded comma value)
      (fun _ => True) (fun hp _ => ⟨by cases hp; simp, parse_more.mpr ⟨_, rfl, hp⟩⟩)
      (fun rest hp => ⟨_, rest, parse_more.mpr ⟨_, rfl, hp⟩, Nat.le_refl _⟩) (fun _ _ => trivial)
      trivial hm rest
    have hvalues : values.parse (.delimiter .equals :: t :: (ts ++ rest)) = some (s :: more', rest') := by
      rw [values, parse_inContext, parse_preceded]
      exact ⟨_, parse_delimiter.mpr rfl, parse_map.mpr
        ⟨(s, more'), parse_seq.mpr ⟨_, parse_value.mpr ⟨t, ht, rfl⟩, hmany⟩, rfl⟩⟩
    exact ⟨.named n (s :: more'), rest',
      by simp [List.findSome?_cons, parse, tuple2, raw, name, hvalues], hle⟩

theorem parse_next_reaches {c : KeywordClause} (rest : List Token) (h : IsNext first c) :
    ∃ d rest', (preceded semicolon keyword).parse (first ++ rest) = some (d, rest') ∧
      rest'.length ≤ rest.length := by
  cases h with
  | semicolon hk =>
    obtain ⟨d, rest', hd, hle⟩ := parse_keyword_reaches hk rest
    exact ⟨d, rest', parse_preceded.mpr ⟨_, parse_delimiter.mpr rfl, hd⟩, hle⟩

/-- Whatever front of the tokens is a body, keywords are read at least that far. -/
theorem parse_body_reaches {cs : List KeywordClause} (h : IsReplyBody front cs) (rest : List Token) :
    ∃ ds rest', (sepBy keyword semicolon).parse (front ++ rest) = some (ds, rest') ∧
      rest'.length ≤ rest.length := by
  rw [parse_sepBy_eq _ length_of_parse_semicolon]
  cases h with
  | nil =>
    cases hk : keyword.parse rest with
    | none => exact ⟨[], rest, by simp [hk], Nat.le_refl _⟩
    | some r =>
      obtain ⟨c, mid⟩ := r
      obtain ⟨ds, rest', hd, hle⟩ := exists_parse_many (preceded semicolon keyword) mid
      exact ⟨c :: ds, rest', by simp [hk, hd], Nat.le_trans hle (length_le_of_parse hk)⟩
  | @cons piece ts c cs hpiece hts =>
    rw [List.append_assoc]
    cases hts with
    | nil =>
      obtain ⟨d, mid, hk, hle⟩ := parse_keyword_reaches hpiece rest
      obtain ⟨ds, rest', hd, hle'⟩ := exists_parse_many (preceded semicolon keyword) mid
      exact ⟨d :: ds, rest', by simp [hk, hd], Nat.le_trans hle' hle⟩
    | @cons piece' ts' c' cs' hnext hts =>
      have hends : EndsKeyword ((piece' ++ ts') ++ rest) := by
        rw [List.append_assoc]; exact hnext.ends _
      obtain ⟨ds, rest', hd, hle⟩ := parse_many_reaches EndsKeyword parse_of_isNext
        parse_next_reaches (fun rest hn => hn.ends rest) endsKeyword_nil (.cons hnext hts) rest
      exact ⟨c :: ds, rest', by rw [parse_keyword hpiece hends]; simp only [hd, Option.map_some], hle⟩

end

/-! ## Failures -/

/-- The longest front of the tokens that is a reply body. -/
structure IsLongestBody (ts front : List Token) : Prop where
  isFront : front <+: ts
  isBody : ∃ cs, IsReplyBody front cs
  longest : ∀ other cs, other <+: ts → IsReplyBody other cs → other.length ≤ front.length

theorem run_keywords (ts : List Token) : ∃ front cs, IsLongestBody ts front ∧ IsReplyBody front cs ∧
    Parser.run ts (sepBy keyword semicolon) 0 = .ok (front.length, cs) := by
  have hagrees := run_agrees (sepBy keyword semicolon) (Nat.zero_le ts.length)
  rw [List.drop_zero] at hagrees
  rcases hagrees.outcome with ⟨e, -, hparse⟩ | ⟨stop, cs, hrun, hparse, -, hstop⟩
  · -- even where no keyword stands, the empty row is read
    obtain ⟨ds, rest', hd, -⟩ := parse_body_reaches .nil ts
    rw [List.nil_append, hparse] at hd
    cases hd
  · obtain ⟨front, hts, hbody⟩ := isReplyBody_of_parse hparse
    have hlength : stop = front.length := by
      have := congrArg List.length hts
      simp only [List.length_append, List.length_drop] at this
      omega
    refine ⟨front, cs, ⟨⟨_, hts.symm⟩, ⟨cs, hbody⟩, fun other ds hother hds => ?_⟩, hbody,
      hlength ▸ hrun⟩
    obtain ⟨rest, rfl⟩ := hother
    obtain ⟨_, rest', hreach, hle⟩ := parse_body_reaches hds rest
    rw [hparse, Option.some.injEq, Prod.mk.injEq] at hreach
    have := congrArg List.length hreach.2
    simp only [List.length_append, List.length_drop] at this hstop
    omega

/-- A row of tokens is read just if it is a body, and as that body. Of any other row the failure
names the token behind the longest body at its front. -/
theorem replyBody_reads_longest_front (ts : List Token) :
    (∀ stop cs, Parser.run ts replyBody 0 = .ok (stop, cs) ↔
      stop = ts.length ∧ IsReplyBody ts cs) ∧
    ∀ e, Parser.run ts replyBody 0 = .error e → ∃ front, IsLongestBody ts front ∧
      front.length < ts.length ∧ e = .inContext "reply" (.unexpected front.length) ∧
      e.place = some (.item front.length) := by
  refine ⟨fun stop cs => ?_, fun e h => ?_⟩
  · rw [run_eq_ok_iff fun h => (parse_replyBody.mp h).2, parse_replyBody]
    simp
  · obtain ⟨front, cs, hlongest, -, hrun⟩ := run_keywords ts
    rw [replyBody, Parser.run, Parser.run, hrun] at h
    by_cases hlt : front.length < ts.length
    · simp only [if_pos hlt, Except.error.injEq] at h
      exact ⟨front, hlongest, hlt, h.symm, h ▸ rfl⟩
    · simp only [if_neg hlt] at h
      cases h

/-- Of `a=1;` all but the separator is read. -/
theorem replyBody_reads_longest_front_separator :
    Parser.run [.name "a", .delimiter .equals, .value "1", .delimiter .semicolon] replyBody 0 =
      .error (.inContext "reply" (.unexpected 3)) ∧
    ∃ front, IsLongestBody [.name "a", .delimiter .equals, .value "1", .delimiter .semicolon] front ∧
      front.length = 3 := by
  have hrun : Parser.run [.name "a", .delimiter .equals, .value "1", .delimiter .semicolon]
      replyBody 0 = .error (.inContext "reply" (.unexpected 3)) := rfl
  obtain ⟨front, hlongest, -, he, -⟩ := (replyBody_reads_longest_front _).2 _ hrun
  simp only [Failure.inContext.injEq, Failure.unexpected.injEq, true_and] at he
  exact ⟨hrun, front, hlongest, he.symm⟩

end ActorHub.Clause
