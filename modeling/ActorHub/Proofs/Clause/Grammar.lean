import ActorHub.Clause
import ActorHub.Proofs.Parser.Suffix

/-!
# The grammar of clauses

The bodies of commands and replies as relations between tokens and clauses, and the parsers that
decide them. A keyword is read up to the first token that cannot continue it, so where keywords
stand in a row, or one after a semicolon, there is only one way to read them.
-/

namespace ActorHub.Clause

open ActorHub.Parser

/-! ## Relations -/

inductive IsValue : Token → String → Prop
  | name (s : String) : IsValue (.name s) s
  | value (s : String) : IsValue (.value s) s
  | quoted (s : String) : IsValue (.quoted s) s

inductive IsMore : List Token → String → Prop
  | comma {t : Token} {s : String} : IsValue t s → IsMore [.delimiter .comma, t] s

inductive IsKeyword : List Token → KeywordClause → Prop
  | raw (w text : String) : IsKeyword [.raw w, .line text] (.raw text)
  | bare (n : String) : IsKeyword [.name n] (.named n [])
  | valued (n : String) {t : Token} {ts : List Token} {s : String} {more : List String} :
      IsValue t s → Sequence IsMore ts more →
      IsKeyword (.name n :: .delimiter .equals :: t :: ts) (.named n (s :: more))

inductive IsNext : List Token → KeywordClause → Prop
  | semicolon {ts : List Token} {c : KeywordClause} : IsKeyword ts c →
      IsNext (.delimiter .semicolon :: ts) c

inductive IsReplyBody : List Token → List KeywordClause → Prop
  | nil : IsReplyBody [] []
  | cons {first ts : List Token} {c : KeywordClause} {cs : List KeywordClause} :
      IsKeyword first c → Sequence IsNext ts cs → IsReplyBody (first ++ ts) (c :: cs)

/-- A verb with values, of which the first is no name unless a name stands behind it; a verb with
keywords; or a verb with a raw line alone. -/
inductive IsCommand : List Token → CommandClause → Prop
  | names (v a b : String) {ts us : List Token} {more : List String} {cs : List KeywordClause} :
      Sequence IsMore ts more → Sequence IsKeyword us cs →
      IsCommand (.name v :: .name a :: .delimiter .comma :: .name b :: (ts ++ us))
        ⟨v, a :: b :: more, cs⟩
  | values (v : String) {t : Token} {s : String} {ts us : List Token} {more : List String}
      {cs : List KeywordClause} : IsValue t s → (∀ w, t ≠ .name w) →
      Sequence IsMore ts more → Sequence IsKeyword us cs →
      IsCommand (.name v :: t :: (ts ++ us)) ⟨v, s :: more, cs⟩
  | keywords (v n : String) {first us : List Token} {values : List String}
      {cs : List KeywordClause} : IsKeyword first (.named n values) → Sequence IsKeyword us cs →
      IsCommand (.name v :: (first ++ us)) ⟨v, [], .named n values :: cs⟩
  | raw (v w text : String) : IsCommand [.name v, .raw w, .line text] ⟨v, [], [.raw text]⟩
  | verb (v : String) : IsCommand [.name v] ⟨v, [], []⟩

inductive IsValues : List Token → List String → Prop
  | nil : IsValues [] []
  | cons {t : Token} {ts : List Token} {s : String} {more : List String} : IsValue t s →
      Sequence IsMore ts more → IsValues (t :: ts) (s :: more)

theorem IsCommand.parts {ts : List Token} {c : CommandClause} (h : IsCommand ts c) :
    ∃ vs ks, ts = .name c.verb :: (vs ++ ks) ∧ IsValues vs c.values ∧
      Sequence IsKeyword ks c.keywords := by
  cases h with
  | names v a b hm hk => exact ⟨_, _, rfl, .cons (.name a) (.cons (.comma (.name b)) hm), hk⟩
  | values v ht _ hm hk => exact ⟨_, _, rfl, .cons ht hm, hk⟩
  | keywords v n hf hk => exact ⟨[], _, rfl, .nil, .cons hf hk⟩
  | raw v w text =>
    exact ⟨[], [.raw w, .line text], rfl, .nil, .cons (IsKeyword.raw w text) .nil⟩
  | verb v => exact ⟨[], [], rfl, .nil, .nil⟩

/-! ## Single tokens -/

section
variable {t : Token} {ts rest : List Token} {s : String}

theorem parse_name : name.parse ts = some (s, rest) ↔ ts = .name s :: rest := by
  cases ts with
  | nil => simp [name, parse]
  | cons t ts => cases t <;> simp [name, parse]

theorem parse_value : value.parse ts = some (s, rest) ↔ ∃ t, IsValue t s ∧ ts = t :: rest := by
  constructor
  · intro h
    cases ts with
    | nil => simp [value, parse] at h
    | cons t ts =>
      cases t <;> simp only [value, parse, Option.map_some, Option.map_none, Option.some.injEq,
        Prod.mk.injEq, reduceCtorEq] at h <;> obtain ⟨rfl, rfl⟩ := h
      · exact ⟨_, .name _, rfl⟩
      · exact ⟨_, .value _, rfl⟩
      · exact ⟨_, .quoted _, rfl⟩
  · intro he
    obtain ⟨t, ht, rfl⟩ := he
    cases ht <;> rfl

theorem parse_bareValue : bareValue.parse ts = some (s, rest) ↔ ts = .value s :: rest := by
  cases ts with
  | nil => simp [bareValue, parse]
  | cons t ts => cases t <;> simp [bareValue, parse]

theorem parse_quoted : quoted.parse ts = some (s, rest) ↔ ts = .quoted s :: rest := by
  cases ts with
  | nil => simp [quoted, parse]
  | cons t ts => cases t <;> simp [quoted, parse]

theorem parse_line : line.parse ts = some (s, rest) ↔ ts = .line s :: rest := by
  cases ts with
  | nil => simp [line, parse]
  | cons t ts => cases t <;> simp [line, parse]

theorem parse_raw {u : Unit} : raw.parse ts = some (u, rest) ↔ ∃ w, ts = .raw w :: rest := by
  cases ts with
  | nil => simp [raw, parse]
  | cons t ts => cases t <;> simp [raw, parse]

theorem parse_delimiter {d : Delimiter} {u : Unit} :
    (asUnit (equal (.delimiter d))).parse ts = some (u, rest) ↔ ts = .delimiter d :: rest := by
  cases ts with
  | nil => simp [asUnit, equal, parse]
  | cons t ts =>
    by_cases h : t = .delimiter d
    · subst h; simp [asUnit, equal, parse]
    · simp [asUnit, equal, parse, h]

end

/-! ## Keywords -/

def EndsKeyword (ts : List Token) : Prop :=
  ∀ t ∈ ts.head?, t ≠ .delimiter .equals ∧ t ≠ .delimiter .comma

theorem endsKeyword_nil : EndsKeyword [] := by
  simp [EndsKeyword]

theorem IsKeyword.ends {first : List Token} {c : KeywordClause} (h : IsKeyword first c)
    (rest : List Token) : EndsKeyword (first ++ rest) := by
  cases h <;> simp [EndsKeyword]

theorem IsNext.ends {first : List Token} {c : KeywordClause} (h : IsNext first c)
    (rest : List Token) : EndsKeyword (first ++ rest) := by
  cases h; simp [EndsKeyword]

section
variable {ts rest : List Token}

theorem parse_more {s : String} : (preceded comma value).parse ts = some (s, rest) ↔
    ∃ piece, ts = piece ++ rest ∧ IsMore piece s := by
  rw [parse_preceded]
  constructor
  · intro h
    obtain ⟨mid, hc, hv⟩ := h
    obtain rfl := parse_delimiter.mp hc
    obtain ⟨t, ht, rfl⟩ := parse_value.mp hv
    exact ⟨_, rfl, .comma ht⟩
  · intro h
    obtain ⟨_, rfl, ⟨ht⟩⟩ := h
    exact ⟨_, parse_delimiter.mpr rfl, parse_value.mpr ⟨_, ht, rfl⟩⟩

theorem parse_moreValues {front : List Token} {more : List String} (h : Sequence IsMore front more)
    (hrest : ∀ t ∈ rest.head?, t ≠ .delimiter .comma) :
    moreValues.parse (front ++ rest) = some (more, rest) := by
  refine parse_many_of_sequence (fun _ => True) (fun hp _ => ⟨?_, ?_⟩) (fun _ _ => trivial) trivial ?_ h
  · cases hp; simp
  · exact parse_more.mpr ⟨_, rfl, hp⟩
  · rw [Option.eq_none_iff_forall_ne_some]
    rintro ⟨s, rest'⟩ hp
    obtain ⟨_, rfl, ⟨_⟩⟩ := parse_more.mp hp
    exact hrest _ rfl rfl

theorem parse_values {vs : List String} (h : values.parse ts = some (vs, rest)) :
    ∃ t s front more, ts = .delimiter .equals :: t :: (front ++ rest) ∧ vs = s :: more ∧
      IsValue t s ∧ Sequence IsMore front more := by
  rw [values, parse_inContext, parse_preceded] at h
  obtain ⟨mid, he, h⟩ := h
  obtain rfl := parse_delimiter.mp he
  obtain ⟨⟨s, more⟩, hp, rfl⟩ := parse_map.mp h
  obtain ⟨mid, hv, hm⟩ := parse_seq.mp hp
  obtain ⟨t, ht, rfl⟩ := parse_value.mp hv
  obtain ⟨front, rfl, hfront⟩ := sequence_of_parse_many (fun _ _ _ => parse_more.mp) hm
  exact ⟨t, s, front, more, rfl, rfl, ht, hfront⟩

theorem parse_values_of_more {t : Token} {s : String} {front : List Token} {more : List String}
    (ht : IsValue t s) (h : Sequence IsMore front more) (hrest : EndsKeyword rest) :
    values.parse (.delimiter .equals :: t :: (front ++ rest)) = some (s :: more, rest) := by
  have hmore := parse_moreValues h fun t ht => (hrest t ht).2
  rw [values, parse_inContext, parse_preceded]
  exact ⟨_, parse_delimiter.mpr rfl, parse_map.mpr
    ⟨(s, more), parse_seq.mpr ⟨_, parse_value.mpr ⟨t, ht, rfl⟩, hmore⟩, rfl⟩⟩

theorem parse_values_eq_none (h : EndsKeyword ts) : values.parse ts = none := by
  rw [Option.eq_none_iff_forall_ne_some]
  rintro ⟨vs, rest⟩ hp
  obtain ⟨_, _, _, _, rfl, _⟩ := parse_values hp
  exact (h _ rfl).1 rfl

theorem isKeyword_of_parse {c : KeywordClause} (h : keyword.parse ts = some (c, rest)) :
    ∃ first, ts = first ++ rest ∧ IsKeyword first c := by
  rw [keyword, parse_inContext] at h
  obtain ⟨p, hp, h⟩ := parse_choice_mem h
  simp only [List.mem_cons, List.not_mem_nil, or_false] at hp
  rcases hp with rfl | rfl | rfl
  · obtain ⟨⟨_, text⟩, hp, rfl⟩ := parse_map.mp h
    obtain ⟨mid, hr, hl⟩ := parse_seq.mp hp
    obtain ⟨w, rfl⟩ := parse_raw.mp hr
    obtain rfl := parse_line.mp hl
    exact ⟨_, rfl, .raw w text⟩
  · obtain ⟨⟨n, vs⟩, hp, rfl⟩ := parse_map.mp h
    obtain ⟨mid, hn, hv⟩ := parse_seq.mp hp
    obtain rfl := parse_name.mp hn
    obtain ⟨t, s, front, more, rfl, rfl, ht, hm⟩ := parse_values hv
    exact ⟨_, rfl, .valued n ht hm⟩
  · obtain ⟨n, hp, rfl⟩ := parse_map.mp h
    obtain rfl := parse_name.mp hp
    exact ⟨_, rfl, .bare n⟩

theorem parse_keyword {first : List Token} {c : KeywordClause} (h : IsKeyword first c)
    (hrest : EndsKeyword rest) : keyword.parse (first ++ rest) = some (c, rest) := by
  rw [keyword, parse_inContext, parse_choice]
  cases h with
  | raw w text => rfl
  | bare n =>
    simp [List.findSome?_cons, parse, tuple2, raw, name, parse_values_eq_none hrest]
  | valued n ht hm =>
    simp [List.findSome?_cons, parse, tuple2, raw, name, parse_values_of_more ht hm hrest]

theorem parse_keywords {front : List Token} {cs : List KeywordClause}
    (h : Sequence IsKeyword front cs) : keywords.parse front = some (cs, []) := by
  have hmany := parse_many_of_sequence EndsKeyword
    (fun hk hf => ⟨by cases hk <;> simp, parse_keyword hk hf⟩) (fun rest hk => hk.ends rest)
    endsKeyword_nil rfl h
  rwa [List.append_nil] at hmany

theorem isKeywords_of_parse {cs : List KeywordClause} (h : keywords.parse ts = some (cs, rest)) :
    ∃ front, ts = front ++ rest ∧ Sequence IsKeyword front cs :=
  sequence_of_parse_many (fun _ _ _ => isKeyword_of_parse) h

end

theorem sequence_ends {us : List Token} {cs : List KeywordClause} (h : Sequence IsKeyword us cs) :
    EndsKeyword us := by
  cases h with
  | nil => exact endsKeyword_nil
  | cons hk _ => exact hk.ends _

/-! ## Replies -/

theorem parse_next {ts rest : List Token} {c : KeywordClause}
    (h : (preceded semicolon keyword).parse ts = some (c, rest)) :
    ∃ first, ts = first ++ rest ∧ IsNext first c := by
  obtain ⟨mid, hs, hk⟩ := parse_preceded.mp h
  obtain rfl := parse_delimiter.mp hs
  obtain ⟨first, rfl, hfirst⟩ := isKeyword_of_parse hk
  exact ⟨_, rfl, .semicolon hfirst⟩

/-- A separator takes a token, so the rounds that are allowed never run out. -/
theorem length_of_parse_semicolon (ts : List Token) (u : Unit) (rest : List Token)
    (h : semicolon.parse ts = some (u, rest)) : rest.length < ts.length := by
  obtain rfl := parse_delimiter.mp h
  simp

theorem isReplyBody_of_parse {ts rest : List Token} {cs : List KeywordClause}
    (h : (sepBy keyword semicolon).parse ts = some (cs, rest)) :
    ∃ front, ts = front ++ rest ∧ IsReplyBody front cs := by
  rw [parse_sepBy_eq _ length_of_parse_semicolon] at h
  cases hk : keyword.parse ts with
  | none => rw [hk] at h; cases h; exact ⟨[], rfl, .nil⟩
  | some r =>
    obtain ⟨c, mid⟩ := r
    simp only [hk, Option.map_eq_some_iff, Prod.exists, Prod.mk.injEq] at h
    obtain ⟨cs, _, h, rfl, rfl⟩ := h
    obtain ⟨first, rfl, hfirst⟩ := isKeyword_of_parse hk
    obtain ⟨front, rfl, hfront⟩ := sequence_of_parse_many (fun _ _ _ => parse_next) h
    exact ⟨first ++ front, by rw [List.append_assoc], .cons hfirst hfront⟩

theorem parse_of_isNext {first rest : List Token} {c : KeywordClause} (h : IsNext first c)
    (hrest : EndsKeyword rest) :
    first ≠ [] ∧ (preceded semicolon keyword).parse (first ++ rest) = some (c, rest) := by
  cases h with
  | semicolon hk =>
    exact ⟨by simp, parse_preceded.mpr ⟨_, parse_delimiter.mpr rfl, parse_keyword hk hrest⟩⟩

theorem parse_replyBody {ts rest : List Token} {cs : List KeywordClause} :
    replyBody.parse ts = some (cs, rest) ↔ IsReplyBody ts cs ∧ rest = [] := by
  rw [replyBody, parse_inContext, parse_allConsuming]
  refine and_congr_left fun _ => ?_
  constructor
  · intro h
    obtain ⟨front, rfl, hfront⟩ := isReplyBody_of_parse h
    rwa [List.append_nil]
  · intro h
    rw [parse_sepBy_eq _ length_of_parse_semicolon]
    cases h with
    | nil => rfl
    | @cons first ts c cs hfirst hts =>
      have hends : EndsKeyword ts := by
        cases hts with
        | nil => exact endsKeyword_nil
        | cons hn _ => exact hn.ends _
      have hmany := parse_many_of_sequence EndsKeyword parse_of_isNext (fun rest hn => hn.ends rest)
        endsKeyword_nil rfl hts
      rw [List.append_nil] at hmany
      rw [parse_keyword hfirst hends]
      simp [hmany]

/-! ## Commands -/

section
variable {ts rest : List Token} {v : String}

theorem parse_verbWithValues {vs : List String} (h : verbWithValues.parse ts = some ((v, vs), rest)) :
    (∃ a b front more, ts = .name v :: .name a :: .delimiter .comma :: .name b :: (front ++ rest) ∧
      vs = a :: b :: more ∧ Sequence IsMore front more) ∨
    (∃ t s front more, ts = .name v :: t :: (front ++ rest) ∧ vs = s :: more ∧ IsValue t s ∧
      (∀ w, t ≠ .name w) ∧ Sequence IsMore front more) := by
  obtain ⟨⟨⟨_, head⟩, more⟩, hall, he⟩ := parse_map.mp h
  cases he
  obtain ⟨mid, hhead, hmore⟩ := parse_seq.mp hall
  obtain ⟨front, rfl, hfront⟩ := sequence_of_parse_many (fun _ _ _ => parse_more.mp) hmore
  obtain ⟨p, hp, halt⟩ := parse_choice_mem hhead
  simp only [List.mem_cons, List.not_mem_nil, or_false] at hp
  rcases hp with rfl | rfl | rfl
  · obtain ⟨⟨_, a, _, b⟩, hfour, he⟩ := parse_map.mp halt
    cases he
    obtain ⟨_, hv, hthree⟩ := parse_seq.mp hfour
    obtain ⟨_, ha, htwo⟩ := parse_seq.mp hthree
    obtain ⟨_, hc, hb⟩ := parse_seq.mp htwo
    obtain rfl := parse_name.mp hv
    obtain rfl := parse_name.mp ha
    obtain rfl := parse_delimiter.mp hc
    obtain rfl := parse_name.mp hb
    exact .inl ⟨a, b, front, more, rfl, rfl, hfront⟩
  · obtain ⟨⟨_, s⟩, htwo, he⟩ := parse_map.mp halt
    cases he
    obtain ⟨_, hv, hs⟩ := parse_seq.mp htwo
    obtain rfl := parse_name.mp hv
    obtain rfl := parse_bareValue.mp hs
    exact .inr ⟨_, s, front, more, rfl, rfl, .value s, by simp, hfront⟩
  · obtain ⟨⟨_, s⟩, htwo, he⟩ := parse_map.mp halt
    cases he
    obtain ⟨_, hv, hs⟩ := parse_seq.mp htwo
    obtain rfl := parse_name.mp hv
    obtain rfl := parse_quoted.mp hs
    exact .inr ⟨_, s, front, more, rfl, rfl, .quoted s, by simp, hfront⟩

theorem parse_verbWithValues_name {n : String} (h : ∀ t ∈ rest.head?, t ≠ .delimiter .comma) :
    verbWithValues.parse (.name v :: .name n :: rest) = none := by
  rw [Option.eq_none_iff_forall_ne_some]
  rintro ⟨⟨v', vs⟩, rest'⟩ hp
  rcases parse_verbWithValues hp with ⟨a, b, front, more, he, _⟩ | ⟨t, s, front, more, he, _, _, ht, _⟩
  · simp only [List.cons.injEq] at he
    obtain ⟨_, _, rfl⟩ := he
    exact h _ rfl rfl
  · simp only [List.cons.injEq] at he
    exact ht n he.2.1.symm

theorem isCommand_of_parse {c : CommandClause} (h : command.parse ts = some (c, rest)) :
    IsCommand ts c := by
  rw [command, parse_inContext] at h
  obtain ⟨p, hp, h⟩ := parse_choice_mem h
  simp only [List.mem_cons, List.not_mem_nil, or_false] at hp
  -- one form of command for each alternative, in the order in which they are tried
  rcases hp with rfl | rfl | rfl | rfl | rfl <;> have h := (parse_allConsuming.mp h).1
  · obtain ⟨⟨⟨v, vs⟩, cs⟩, hp, rfl⟩ := parse_map.mp h
    obtain ⟨_, hv, hk⟩ := parse_seq.mp hp
    obtain ⟨us, rfl, hus⟩ := isKeywords_of_parse hk
    rw [List.append_nil] at hv
    rcases parse_verbWithValues hv with
      ⟨a, b, front, more, rfl, rfl, hm⟩ | ⟨t, s, front, more, rfl, rfl, ht, hne, hm⟩
    · exact .names v a b hm hus
    · exact .values v ht hne hm hus
  · obtain ⟨⟨v, n, vs, cs⟩, hp, rfl⟩ := parse_map.mp h
    obtain ⟨_, hv, hp⟩ := parse_seq.mp hp
    obtain ⟨_, hn, hp⟩ := parse_seq.mp hp
    obtain ⟨_, hvs, hk⟩ := parse_seq.mp hp
    obtain rfl := parse_name.mp hv
    obtain rfl := parse_name.mp hn
    obtain ⟨t, s, front, more, rfl, rfl, ht, hm⟩ := parse_values hvs
    obtain ⟨us, rfl, hus⟩ := isKeywords_of_parse hk
    rw [List.append_nil]
    exact .keywords v n (.valued n ht hm) hus
  · obtain ⟨⟨v, _, text⟩, hp, rfl⟩ := parse_map.mp h
    obtain ⟨_, hv, hp⟩ := parse_seq.mp hp
    obtain ⟨_, hr, hl⟩ := parse_seq.mp hp
    obtain rfl := parse_name.mp hv
    obtain ⟨w, rfl⟩ := parse_raw.mp hr
    obtain rfl := parse_line.mp hl
    exact .raw v w text
  · obtain ⟨⟨v, n, cs⟩, hp, rfl⟩ := parse_map.mp h
    obtain ⟨_, hv, hp⟩ := parse_seq.mp hp
    obtain ⟨_, hn, hk⟩ := parse_seq.mp hp
    obtain rfl := parse_name.mp hv
    obtain rfl := parse_name.mp hn
    obtain ⟨us, rfl, hus⟩ := isKeywords_of_parse hk
    rw [List.append_nil]
    exact .keywords v n (.bare n) hus
  · obtain ⟨v, hp, rfl⟩ := parse_map.mp h
    obtain rfl := parse_name.mp hp
    exact .verb v

theorem parse_of_isCommand {c : CommandClause} (h : IsCommand ts c) :
    command.parse ts = some (c, []) := by
  rw [command, parse_inContext, parse_choice]
  -- the alternatives in front of the one that reads the command fail
  cases h with
  | @names v a b front us more cs hm hus =>
    have hmore := parse_moreValues hm fun t ht => (sequence_ends hus t ht).2
    simp [verbWithValues, choice, parse, tuple2, tuple4, name, comma, asUnit,
      equal, hmore, parse_keywords hus]
  | @values v t s front us more cs ht hne hm hus =>
    have hmore := parse_moreValues hm fun t ht => (sequence_ends hus t ht).2
    cases ht with
    | name => exact absurd rfl (hne _)
    | value | quoted =>
      simp [verbWithValues, choice, parse, tuple2, tuple4, name, bareValue,
        quoted, hmore, parse_keywords hus]
  | @keywords v n first us values cs hk hus =>
    have hends := sequence_ends hus
    cases hk with
    | bare =>
      have hverb := parse_verbWithValues_name (v := v) (n := n) fun t ht => (hends t ht).2
      simp [parse, tuple2, tuple3, tuple4, name, raw, hverb,
        parse_values_eq_none hends, parse_keywords hus]
    | @valued _ t ts s more ht hm =>
      have hverb := @parse_verbWithValues_name (.delimiter .equals :: t :: (ts ++ us)) v n (by simp)
      simp [parse, tuple2, tuple4, name, hverb,
        parse_values_of_more ht hm hends, parse_keywords hus]
  | raw v w text => rfl
  | verb v => rfl

end

/-! ## Runs on whole bodies -/

theorem run_replyBody_iff {ts : List Token} {cs : List KeywordClause} :
    (∃ stop, Parser.run ts replyBody 0 = .ok (stop, cs)) ↔ IsReplyBody ts cs := by
  rw [exists_run_iff]
  simp [parse_replyBody]

theorem run_command_iff {ts : List Token} {c : CommandClause} :
    (∃ stop, Parser.run ts command 0 = .ok (stop, c)) ↔ IsCommand ts c := by
  rw [exists_run_iff]
  exact ⟨fun ⟨_, h⟩ => isCommand_of_parse h, fun h => ⟨[], parse_of_isCommand h⟩⟩

end ActorHub.Clause
