import ActorHub.Key
import ActorHub.Proofs.Line.Reply
import ActorHub.Proofs.ValueShape.Plain

/-!
# Typed keywords on the wire

A keyword made by a key is put into a reply, printed, read and typed again by the key. Quotes in a text
come back with their escapes, since reading a value does not undo them; every other text arrives as it was
sent.
-/

namespace ActorHub

/-! ## Rows of values -/

namespace ValueType

variable {ts : List ValueType} {texts rest : List String} {vs : List TypedValue}

theorem length_of_takeEach (h : takeEach ts texts = some (vs, rest)) :
    vs.length = ts.length ∧ texts.length = ts.length + rest.length := by
  induction ts generalizing texts vs with
  | nil => cases h; exact ⟨rfl, by simp⟩
  | cons t ts ih =>
    obtain ⟨text, more, v, ws, rfl, -, hws, rfl⟩ := takeEach_cons_iff.mp h
    have := ih hws
    simp only [List.length_cons]
    omega

theorem takeEach_escaped_iff (ht : ∀ t ∈ ts, t.IsPlain) (h : takeEach ts texts = some (vs, rest)) :
    (∃ vs', takeEach ts (vs.map fun v => Quoted.escaped v.display) = some (vs', []) ∧
      TypedValue.equalsEach vs' vs = true) ↔ ∀ v ∈ vs, '"' ∉ v.display.toList := by
  induction ts generalizing texts vs with
  | nil =>
    cases h
    simp [TypedValue.equalsEach]
  | cons t ts ih =>
    obtain ⟨text, more, v, ws, rfl, hv, hws, rfl⟩ := takeEach_cons_iff.mp h
    rw [List.forall_mem_cons, ← accept?_escaped_iff (ht t (by simp)) hv,
      ← ih (fun u hu => ht u (by simp [hu])) hws]
    constructor
    · intro hx
      obtain ⟨us, hus, he⟩ := hx
      obtain ⟨_, _, v', ws', e, hv', hws', rfl⟩ := takeEach_cons_iff.mp hus
      cases e
      simp only [TypedValue.equalsEach, Bool.and_eq_true] at he
      exact ⟨⟨v', hv', he.1⟩, ws', hws', he.2⟩
    · intro hx
      obtain ⟨⟨v', hv', he⟩, ws', hws', he'⟩ := hx
      refine ⟨v' :: ws', takeEach_cons_iff.mpr ⟨_, _, v', ws', rfl, hv', hws', rfl⟩, ?_⟩
      rw [TypedValue.equalsEach, he, he', Bool.and_self]

end ValueType

namespace ValueShape

theorem typed?_escaped_iff {s : ValueShape} (hs : ∀ spec ∈ s.specs, spec.IsPlain) {texts : List String}
    {vs : List TypedValue} (h : s.typed? texts = some vs) :
    (∃ vs', s.typed? (vs.map fun v => Quoted.escaped v.display) = some vs' ∧
      TypedValue.equalsEach vs' vs = true) ↔ ∀ v ∈ vs, '"' ∉ v.display.toList := by
  obtain ⟨types, hslots, ht⟩ := (typed?_eq_some_iff hs).mp h
  rw [← ValueType.takeEach_escaped_iff (hslots.isPlain hs) ht]
  refine exists_congr fun vs' => and_congr_left fun _ => ?_
  constructor
  · intro h'
    obtain ⟨types', hslots', ht'⟩ := (typed?_eq_some_iff hs).mp h'
    -- both rows have one type for each value
    obtain rfl : types = types' := hslots.unique s.only_last_varies hslots' <| by
      have := ValueType.length_of_takeEach ht
      have := ValueType.length_of_takeEach ht'
      simp only [List.length_map, List.length_nil] at *
      omega
    exact ht'
  · exact fun ht' => (typed?_eq_some_iff hs).mpr ⟨types, hslots, ht'⟩

end ValueShape

/-! ## Keywords of keys -/

theorem Values.typed?_map_typed (vs : List TypedValue) : Values.typed? (vs.map .typed) = some vs := by
  induction vs with
  | nil => rfl
  | cons v vs ih =>
    rw [typed?] at ih
    rw [typed?, List.map_cons, List.mapM_cons, ih]
    rfl

namespace Key

variable {key : Key} {k : Keyword}

theorem consume_eq_some_iff {received : Keyword} : key.consume k = some received ↔
    Text.sameName k.name key.name = true ∧ ∃ vs,
      key.shape.typed? (k.values.map Value.display) = some vs ∧
      received = { k with values := vs.map .typed, matched := true } := by
  unfold consume ValueShape.consume
  by_cases h : Text.sameName k.name key.name = true
  · rw [if_pos h]
    simp only [h, true_and, Option.map_eq_some_iff]
    constructor
    · intro he
      obtain ⟨_, ⟨vs, hvs, rfl⟩, rfl⟩ := he
      exact ⟨vs, hvs, rfl⟩
    · intro he
      obtain ⟨vs, hvs, rfl⟩ := he
      exact ⟨_, ⟨vs, hvs, rfl⟩, rfl⟩
  · rw [if_neg h]
    simp [h]

theorem create_eq_ok_iff {values : Values} : key.create values = .ok k ↔
    Text.sameName key.name Keyword.reserved = false ∧ ∃ vs,
      key.shape.typed? (values.map Value.display) = some vs ∧
      k = ⟨.named key.name, vs.map .typed, true⟩ := by
  rw [create, bind_eq_ok_iff]
  simp only [mapError_eq_ok_iff, Keyword.make_eq_ok_iff]
  have hconsume : key.consume ⟨.named key.name, values, false⟩ = some k ↔ ∃ vs,
      key.shape.typed? (values.map Value.display) = some vs ∧
      k = ⟨.named key.name, vs.map .typed, true⟩ := by
    simp [consume_eq_some_iff, Keyword.name, ValueType.sameName_refl]
  rw [← hconsume]
  constructor
  · intro he
    obtain ⟨made, ⟨hr, rfl⟩, h⟩ := he
    split at h
    · rename_i k' hk'
      obtain rfl := pure_eq_ok_iff.mp h
      exact ⟨hr, hk'⟩
    · exact absurd h throw_ne_ok
  · intro he
    obtain ⟨hr, hk⟩ := he
    exact ⟨_, ⟨hr, rfl⟩, by rw [hk, pure_eq_ok_iff]⟩

theorem consume_reread_iff (hname : Lexeme.isName key.name.toList = true) {vs : List TypedValue}
    (hv : ∀ v ∈ vs, '\\' ∉ v.display.toList) {received : Keyword} :
    key.consume (Keyword.reread ⟨.named key.name, vs.map .typed, true⟩) = some received ↔
      ∃ vs', key.shape.typed? (vs.map fun v => Quoted.escaped v.display) = some vs' ∧
        received = ⟨.named (Text.lowercase key.name), vs'.map .typed, true⟩ := by
  have hsame : Text.sameName (Text.lowercase key.name) key.name = true := by
    rw [Lexeme.sameName_lowercase hname]; exact ValueType.sameName_refl _
  have htexts : ((Values.printed (vs.map .typed)).map Value.raw).map Value.display =
      vs.map fun v => Quoted.escaped v.display := by
    simp only [Values.printed, List.map_map]
    exact List.map_congr_left fun v h => Value.printed_of_not_mem (hv v h)
  rw [consume_eq_some_iff]
  simp only [Keyword.reread, Keyword.name, htexts, hsame, true_and]

/-- A keyword that a plain key made is read from every reply it is put into. The key types what is read
as what was sent, if and only if no text that was sent has a quote in it. -/
theorem created_keyword_arrives_iff {values : Values} {header : ReplyHeader} {before after : Keywords}
    (hname : Lexeme.isName key.name.toList = true)
    (hplain : ∀ s ∈ key.shape.specs, s.IsPlain) (hcreate : key.create values = .ok k)
    (htext : ∀ v ∈ k.values, '\\' ∉ v.display.toList ∧ '\n' ∉ v.display.toList)
    (hheader : header.Grammatical) (hothers : ∀ o ∈ before ++ after, o.IsClear)
    (source : Option String) :
    ∃ r' k', Reply.read (Reply.canonical ⟨header, before ++ k :: after, source⟩) = .ok r' ∧
      r'.keywords[before.length]? = some k' ∧
      ((∃ received sent arrived, key.consume k' = some received ∧ k.values.typed? = some sent ∧
        received.values.typed? = some arrived ∧ TypedValue.equalsEach arrived sent = true) ↔
          ∀ v ∈ k.values, '"' ∉ v.display.toList) := by
  obtain ⟨hr, vs, hvs, rfl⟩ := create_eq_ok_iff.mp hcreate
  have hclear : ∀ o ∈ before ++ ⟨.named key.name, vs.map .typed, true⟩ :: after, o.IsClear := by
    intro o ho
    simp only [List.mem_append, List.mem_cons] at ho hothers
    rcases ho with ho | rfl | ho
    · exact hothers o (.inl ho)
    · exact ⟨key.name, rfl, hname, hr, htext⟩
    · exact hothers o (.inr ho)
  refine ⟨_, Keyword.reread ⟨.named key.name, vs.map .typed, true⟩,
    Reply.read_canonical (Reply.grammatical_of_isClear hheader hclear)
      (Reply.settled_of_isClear hclear), ?_, ?_⟩
  · simp
  · simp only [List.forall_mem_map] at htext ⊢
    refine Iff.trans ?_ (ValueShape.typed?_escaped_iff hplain hvs)
    simp only [consume_reread_iff hname fun v h => (htext v h).1, Values.typed?_map_typed,
      Option.some.injEq]
    constructor
    · intro hx
      obtain ⟨_, _, arrived, ⟨vs', hvs', rfl⟩, rfl, harrived, he⟩ := hx
      rw [Values.typed?_map_typed] at harrived
      cases harrived
      exact ⟨_, hvs', he⟩
    · intro hx
      obtain ⟨vs', hvs', he⟩ := hx
      exact ⟨_, vs, vs', ⟨vs', hvs', rfl⟩, rfl, Values.typed?_map_typed vs', he⟩

theorem created_keyword_arrives_iff_pair : ∃ key : Key,
    key.create [.raw "0x1F", .raw "a, b=c", .raw "d;"] = .ok ⟨.named "Pair",
      [.typed (.int 31), .typed (.string "a, b=c"), .typed (.string "d;")], true⟩ ∧
    ∃ r' k', Reply.read (Reply.canonical ⟨⟨"", "hub", "", 4, "act", .information⟩,
        [⟨.named "first", [.raw "x"], false⟩, ⟨.named "Pair",
          [.typed (.int 31), .typed (.string "a, b=c"), .typed (.string "d;")], true⟩], none⟩) = .ok r' ∧
      r'.keywords[1]? = some k' ∧ ∃ received arrived, key.consume k' = some received ∧
        received.values.typed? = some arrived ∧
        TypedValue.equalsEach arrived [.int 31, .string "a, b=c", .string "d;"] = true := by
  have hplain : ∀ s ∈ [ValueSpec.single (.ofKind .int),
      .repeated ⟨.ofKind .string, 1, none, by simp⟩], s.IsPlain := by
    rw [List.forall_mem_cons, List.forall_mem_singleton]
    exact ⟨⟨_, rfl, rfl, rfl⟩, ⟨_, rfl, rfl, rfl⟩⟩
  have hcreate : create ⟨"Pair", .counted [.single (.ofKind .int),
      .repeated ⟨.ofKind .string, 1, none, by simp⟩] rfl, none, none, none, none⟩
      [.raw "0x1F", .raw "a, b=c", .raw "d;"] = .ok ⟨.named "Pair",
        [.typed (.int 31), .typed (.string "a, b=c"), .typed (.string "d;")], true⟩ := by rfl
  have hheader : ReplyHeader.Grammatical ⟨"", "hub", "", 4, "act", .information⟩ :=
    ⟨.inl rfl, by decide, by decide, by decide, by decide⟩
  have hothers : ∀ o ∈ [⟨.named "first", [.raw "x"], false⟩] ++ [], Keyword.IsClear o := by
    rw [List.append_nil, List.forall_mem_singleton]
    exact ⟨"first", rfl, by decide, by decide, by decide⟩
  obtain ⟨r', k', hr, hk, harrives⟩ :=
    created_keyword_arrives_iff (by decide) hplain hcreate (by decide) hheader hothers none
  obtain ⟨received, sent, arrived, hc, hs, ha, he⟩ := harrives.mpr (by decide)
  cases hs
  exact ⟨_, hcreate, r', k', hr, hk, received, arrived, hc, ha, he⟩

/-- A quote in a string arrives behind the backslash that it is printed with. -/
theorem escape_of_quote_arrives : ∃ (key : Key) (k : Keyword) (r' : Reply) (k' : Keyword),
    Lexeme.isName key.name.toList = true ∧ (∀ s ∈ key.shape.specs, s.IsPlain) ∧
    key.create [.raw "say \"hi\""] = .ok k ∧
    (∀ v ∈ k.values, '\\' ∉ v.display.toList ∧ '\n' ∉ v.display.toList) ∧
    Reply.read (Reply.canonical ⟨⟨"tron", "tron", "", 4, "alerts", .information⟩, [k], none⟩) =
      .ok r' ∧ r'.keywords = [k'] ∧
    ¬ ∃ received sent arrived, key.consume k' = some received ∧ k.values.typed? = some sent ∧
      received.values.typed? = some arrived ∧ TypedValue.equalsEach arrived sent = true := by
  have hheader : ReplyHeader.Grammatical ⟨"tron", "tron", "", 4, "alerts", .information⟩ :=
    ⟨.inr (by decide), by decide, by decide, by decide, by decide⟩
  have hclear : ∀ k ∈ [⟨.named "note", [.typed (.string "say \"hi\"")], true⟩], Keyword.IsClear k := by
    rw [List.forall_mem_singleton]
    exact ⟨"note", rfl, by decide, by decide, by decide⟩
  have hconsume : consume ⟨"note", .counted [.single (.ofKind .string)] rfl, none, none, none, none⟩
      (Keyword.reread ⟨.named "note", [.typed (.string "say \"hi\"")], true⟩) =
    some ⟨.named "note", [.typed (.string "say \\\"hi\\\"")], true⟩ := by rfl
  refine ⟨⟨"note", .counted [.single (.ofKind .string)] rfl, none, none, none, none⟩,
    ⟨.named "note", [.typed (.string "say \"hi\"")], true⟩, _, _, by decide, ?_, by rfl, by decide,
    Reply.read_canonical (Reply.grammatical_of_isClear hheader hclear) (Reply.settled_of_isClear hclear),
    rfl, ?_⟩
  · exact List.forall_mem_singleton.mpr ⟨_, rfl, rfl, rfl⟩
  · rw [hconsume]
    intro h
    obtain ⟨received, sent, arrived, hc, hs, ha, he⟩ := h
    cases hc
    cases hs
    cases ha
    revert he
    decide

end Key

end ActorHub
