import ActorHub.Proofs.Line.Equality

/-!
# Shapes of messages

The tokenized form of a message spells its shape: how many values it has, and for each keyword whether
it is a raw line or how many values it has. Every part of the shape is spelled without the separator of
its message, and parts of different shape are spelled differently, so the shape can be read back from
the flat text.
-/

namespace ActorHub

theorem intercalate_inj {c : Char} {xs ys : List (List Char)} (hxs : ∀ x ∈ xs, x ≠ [] ∧ c ∉ x)
    (hys : ∀ y ∈ ys, y ≠ [] ∧ c ∉ y) (h : [c].intercalate xs = [c].intercalate ys) : xs = ys := by
  have hnil : ∀ {zs : List (List Char)}, (∀ z ∈ zs, z ≠ [] ∧ c ∉ z) → [c].intercalate zs = [] →
      zs = [] := by
    intro zs hzs hempty
    cases zs with
    | nil => rfl
    | cons z zs =>
      have hz := (hzs z (by simp)).1
      cases zs <;> simp_all [List.intercalate]
  by_cases hx : xs = []
  · subst hx
    exact (hnil hys h.symm).symm
  · by_cases hy : ys = []
    · subst hy
      exact hnil hxs h
    · rw [← List.splitOn_intercalate c (fun x hm => (hxs x hm).2) hx, h,
        List.splitOn_intercalate c (fun y hm => (hys y hm).2) hy]

theorem map_toList_inj {xs ys : List String} (h : xs.map String.toList = ys.map String.toList) : xs = ys :=
  List.map_injective_iff.mpr (fun _ _ => String.toList_inj.mp) h

/-! ## Values -/

namespace Values

def placeholders (n : Nat) : String :=
  ",".intercalate (List.replicate n "123")

theorem tokenized_eq (vs : Values) : tokenized vs = placeholders vs.length := by
  rw [tokenized, placeholders, List.map_const']

theorem placeholders_succ (n : Nat) : (placeholders (n + 2)).toList =
    '1' :: '2' :: '3' :: ',' :: (placeholders (n + 1)).toList := by
  simp [placeholders, List.replicate_succ]

theorem head_placeholders (n : Nat) : (placeholders (n + 1)).toList.head? = some '1' := by
  cases n with
  | zero => rfl
  | succ n => rw [placeholders_succ]; rfl

theorem length_placeholders (n : Nat) : (placeholders (n + 1)).toList.length = 4 * n + 3 := by
  induction n with
  | zero => rfl
  | succ n ih =>
    rw [placeholders_succ]
    simp only [List.length_cons, ih]
    omega

theorem separator_not_mem_placeholders {c : Char} (hc : c = ';' ∨ c = ' ') (n : Nat) :
    c ∉ (placeholders n).toList := by
  match n with
  | 0 => exact List.not_mem_nil
  | n + 1 =>
    induction n with
    | zero => rcases hc with rfl | rfl <;> decide
    | succ n ih =>
      rw [placeholders_succ]
      rcases hc with rfl | rfl <;> simpa using ih

theorem placeholders_inj {m n : Nat} (h : placeholders (m + 1) = placeholders (n + 1)) : m = n := by
  have hlength := congrArg (fun t => t.toList.length) h
  simp only [length_placeholders] at hlength
  omega

end Values

/-! ## Keywords -/

/-- A raw line, or a number of values behind a name. -/
inductive KeywordShape where
  | raw
  | named (count : Nat)
deriving DecidableEq, Repr

namespace KeywordShape

def form : KeywordShape → String
  | .raw => "RAW=LINE"
  | .named 0 => "KEY"
  | .named (n + 1) => "KEY=" ++ Values.placeholders (n + 1)

theorem separator_not_mem_form {c : Char} (hc : c = ';' ∨ c = ' ') (s : KeywordShape) :
    c ∉ s.form.toList := by
  match s with
  | .raw => rcases hc with rfl | rfl <;> decide
  | .named 0 => rcases hc with rfl | rfl <;> decide
  | .named (n + 1) =>
    rw [form, String.toList_append, List.mem_append, not_or]
    refine ⟨?_, Values.separator_not_mem_placeholders hc (n + 1)⟩
    rcases hc with rfl | rfl <;> decide

theorem length_form (s : KeywordShape) : s.form.toList.length =
    match s with
    | .raw => 8
    | .named n => 4 * n + 3 := by
  match s with
  | .raw => rfl
  | .named 0 => rfl
  | .named (n + 1) =>
    have hkey : "KEY=".toList.length = 4 := rfl
    rw [form, String.toList_append, List.length_append, Values.length_placeholders, hkey]
    show 4 + (4 * n + 3) = 4 * (n + 1) + 3
    omega

/-- Shapes are told apart by the length of their forms. -/
theorem form_inj {s t : KeywordShape} (h : s.form = t.form) : s = t := by
  have hlength := congrArg (fun f => f.toList.length) h
  simp only [length_form] at hlength
  cases s with
  | raw =>
    cases t with
    | raw => rfl
    | named n => simp only at hlength; omega
  | named m =>
    cases t with
    | raw => simp only at hlength; omega
    | named n =>
      have : m = n := by simp only at hlength; omega
      rw [this]

theorem form_ne_nil (s : KeywordShape) : s.form.toList ≠ [] := by
  intro hempty
  have hlength := s.length_form
  rw [hempty] at hlength
  cases s <;> simp at hlength

end KeywordShape

def Keyword.shape (k : Keyword) : KeywordShape :=
  match k.kind with
  | .raw => .raw
  | .named _ => .named k.values.length

theorem Keyword.shape_of_isRaw_eq_false {k : Keyword} (h : k.isRaw = false) :
    k.shape = .named k.values.length := by
  obtain ⟨kind, values, matched⟩ := k
  cases kind with
  | raw => cases h
  | named => rfl

theorem Keyword.tokenized_eq (k : Keyword) : k.tokenized = k.shape.form := by
  obtain ⟨kind, values, matched⟩ := k
  cases kind with
  | raw => rfl
  | named =>
    cases values with
    | nil => rfl
    | cons v vs => simp only [tokenized, Values.tokenized_eq]; rfl

namespace Keywords

def shapes (ks : Keywords) : List KeywordShape :=
  ks.map Keyword.shape

theorem map_tokenized (ks : Keywords) : ks.map Keyword.tokenized = ks.shapes.map KeywordShape.form := by
  rw [shapes, List.map_map]
  exact List.map_congr_left fun k _ => k.tokenized_eq

theorem forms_inj {ks ls : Keywords} (h : ks.map Keyword.tokenized = ls.map Keyword.tokenized) :
    ks.shapes = ls.shapes := by
  rw [map_tokenized, map_tokenized] at h
  exact List.map_injective_iff.mpr (fun _ _ => KeywordShape.form_inj) h

theorem tokenized_of_shapes {ks ls : Keywords} (h : ks.shapes = ls.shapes) (separator : String) :
    tokenized ks separator = tokenized ls separator := by
  rw [tokenized, tokenized, map_tokenized, map_tokenized, h]

theorem separator_not_mem_forms {c : Char} (hc : c = ';' ∨ c = ' ') (ks : Keywords) :
    ∀ x ∈ (ks.map Keyword.tokenized).map String.toList, x ≠ [] ∧ c ∉ x := by
  rw [map_tokenized, List.map_map]
  intro x hx
  obtain ⟨s, -, rfl⟩ := List.mem_map.mp hx
  exact ⟨s.form_ne_nil, s.separator_not_mem_form hc⟩

end Keywords

/-! ## Replies -/

theorem MessageCode.char_inj {a b : MessageCode} (h : a.char = b.char) : a = b := by
  cases a <;> cases b <;> first | rfl | exact absurd h (by decide)

namespace Reply

theorem tokenized_eq_iff {r s : Reply} : r.tokenized = s.tokenized ↔
    r.header.code = s.header.code ∧ r.keywords.shapes = s.keywords.shapes := by
  constructor
  · intro h
    have hchars := congrArg String.toList h
    unfold tokenized ReplyHeader.tokenized MessageCode.text at hchars
    rw [String.toList_append, String.toList_append, String.toList_append, String.toList_append,
      String.toList_append, String.toList_append, String.toList_singleton, String.toList_singleton,
      List.append_assoc, List.append_assoc, List.append_assoc, List.append_assoc, List.singleton_append,
      List.singleton_append] at hchars
    obtain ⟨hcode, hrest⟩ := List.cons.inj (List.append_cancel_left hchars)
    refine ⟨MessageCode.char_inj hcode, Keywords.forms_inj (map_toList_inj ?_)⟩
    have hkeywords := List.append_cancel_left hrest
    rw [Keywords.tokenized, Keywords.tokenized, String.toList_intercalate, String.toList_intercalate]
      at hkeywords
    exact intercalate_inj (Keywords.separator_not_mem_forms (.inl rfl) _)
      (Keywords.separator_not_mem_forms (.inl rfl) _) hkeywords
  · intro h
    unfold tokenized ReplyHeader.tokenized
    rw [h.1, Keywords.tokenized_of_shapes h.2]

theorem shapes_of_read {text : String} {r : Reply} (h : read text = .ok r) :
    r.keywords.shapes = (r.keywords.map (·.values.length)).map .named := by
  rw [Keywords.shapes, List.map_map]
  exact List.map_congr_left fun k hk =>
    Keyword.shape_of_isRaw_eq_false (isRaw_eq_false ((grammatical_of_read h).keywords k hk))

end Reply

/-! ## Commands -/

namespace Command

def forms (c : Command) : List String :=
  "VERB" :: ((if c.values.isEmpty then [] else [Values.tokenized c.values]) ++
    c.keywords.map Keyword.tokenized)

theorem tokenized_eq (c : Command) : c.tokenized = " ".intercalate c.forms := by
  have hjoin : ∀ (t : String) (ks : Keywords), " ".intercalate (t :: ks.map Keyword.tokenized) =
      t ++ if ks.isEmpty then "" else " " ++ Keywords.tokenized ks " " := by
    intro t ks
    cases ks with
    | nil => simp
    | cons k ks => simp [Keywords.tokenized, String.append_assoc]
  rw [tokenized, forms]
  split
  · rw [List.nil_append, hjoin, String.append_empty]
  · rw [List.singleton_append, String.intercalate_cons_cons, hjoin]
    simp only [String.append_assoc]

theorem separator_not_mem_forms (c : Command) : ∀ x ∈ c.forms.map String.toList, x ≠ [] ∧ ' ' ∉ x := by
  rw [forms, List.map_cons, List.map_append]
  refine List.forall_mem_cons.mpr ⟨by decide, List.forall_mem_append.mpr ⟨?_, ?_⟩⟩
  · cases hv : c.values with
    | nil => simp
    | cons v vs =>
      have hhead := Values.head_placeholders vs.length
      simp only [List.isEmpty_cons, Bool.false_eq_true, if_false, List.map_cons, List.map_nil,
        List.forall_mem_singleton, Values.tokenized_eq, List.length_cons]
      refine ⟨?_, Values.separator_not_mem_placeholders (.inr rfl) _⟩
      intro hempty
      rw [hempty] at hhead
      cases hhead
  · exact Keywords.separator_not_mem_forms (.inr rfl) _

theorem head_tokenized (k : Keyword) : k.tokenized.toList.head? ≠ some '1' := by
  rw [k.tokenized_eq]
  match k.shape with
  | .raw => decide
  | .named 0 => decide
  | .named (n + 1) => simp [KeywordShape.form]

theorem forms_inj {c d : Command} (h : c.forms = d.forms) :
    c.values.length = d.values.length ∧ c.keywords.shapes = d.keywords.shapes := by
  have hvalue : ∀ (v : Value) (vs : Values) (ks ls : Keywords),
      ks.map Keyword.tokenized ≠ Values.tokenized (v :: vs) :: ls.map Keyword.tokenized := by
    intro v vs ks ls e
    cases ks with
    | nil => cases e
    | cons k ks =>
      have hhead := congrArg (fun t => t.toList.head?) (List.cons.inj e).1
      simp only [Values.tokenized_eq, List.length_cons, Values.head_placeholders] at hhead
      exact head_tokenized k hhead
  have htail := (List.cons.inj h).2
  cases hv : c.values with
  | nil =>
    cases hw : d.values with
    | nil =>
      simp only [hv, hw] at htail
      exact ⟨rfl, Keywords.forms_inj htail⟩
    | cons w ws =>
      simp only [hv, hw] at htail
      exact absurd htail (hvalue w ws _ _)
  | cons v vs =>
    cases hw : d.values with
    | nil =>
      simp only [hv, hw] at htail
      exact absurd htail.symm (hvalue v vs _ _)
    | cons w ws =>
      simp only [hv, hw] at htail
      obtain ⟨hvalues, hrest⟩ := List.cons.inj htail
      rw [Values.tokenized_eq, Values.tokenized_eq] at hvalues
      rw [List.length_cons, List.length_cons, Values.placeholders_inj hvalues]
      exact ⟨rfl, Keywords.forms_inj hrest⟩

theorem tokenized_eq_iff {c d : Command} : c.tokenized = d.tokenized ↔
    c.values.length = d.values.length ∧ c.keywords.shapes = d.keywords.shapes := by
  constructor
  · intro h
    rw [tokenized_eq, tokenized_eq] at h
    have hchars := congrArg String.toList h
    rw [String.toList_intercalate, String.toList_intercalate] at hchars
    have hforms := intercalate_inj c.separator_not_mem_forms d.separator_not_mem_forms hchars
    exact forms_inj (map_toList_inj hforms)
  · intro h
    have hvalues : c.values.isEmpty = d.values.isEmpty := by
      rw [Bool.eq_iff_iff, List.isEmpty_iff_length_eq_zero, List.isEmpty_iff_length_eq_zero, h.1]
    have hkeywords : c.keywords.isEmpty = d.keywords.isEmpty := by
      have := congrArg List.isEmpty h.2
      rwa [Keywords.shapes, Keywords.shapes, List.isEmpty_map, List.isEmpty_map] at this
    unfold tokenized
    rw [hvalues, hkeywords, Values.tokenized_eq, Values.tokenized_eq, h.1,
      Keywords.tokenized_of_shapes h.2]

end Command

/-- The tokenized form of a reply that was read shows its code and how many values each keyword has, and
that of a command how many values it has and the shape of each keyword, and they show nothing else. -/
theorem same_form_iff_same_shape :
    (∀ {a b : String} {r s : Reply}, Reply.read a = .ok r → Reply.read b = .ok s →
      (r.tokenized = s.tokenized ↔ r.header.code = s.header.code ∧
        r.keywords.map (·.values.length) = s.keywords.map (·.values.length))) ∧
    ∀ {a b : String} {c d : Command}, Command.read a = .ok c → Command.read b = .ok d →
      (c.tokenized = d.tokenized ↔ c.values.length = d.values.length ∧
        c.keywords.map Keyword.shape = d.keywords.map Keyword.shape) := by
  refine ⟨?_, fun _ _ => Command.tokenized_eq_iff⟩
  intro a b r s hr hs
  have hnamed : Function.Injective KeywordShape.named := fun m n e => KeywordShape.named.inj e
  rw [Reply.tokenized_eq_iff, Reply.shapes_of_read hr, Reply.shapes_of_read hs,
    (List.map_injective_iff.mpr hnamed).eq_iff]

theorem same_form_iff_same_shape_lists :
    (∃ r s, Reply.read "a.b 1 act i X='p, q', 5;done" = .ok r ∧
      Reply.read "hub.x.y 7 log I z=1;t=\"2,3\"" = .ok s ∧
      r.tokenized ≠ s.tokenized) ∧
    ∃ c d, Command.read "Move 1,'a b' Rate raw= x=\"y" = .ok c ∧
      Command.read "turn  1 ,-2.5 speed RAW = on\n" = .ok d ∧ c.tokenized = d.tokenized := by
  obtain ⟨r, hr, hrc⟩ : ∃ r, Reply.read "a.b 1 act i X='p, q', 5;done" = .ok r ∧
      r.keywords.map (·.values.length) = [2, 0] := exists_of_toOption_map (by decide +kernel)
  obtain ⟨s, hs, hsc⟩ : ∃ s, Reply.read "hub.x.y 7 log I z=1;t=\"2,3\"" = .ok s ∧
      s.keywords.map (·.values.length) = [1, 1] := exists_of_toOption_map (by decide +kernel)
  have hc := Command.read_of_clause "Move 1,'a b' Rate raw= x=\"y"
    ⟨"Move", ["1", "a b"], [.named "Rate" [], .raw " x=\"y"]⟩ _ (by decide +kernel) rfl
    (by decide) (by decide)
  have hd := Command.read_of_clause "turn  1 ,-2.5 speed RAW = on\n"
    ⟨"turn", ["1", "-2.5"], [.named "speed" [], .raw " on"]⟩ _ (by decide +kernel) rfl
    (by decide) (by decide)
  refine ⟨⟨r, s, hr, hs, fun e => ?_⟩, _, _, hc, hd, (same_form_iff_same_shape.2 hc hd).mpr ⟨rfl, rfl⟩⟩
  have hcounts := ((same_form_iff_same_shape.1 hr hs).mp e).2
  rw [hrc, hsc] at hcounts
  revert hcounts
  decide

end ActorHub
