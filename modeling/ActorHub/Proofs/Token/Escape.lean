import ActorHub.Token.Escape

/-!
# Bodies of quoted strings

`Body` holds of the texts between two quotes. Undoing the escapes of a text and writing those of
its double quotes again is how values are normalized; the outcome stands between double quotes and
reads back as itself exactly when it is settled, that is, when every backslash in it stands before
a character whose escape is kept.
-/

namespace ActorHub.Quoted

/-! ## Bodies -/

/-- No quote without a backslash, no backslash without a character behind it, and no newline. -/
inductive Body (quote : Char) : List Char → Prop
  | nil : Body quote []
  | plain {c : Char} {b : List Char} : c ≠ quote → c ≠ '\\' → c ≠ '\n' → Body quote b →
      Body quote (c :: b)
  | escaped {c : Char} {b : List Char} : c ≠ '\n' → Body quote b → Body quote ('\\' :: c :: b)

theorem close_append {quote : Char} {b : List Char} (hq : quote ≠ '\\') (h : Body quote b)
    (rest : List Char) : close quote (b ++ quote :: rest) = some (b, rest) := by
  induction h with
  | nil => rw [List.nil_append, close.eq_def]; simp
  | plain h1 h2 h3 _ ih => rw [List.cons_append, close.eq_def]; simp [h1, h2, h3, ih]
  | escaped h1 _ ih =>
    rw [List.cons_append, List.cons_append, close.eq_def]
    simp [Ne.symm hq, h1, ih]

theorem body_of_close {quote : Char} {cs b rest : List Char} (h : close quote cs = some (b, rest)) :
    Body quote b := by
  fun_induction close quote cs generalizing b rest with
  | case1 | case3 | case4 | case6 => simp at h
  | case2 => simp only [Option.some.injEq, Prod.mk.injEq] at h; rw [← h.1]; exact .nil
  | case5 d r hd _ ih =>
    obtain ⟨⟨b', r'⟩, hc, he⟩ := Option.map_eq_some_iff.mp h
    simp only [Prod.mk.injEq] at he
    rw [← he.1]
    exact .escaped hd (ih hc)
  | case7 c r h1 h2 h3 ih =>
    obtain ⟨⟨b', r'⟩, hc, he⟩ := Option.map_eq_some_iff.mp h
    simp only [Prod.mk.injEq] at he
    rw [← he.1]
    exact .plain h1 h2 h3 (ih hc)

theorem Body.unique {quote : Char} {a b x y : List Char} (hq : quote ≠ '\\') (ha : Body quote a)
    (hb : Body quote b) (e : a ++ quote :: x = b ++ quote :: y) : a = b ∧ x = y := by
  have := close_append hq ha x
  rw [e, close_append hq hb y] at this
  cases this
  exact ⟨rfl, rfl⟩

theorem Body.newline_not_mem {quote : Char} {b : List Char} (h : Body quote b) : '\n' ∉ b := by
  induction h with
  | nil => simp
  | plain _ _ h3 _ ih => simp [Ne.symm h3, ih]
  | escaped h1 _ ih => simp [Ne.symm h1, ih]

/-! ## Escapes -/

theorem unescapeChars_cons {c : Char} (h : c ≠ '\\') (cs : List Char) :
    unescapeChars (c :: cs) = c :: unescapeChars cs := by
  cases cs <;> simp [unescapeChars, h]

theorem unescapeChars_escape (c : Char) (cs : List Char) :
    unescapeChars ('\\' :: c :: cs) =
      if isEscapable c then c :: unescapeChars cs else '\\' :: c :: unescapeChars cs := by
  rw [unescapeChars]

theorem escapeQuotes_cons {c : Char} (h : c ≠ '"') (cs : List Char) :
    escapeQuotes (c :: cs) = c :: escapeQuotes cs := by
  simp [escapeQuotes, h]

@[simp] theorem escapeQuotes_quote (cs : List Char) :
    escapeQuotes ('"' :: cs) = '\\' :: '"' :: escapeQuotes cs := by
  simp [escapeQuotes]

theorem escapeQuotes_of_not_mem {cs : List Char} (h : '"' ∉ cs) : escapeQuotes cs = cs := by
  induction cs with
  | nil => rfl
  | cons c cs ih =>
    simp only [List.mem_cons, not_or] at h
    rw [escapeQuotes_cons (Ne.symm h.1), ih h.2]

theorem unescapeChars_of_not_mem {cs : List Char} (h : '\\' ∉ cs) : unescapeChars cs = cs := by
  induction cs with
  | nil => rfl
  | cons c cs ih =>
    simp only [List.mem_cons, not_or] at h
    rw [unescapeChars_cons (Ne.symm h.1), ih h.2]

theorem mem_unescapeChars {c : Char} (h : c ≠ '\\') (cs : List Char) :
    c ∈ unescapeChars cs ↔ c ∈ cs := by
  fun_induction unescapeChars cs with
  | case1 d rest hd ih => simp [h, ih]
  | case2 d rest hd ih => simp [h, ih]
  | case3 d rest hd ih => simp [ih]
  | case4 => rfl

theorem unescapeChars_eq_nil {cs : List Char} : unescapeChars cs = [] ↔ cs = [] := by
  fun_cases unescapeChars cs <;> simp_all

theorem mem_escapeQuotes {c : Char} (h : c ≠ '\\') (cs : List Char) :
    c ∈ escapeQuotes cs ↔ c ∈ cs := by
  induction cs with
  | nil => rfl
  | cons d cs ih =>
    by_cases hd : d = '"'
    · subst hd; simp [h, ih]
    · rw [escapeQuotes_cons hd, List.mem_cons, List.mem_cons, ih]

theorem escapeQuotes_eq_nil {cs : List Char} : escapeQuotes cs = [] ↔ cs = [] := by
  fun_cases escapeQuotes cs <;> simp

theorem length_escapeQuotes (cs : List Char) : (escapeQuotes cs).length = cs.length + cs.count '"' := by
  induction cs with
  | nil => rfl
  | cons c cs ih =>
    by_cases hc : c = '"'
    · subst hc
      rw [escapeQuotes_quote, List.count_cons_self]
      simp only [List.length_cons, ih]
      omega
    · rw [escapeQuotes_cons hc, List.count_cons_of_ne hc]
      simp only [List.length_cons, ih]
      omega

def escaped (s : String) : String :=
  String.ofList (escapeQuotes s.toList)

theorem escaped_of_not_mem {s : String} (h : '"' ∉ s.toList) : escaped s = s := by
  rw [escaped, escapeQuotes_of_not_mem h, String.ofList_toList]

/-! ## Settled texts -/

def isSettled : List Char → Bool
  | '\\' :: c :: rest => !isEscapable c && isSettled rest
  | c :: rest => c != '\\' && isSettled rest
  | [] => true

theorem isSettled_cons {c : Char} (h : c ≠ '\\') (cs : List Char) :
    isSettled (c :: cs) = isSettled cs := by
  cases cs <;> simp [isSettled, h]

theorem isSettled_of_not_mem {cs : List Char} (h : '\\' ∉ cs) : isSettled cs = true := by
  induction cs with
  | nil => rfl
  | cons c cs ih =>
    simp only [List.mem_cons, not_or] at h
    rw [isSettled_cons (Ne.symm h.1), ih h.2]

theorem isEscapable_quote : isEscapable '"' = true := by decide

theorem ne_of_not_isEscapable {c : Char} (h : isEscapable c = false) : c ≠ '\\' ∧ c ≠ '"' := by
  constructor <;> rintro rfl <;> exact absurd h (by decide)

theorem body_escapeQuotes {w : List Char} (h : isSettled w = true) (hn : '\n' ∉ w) :
    Body '"' (escapeQuotes w) := by
  fun_induction isSettled w with
  | case1 c rest ih =>
    simp only [Bool.and_eq_true, Bool.not_eq_true'] at h
    simp only [List.mem_cons, not_or] at hn
    rw [escapeQuotes_cons (by decide), escapeQuotes_cons (ne_of_not_isEscapable h.1).2]
    exact .escaped (Ne.symm hn.2.1) (ih h.2 hn.2.2)
  | case2 c rest _ ih =>
    simp only [Bool.and_eq_true, bne_iff_ne] at h
    simp only [List.mem_cons, not_or] at hn
    by_cases hc : c = '"'
    · rw [hc, escapeQuotes_quote]
      exact .escaped (by decide) (ih h.2 hn.2)
    · rw [escapeQuotes_cons hc]
      exact .plain hc h.1 (Ne.symm hn.1) (ih h.2 hn.2)
  | case3 => exact .nil

theorem unescapeChars_escapeQuotes {w : List Char} (h : isSettled w = true) :
    unescapeChars (escapeQuotes w) = w := by
  fun_induction isSettled w with
  | case1 c rest ih =>
    simp only [Bool.and_eq_true, Bool.not_eq_true'] at h
    rw [escapeQuotes_cons (by decide), escapeQuotes_cons (ne_of_not_isEscapable h.1).2,
      unescapeChars_escape, if_neg (by simp [h.1]), ih h.2]
  | case2 c rest _ ih =>
    simp only [Bool.and_eq_true, bne_iff_ne] at h
    by_cases hc : c = '"'
    · rw [hc, escapeQuotes_quote, unescapeChars_escape, if_pos isEscapable_quote, ih h.2]
    · rw [escapeQuotes_cons hc, unescapeChars_cons h.1, ih h.2]
  | case3 => rfl

theorem unescape_escaped {s : String} (h : '\\' ∉ s.toList) : unescape (escaped s) = s := by
  rw [unescape, escaped, String.toList_ofList, unescapeChars_escapeQuotes (isSettled_of_not_mem h),
    String.ofList_toList]

/-! ## Fixed points

Normalizing a body shortens its first run of backslashes that stand for one another, so where the
normalized text stands in the place of the body, there is no such run. -/

theorem normalized_ne_run {b : List Char} (h : Body '"' b) (run : List Char)
    (hr : ∀ c ∈ run, c = '\\') (hne : run ≠ []) (x y : List Char) :
    escapeQuotes (unescapeChars b) ++ '"' :: x ≠ run ++ (b ++ '"' :: y) := by
  induction h generalizing run with
  | nil =>
    obtain ⟨d, run, rfl⟩ := List.exists_cons_of_ne_nil hne
    rw [hr d (by simp)]
    simp [unescapeChars, escapeQuotes]
  | plain h1 h2 _ _ _ =>
    obtain ⟨d, run, rfl⟩ := List.exists_cons_of_ne_nil hne
    rw [hr d (by simp), unescapeChars_cons h2, escapeQuotes_cons h1]
    simp [h2]
  | @escaped c b _ _ ih =>
    -- both characters in front on the right are backslashes, of the run or of the escape behind it
    obtain ⟨t, ht⟩ : ∃ t, run ++ ('\\' :: c :: b ++ '"' :: y) = '\\' :: '\\' :: t := by
      match run, hne with
      | [d], _ => exact ⟨_, by rw [hr d (by simp)]; rfl⟩
      | d :: e :: run, _ => exact ⟨_, by rw [hr d (by simp), hr e (by simp)]; rfl⟩
    rw [unescapeChars_escape]
    split
    · by_cases h1 : c = '\\'
      · subst h1
        obtain ⟨d, run, rfl⟩ := List.exists_cons_of_ne_nil hne
        obtain rfl := hr d (by simp)
        rw [escapeQuotes_cons (by decide)]
        intro e
        refine ih (run ++ ['\\', '\\']) (fun c hc => ?_) (by simp) ?_
        · simp only [List.mem_append, List.mem_cons, List.not_mem_nil, or_false, or_self] at hc
          exact hc.elim (fun hc => hr c (by simp [hc])) id
        · simpa using e
      · rw [ht]
        by_cases h2 : c = '"'
        · subst h2; simp
        · rw [escapeQuotes_cons h2]; simp [h1]
    · rename_i hc
      have := ne_of_not_isEscapable (Bool.eq_false_iff.mpr hc)
      rw [ht, escapeQuotes_cons (by decide), escapeQuotes_cons this.2]
      simp [this.1]

/-- A body that its own normalized text spells, up to the closing quote, is that text, and what
its escapes stand for is settled. -/
theorem settled_of_spelled {b x y : List Char} (h : Body '"' b)
    (e : escapeQuotes (unescapeChars b) ++ '"' :: x = b ++ '"' :: y) :
    isSettled (unescapeChars b) = true ∧ escapeQuotes (unescapeChars b) = b := by
  induction h with
  | nil => exact ⟨rfl, rfl⟩
  | plain h1 h2 _ _ ih =>
    rw [unescapeChars_cons h2, escapeQuotes_cons h1] at e ⊢
    have := ih (List.cons.inj e).2
    exact ⟨by rw [isSettled_cons h2, this.1], by rw [this.2]⟩
  | @escaped c b _ hb ih =>
    rw [unescapeChars_escape] at e ⊢
    split at e
    · rename_i hc
      rw [if_pos hc]
      by_cases h1 : c = '\\'
      · subst h1
        -- a backslash that stands for the next one opens a run
        rw [escapeQuotes_cons (by decide)] at e
        exact absurd (List.cons.inj e).2 (normalized_ne_run hb ['\\'] (by simp) (by simp) x y)
      · by_cases h2 : c = '"'
        · subst h2
          rw [escapeQuotes_quote] at e ⊢
          have := ih (List.cons.inj (List.cons.inj e).2).2
          exact ⟨by rw [isSettled_cons (by decide), this.1], by rw [this.2]⟩
        · rw [escapeQuotes_cons h2] at e
          exact absurd (List.cons.inj e).1 h1
    · rename_i hc
      rw [if_neg hc]
      have hc := Bool.eq_false_iff.mpr hc
      have hq := (ne_of_not_isEscapable hc).2
      rw [escapeQuotes_cons (by decide), escapeQuotes_cons hq] at e ⊢
      have := ih (List.cons.inj (List.cons.inj e).2).2
      exact ⟨by simp [isSettled, hc, this.1], by rw [this.2]⟩

end ActorHub.Quoted
