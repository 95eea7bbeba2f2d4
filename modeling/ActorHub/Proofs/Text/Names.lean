import ActorHub.Token.Lexer

/-!
# Names

A name is ASCII, so both foldings agree on it, and its lower case is a name again. Any two texts that
are equal but for the case of ASCII letters have the same lower case. A run of characters of one class
that no character of the class follows is found whole.
-/

namespace ActorHub

/-! ## Runs at the front of a text -/

section
variable {α : Type} {p : α → Bool} {run rest : List α}

theorem takeWhile_append_of_stop (hrun : ∀ a ∈ run, p a = true)
    (hstop : ∀ a ∈ rest.head?, p a = false) : (run ++ rest).takeWhile p = run := by
  rw [List.takeWhile_append_of_pos hrun]
  cases rest with
  | nil => simp
  | cons a rest => simp [hstop a rfl]

theorem dropWhile_append_of_stop (hrun : ∀ a ∈ run, p a = true)
    (hstop : ∀ a ∈ rest.head?, p a = false) : (run ++ rest).dropWhile p = rest := by
  rw [List.dropWhile_append_of_pos hrun]
  cases rest with
  | nil => rfl
  | cons a rest => simp [hstop a rfl]

theorem dropWhile_eq_self (hstop : ∀ a ∈ rest.head?, p a = false) : rest.dropWhile p = rest :=
  dropWhile_append_of_stop (List.forall_mem_nil _) hstop

end

namespace Text

/-! ## Letter case of ASCII characters -/

theorem isAsciiLetter_iff {c : Char} : isAsciiLetter c = true ↔
    (97 ≤ c.toNat ∧ c.toNat ≤ 122) ∨ (65 ≤ c.toNat ∧ c.toNat ≤ 90) := by
  simp [isAsciiLetter, Char.le_def, UInt32.le_iff_toNat_le]

theorem isAsciiDigit_iff {c : Char} : isAsciiDigit c = true ↔ 48 ≤ c.toNat ∧ c.toNat ≤ 57 := by
  simp [isAsciiDigit, Char.le_def, UInt32.le_iff_toNat_le]

theorem toNat_lowerAscii (c : Char) : (lowerAscii c).toNat =
    if 65 ≤ c.toNat ∧ c.toNat ≤ 90 then c.toNat + 32 else c.toNat := by
  have h : (decide ('A' ≤ c) && decide (c ≤ 'Z')) = true ↔ 65 ≤ c.toNat ∧ c.toNat ≤ 90 := by
    simp [Char.le_def, UInt32.le_iff_toNat_le]
  by_cases hc : 65 ≤ c.toNat ∧ c.toNat ≤ 90
  · have hv : (c.toNat + 32).isValidChar := by simp only [Nat.isValidChar]; omega
    rw [lowerAscii, if_pos (h.mpr hc), if_pos hc, Char.ofNat, dif_pos hv]
    rfl
  · rw [lowerAscii, if_neg (mt h.mp hc), if_neg hc]

@[simp] theorem lowerAscii_lowerAscii (c : Char) : lowerAscii (lowerAscii c) = lowerAscii c := by
  apply Char.toNat_inj.mp
  rw [toNat_lowerAscii, toNat_lowerAscii]
  split
  · rw [if_neg (by omega)]
  · rfl

@[simp] theorem isAsciiLetter_lowerAscii (c : Char) :
    isAsciiLetter (lowerAscii c) = isAsciiLetter c := by
  rw [Bool.eq_iff_iff, isAsciiLetter_iff, isAsciiLetter_iff, toNat_lowerAscii]
  split <;> omega

theorem lowerAscii_of_not_letter {c : Char} (h : isAsciiLetter c = false) : lowerAscii c = c := by
  unfold lowerAscii
  rw [if_neg]
  intro hc
  simp [isAsciiLetter, hc] at h

theorem foldAscii_foldAscii (s : String) : foldAscii (foldAscii s) = foldAscii s := by
  simp [foldAscii, Function.comp_def]

theorem length_of_sameName {s t : String} (h : sameName s t = true) :
    s.toList.length = t.toList.length := by
  have := congrArg (List.length ∘ String.toList) (beq_iff_eq.mp h)
  simpa [foldAscii] using this

theorem lowerAfter_of_ascii (before : List Char) {cs : List Char} (h : ∀ c ∈ cs, c.toNat < 0x80) :
    lowerAfter before cs = cs.map lowerAscii := by
  induction cs generalizing before with
  | nil => rfl
  | cons c cs ih =>
    have hc := h c (by simp)
    have hs : c ≠ 'Σ' := by rintro rfl; exact absurd hc (by decide)
    simp only [lowerAfter, if_neg hs, lowerChar, if_pos hc, List.map_cons, List.cons_append,
      List.nil_append]
    rw [ih _ fun d hd => h d (by simp [hd])]

theorem lowercase_of_ascii {s : String} (h : ∀ c ∈ s.toList, c.toNat < 0x80) :
    lowercase s = foldAscii s := by
  rw [lowercase, lowerAfter_of_ascii [] h, foldAscii]

/-! ## Lower case of texts that are the same name -/

theorem not_contains_of_lt {p : CodePoints} {c : Char} (h : ∀ b ∈ p.boundaries.head?, c.toNat < b) :
    p.contains c = false := by
  obtain ⟨boundaries⟩ := p
  cases boundaries with
  | nil => rfl
  | cons b bs =>
    have hb : ¬ b ≤ c.toNat := Nat.not_le.mpr (h b rfl)
    simp [CodePoints.contains, hb]

theorem isCaseIgnorable_of_isAsciiLetter {c : Char} (h : isAsciiLetter c = true) :
    isCaseIgnorable c = false := by
  have hc := isAsciiLetter_iff.mp h
  have htable : caseIgnorableTable.contains c = false := not_contains_of_lt fun b hb => by
    obtain rfl := Option.some.inj hb
    omega
  have hlist : ['\'', '.', ':', '^', '\x60'].contains c = false := by
    rw [List.contains_eq_mem, decide_eq_false_iff_not]
    intro hm
    simp only [List.mem_cons, List.not_mem_nil, or_false] at hm
    rcases hm with rfl | rfl | rfl | rfl | rfl <;> exact absurd h (by decide)
  rw [isCaseIgnorable, htable, hlist, Bool.or_false]

theorem apply_lowerAscii {α : Type} {f : Char → α} (h : ∀ c d, isAsciiLetter c = true →
    isAsciiLetter d = true → f c = f d) (c : Char) : f (lowerAscii c) = f c := by
  cases hc : isAsciiLetter c with
  | true => exact h _ _ (by rw [isAsciiLetter_lowerAscii, hc]) hc
  | false => rw [lowerAscii_of_not_letter hc]

theorem isCased_lowerAscii (c : Char) : isCased (lowerAscii c) = isCased c :=
  apply_lowerAscii (fun c d hc hd => by rw [isCased, isCased, hc, hd, Bool.true_or, Bool.true_or]) c

theorem isCaseIgnorable_lowerAscii (c : Char) : isCaseIgnorable (lowerAscii c) = isCaseIgnorable c :=
  apply_lowerAscii (fun c d hc hd => by
    rw [isCaseIgnorable_of_isAsciiLetter hc, isCaseIgnorable_of_isAsciiLetter hd]) c

theorem meetsCased_map (cs : List Char) : meetsCased (cs.map lowerAscii) = meetsCased cs := by
  have hcomp : isCased ∘ lowerAscii = isCased := funext isCased_lowerAscii
  have hcomp' : isCaseIgnorable ∘ lowerAscii = isCaseIgnorable := funext isCaseIgnorable_lowerAscii
  rw [meetsCased, meetsCased, List.dropWhile_map, hcomp', List.head?_map, Option.map_map, hcomp]

theorem lowerAscii_eq_sigma_iff (c : Char) : lowerAscii c = 'Σ' ↔ c = 'Σ' := by
  cases hc : isAsciiLetter c with
  | true =>
    constructor
    · intro h
      rw [← isAsciiLetter_lowerAscii, h] at hc
      exact absurd hc (by decide)
    · rintro rfl
      exact absurd hc (by decide)
  | false => rw [lowerAscii_of_not_letter hc]

theorem lowerChar_lowerAscii (c : Char) : lowerChar (lowerAscii c) = lowerChar c := by
  cases hc : isAsciiLetter c with
  | true =>
    have hlt := isAsciiLetter_iff.mp hc
    have hlt' := isAsciiLetter_iff.mp (isAsciiLetter_lowerAscii c ▸ hc)
    rw [lowerChar, lowerChar, if_pos (by omega), if_pos (by omega), lowerAscii_lowerAscii]
  | false => rw [lowerAscii_of_not_letter hc]

theorem lowerAfter_map (before cs : List Char) :
    lowerAfter (before.map lowerAscii) (cs.map lowerAscii) = lowerAfter before cs := by
  induction cs generalizing before with
  | nil => rfl
  | cons c cs ih =>
    have ih := ih (c :: before)
    rw [List.map_cons] at ih
    simp only [List.map_cons, lowerAfter, lowerAscii_eq_sigma_iff, meetsCased_map,
      lowerChar_lowerAscii, ih]

theorem lowercase_foldAscii (s : String) : lowercase (foldAscii s) = lowercase s := by
  rw [lowercase, foldAscii, String.toList_ofList, ← List.map_nil, lowerAfter_map, lowercase]

theorem lowercase_of_sameName {s t : String} (h : sameName s t = true) : lowercase s = lowercase t := by
  rw [← lowercase_foldAscii s, beq_iff_eq.mp h, lowercase_foldAscii]

end Text

/-! ## Names -/

namespace Lexeme

theorem isNameChar_iff {c : Char} : isNameChar c = true ↔
    Text.isAsciiLetter c = true ∨ Text.isAsciiDigit c = true ∨ c = '_' ∨ c = '.' := by
  simp [isNameChar, or_assoc]

theorem isNameChar_of_mem {cs : List Char} (h : isName cs = true) : ∀ c ∈ cs, isNameChar c = true := by
  cases cs with
  | nil => simp
  | cons c cs =>
    simp only [isName, Bool.and_eq_true, List.all_eq_true] at h
    intro d hd
    rcases List.mem_cons.mp hd with rfl | hd
    · exact isNameChar_iff.mpr (.inl h.1)
    · exact h.2 d hd

theorem toNat_of_isNameChar {c : Char} (h : isNameChar c = true) : c.toNat < 0x80 := by
  rcases isNameChar_iff.mp h with h | h | rfl | rfl
  · have := Text.isAsciiLetter_iff.mp h; omega
  · have := Text.isAsciiDigit_iff.mp h; omega
  · decide
  · decide

theorem lowercase_of_isName {s : String} (h : isName s.toList = true) :
    Text.lowercase s = Text.foldAscii s :=
  Text.lowercase_of_ascii fun c hc => toNat_of_isNameChar (isNameChar_of_mem h c hc)

theorem isNameChar_lowerAscii (c : Char) : isNameChar (Text.lowerAscii c) = isNameChar c := by
  by_cases h : Text.isAsciiLetter c = true
  · simp [isNameChar, h]
  · rw [Text.lowerAscii_of_not_letter (by simpa using h)]

theorem isName_foldAscii (s : String) : isName (Text.foldAscii s).toList = isName s.toList := by
  rw [Text.foldAscii, String.toList_ofList]
  cases s.toList with
  | nil => rfl
  | cons c cs => simp [isName, isNameStart, isNameChar_lowerAscii, Function.comp_def]

theorem isName_of_sameName {s t : String} (h : Text.sameName s t = true) :
    isName s.toList = isName t.toList := by
  rw [← isName_foldAscii s, beq_iff_eq.mp h, isName_foldAscii]

theorem isName_lowercase {s : String} (h : isName s.toList = true) :
    isName (Text.lowercase s).toList = true := by
  rw [lowercase_of_isName h, isName_foldAscii, h]

theorem dot_not_mem_lowercase {s : String} (h : isName s.toList = true) (hdot : '.' ∉ s.toList) :
    '.' ∉ (Text.lowercase s).toList := by
  rw [lowercase_of_isName h, Text.foldAscii, String.toList_ofList]
  intro hm
  obtain ⟨c, hc, he⟩ := List.mem_map.mp hm
  have hn := congrArg Char.toNat he
  rw [Text.toNat_lowerAscii] at hn
  have hc' : c.toNat = '.'.toNat := by
    split at hn
    · simp at hn; omega
    · exact hn
  exact hdot (Char.toNat_inj.mp hc' ▸ hc)

theorem lowercase_lowercase {s : String} (h : isName s.toList = true) :
    Text.lowercase (Text.lowercase s) = Text.lowercase s := by
  rw [lowercase_of_isName (isName_lowercase h), lowercase_of_isName h, Text.foldAscii_foldAscii]

theorem sameName_lowercase {s : String} (h : isName s.toList = true) (t : String) :
    Text.sameName (Text.lowercase s) t = Text.sameName s t := by
  rw [Text.sameName, Text.sameName, lowercase_of_isName h, Text.foldAscii_foldAscii]

end Lexeme

end ActorHub
