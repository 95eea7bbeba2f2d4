import ActorHub.Proofs.Number.IntLiteral
import ActorHub.Proofs.Outcome
import ActorHub.Proofs.Token.Escape
import ActorHub.ValueType.Read

/-!
# Shown values

A plain type accepts the text that shows one of its values, and takes it for an equal value. A text
with quotes that it takes for an equal value spells the shown text, but for the case of its letters.
-/

namespace ActorHub

def ValueKind.isExact : ValueKind → Bool
  | .float | .double => false
  | _ => true

namespace ValueType

/-- Its values are exact, and no text of it stands for no value. -/
structure IsPlain (t : ValueType) : Prop where
  exact : t.kind.isExact = true
  invalid : t.invalid = none

variable {t : ValueType} {text : String}

/-! ## Numbers -/

theorem readInt_eq_ok_iff {n : Int} : t.readInt text = .ok n ↔ IntLiteral.read text = .ok n := by
  unfold readInt
  split
  · rename_i h; simp [h]
  · rfl

theorem readInt_ne_invalid : t.readInt text ≠ .error .invalid := by
  have h : IntLiteral.read text ≠ .error .invalid := by
    simp only [IntLiteral.read]
    split
    · simp
    · split <;> simp
  unfold readInt
  split
  · simp
  · exact h

theorem readBetween_eq_ok_iff {low high n : Int} : t.readBetween low high text = .ok n ↔
    IntLiteral.read text = .ok n ∧ low ≤ n ∧ n ≤ high := by
  simp only [readBetween, bind_eq_ok_iff, readInt_eq_ok_iff]
  constructor
  · intro he
    obtain ⟨m, hm, h⟩ := he
    by_cases hrange : low ≤ m ∧ m ≤ high
    · rw [if_pos hrange] at h
      obtain rfl := pure_eq_ok_iff.mp h
      exact ⟨hm, hrange⟩
    · rw [if_neg hrange] at h
      exact absurd h throw_ne_ok
  · intro he
    obtain ⟨hn, hrange⟩ := he
    exact ⟨n, hn, by rw [if_pos hrange, pure_eq_ok_iff]⟩

theorem readBetween_ne_invalid {low high : Int} : t.readBetween low high text ≠ .error .invalid := by
  rw [readBetween, Ne, bind_eq_error_iff, not_or]
  refine ⟨readInt_ne_invalid, ?_⟩
  intro he
  obtain ⟨n, -, h⟩ := he
  split at h <;> cases h

theorem readBetween_numeral {low high n : Int} (hs : text.toList = IntLiteral.numeral n)
    (hlow : low ≤ n) (hhigh : n ≤ high) (hn : n.natAbs < IntLiteral.bound) :
    t.readBetween low high text = .ok n :=
  readBetween_eq_ok_iff.mpr ⟨IntLiteral.read_numeral hs hn, hlow, hhigh⟩

theorem readWord_ne_invalid : t.readWord text ≠ .error .invalid := by
  rw [readWord, Ne, bind_eq_error_iff, not_or]
  refine ⟨readBetween_ne_invalid, ?_⟩
  intro he
  obtain ⟨n, -, h⟩ := he
  cases h

theorem readWord_toString (w : Word) : t.readWord (toString w.toNat) = .ok w := by
  have hw : (w.toNat : Int) ≤ uintLimit := by have := w.isLt; simp only [uintLimit]; omega
  have hb : (w.toNat : Int).natAbs < IntLiteral.bound := by
    have := w.isLt; simp only [IntLiteral.bound]; omega
  refine bind_eq_ok_iff.mpr ⟨w.toNat, ?_, ?_⟩
  · exact readBetween_numeral (IntLiteral.toList_toString_natCast _) (by simp only [intLimit]; omega) hw hb
  · simp [pure_eq_ok_iff, Int.not_lt.mpr (Int.natCast_nonneg _)]

theorem quote_not_mem_numeral (n : Int) : '"' ∉ IntLiteral.numeral n := fun h =>
  (IntLiteral.mem_numeral h).elim (by decide) (by decide)

/-! ## Labels -/

theorem sameName_refl (s : String) : Text.sameName s s = true :=
  beq_iff_eq.mpr rfl

theorem enumValue_eq_ok_iff {i : Nat} {v : TypedValue} : t.enumValue i = .ok v ↔
    ∃ label, t.labels[i]? = some label ∧ v = .enum label i := by
  unfold enumValue labels
  split
  · split
    · rename_i h; simp [h, eq_comm]
    · rename_i h; simp [h]
  · simp

theorem readLabel_of_mem {label : String} (h : label ∈ t.labels) (hs : Text.sameName label text = true) :
    ∃ i l, t.readLabel text = .ok (.enum l i) ∧ Text.sameName l text = true := by
  obtain ⟨i, hi⟩ := Option.isSome_iff_exists.mp (List.findIdx?_isSome (p := (Text.sameName · text)) ▸
    List.any_eq_true.mpr ⟨label, h, hs⟩)
  obtain ⟨hlt, hsame, -⟩ := List.findIdx?_eq_some_iff_getElem.mp hi
  refine ⟨i, t.labels[i], ?_, hsame⟩
  rw [readLabel, hi]
  exact enumValue_eq_ok_iff.mpr ⟨_, List.getElem?_eq_getElem hlt, rfl⟩

theorem mem_labels_of_readLabel {v : TypedValue} (h : t.readLabel text = .ok v) :
    ∃ label ∈ t.labels, ∃ i, v = .enum label i := by
  unfold readLabel at h
  split at h
  · obtain ⟨label, hl, rfl⟩ := enumValue_eq_ok_iff.mp h
    exact ⟨label, List.mem_of_getElem? hl, _, rfl⟩
  · split at h
    · obtain ⟨label, hl, rfl⟩ := enumValue_eq_ok_iff.mp h
      exact ⟨label, List.mem_of_getElem? hl, _, rfl⟩
    · cases h

theorem index?_eq_none {cs : List Char} (h : '"' ∈ cs) : index? cs = none := by
  have hdigits : ∀ ds : List Char, '"' ∈ ds → Number.readDigits? 10 ds = none := by
    intro ds hd
    cases ds with
    | nil => rfl
    | cons d ds => exact Number.readDigitsFrom_eq_none (by decide) _ hd
  simp only [index?]
  split
  · rw [hdigits _ (by simpa using h), Option.filter_none]
  · rw [hdigits _ h, Option.filter_none]

theorem spelled_of_readLabel {v : TypedValue} (hq : '"' ∈ text.toList) (h : t.readLabel text = .ok v) :
    ∃ label i, v = .enum label i ∧ Text.sameName label text = true := by
  unfold readLabel at h
  split at h
  · rename_i i hi
    obtain ⟨label, hl, rfl⟩ := enumValue_eq_ok_iff.mp h
    obtain ⟨hlt, hs, -⟩ := List.findIdx?_eq_some_iff_getElem.mp hi
    rw [List.getElem?_eq_getElem hlt, Option.some.injEq] at hl
    exact ⟨label, i, rfl, hl ▸ hs⟩
  · rw [index?_eq_none hq] at h
    cases h

/-! ## Truth values -/

theorem readValid_bool_iff {falseLabel trueLabel : String} (hk : t.kind = .bool falseLabel trueLabel)
    {v : TypedValue} : t.readValid text = .ok v ↔ (text = trueLabel ∧ v = .bool true trueLabel) ∨
      (text ≠ trueLabel ∧ text = falseLabel ∧ v = .bool false falseLabel) := by
  simp only [readValid, hk]
  by_cases ht : text = trueLabel
  · simp [ht, eq_comm]
  · by_cases hf : text = falseLabel
    · subst hf; simp [ht, eq_comm]
    · simp [ht, hf]

/-! ## Accepted texts -/

theorem readLabel_ne_invalid : t.readLabel text ≠ .error .invalid := by
  have h : ∀ i, t.enumValue i ≠ .error .invalid := by
    intro i
    unfold enumValue
    split
    · split <;> simp
    · simp
  unfold readLabel
  split
  · exact h _
  · split
    · exact h _
    · simp

theorem float_read_ne_invalid : FloatLiteral.read text ≠ .error .invalid := by
  unfold FloatLiteral.read
  split <;> simp

theorem readSingle_ne_invalid : FloatLiteral.readSingle text ≠ .error .invalid := by
  rw [FloatLiteral.readSingle, Ne, bind_eq_error_iff, not_or]
  refine ⟨float_read_ne_invalid, ?_⟩
  intro he
  obtain ⟨⟨x, spelled⟩, -, h⟩ := he
  dsimp only at h
  generalize (if x.isInfinite then !spelled
    else !x.isNaN && decide (FloatLiteral.maxSingle.magnitudeBits < x.magnitudeBits)) = tooLarge at h
  cases tooLarge <;> cases h

theorem readValid_ne_invalid : t.readValid text ≠ .error .invalid := by
  unfold readValid
  split
  case h_1 => exact fun h => readSingle_ne_invalid (map_eq_error_iff.mp h)
  case h_2 => exact fun h => float_read_ne_invalid (map_eq_error_iff.mp h)
  case h_3 | h_4 => exact fun h => readBetween_ne_invalid (map_eq_error_iff.mp h)
  case h_5 | h_6 => exact fun h => readWord_ne_invalid (map_eq_error_iff.mp h)
  case h_7 => simp
  case h_8 => exact readLabel_ne_invalid
  case h_9 =>
    split
    · simp
    · split <;> simp

theorem accept?_eq_some_iff (ht : t.IsPlain) {v : TypedValue} :
    t.accept? text = some v ↔ t.readValid text = .ok v := by
  have hvalid : t.read text = t.readValid text := by
    simp [read, validate, isSentinel, ht.invalid, bind, Except.bind]
  have hne : t.readValid text ≠ .error .invalid := readValid_ne_invalid
  rw [accept?, hvalid]
  cases hr : t.readValid text with
  | ok u => simp
  | error e => cases e <;> simp_all

theorem accept?_display (ht : t.IsPlain) {v : TypedValue} (h : t.accept? text = some v) :
    ∃ v', t.accept? v.display = some v' ∧ v'.equals v = true := by
  simp only [accept?_eq_some_iff ht] at h ⊢
  have hexact := ht.exact
  cases hk : t.kind with
  | float | double => simp [hk, ValueKind.isExact] at hexact
  | int | long =>
    simp only [readValid, hk, map_eq_ok_iff] at h ⊢
    obtain ⟨n, hn, rfl⟩ := h
    obtain ⟨-, hlow, hhigh⟩ := readBetween_eq_ok_iff.mp hn
    have hb : n.natAbs < IntLiteral.bound := by
      simp only [intLimit, longLimit, IntLiteral.bound] at *; omega
    exact ⟨_, ⟨n, readBetween_numeral (IntLiteral.toList_toString n) hlow hhigh hb, rfl⟩,
      beq_self_eq_true n⟩
  | uint | bits layout =>
    simp only [readValid, hk, map_eq_ok_iff] at h ⊢
    obtain ⟨w, -, rfl⟩ := h
    exact ⟨_, ⟨w, readWord_toString w, rfl⟩, beq_self_eq_true w⟩
  | string =>
    simp only [readValid, hk, Except.ok.injEq] at h ⊢
    exact ⟨v, by rw [← h, TypedValue.display], by rw [← h]; exact beq_self_eq_true text⟩
  | enum labels help =>
    simp only [readValid, hk] at h ⊢
    obtain ⟨label, hl, i, rfl⟩ := mem_labels_of_readLabel h
    obtain ⟨j, l, hr, hs⟩ := readLabel_of_mem hl (sameName_refl label)
    exact ⟨_, hr, hs⟩
  | bool falseLabel trueLabel =>
    rcases (readValid_bool_iff hk).mp h with ⟨rfl, rfl⟩ | ⟨hne, rfl, rfl⟩
    · exact ⟨_, (readValid_bool_iff hk).mpr (.inl ⟨rfl, rfl⟩), rfl⟩
    · exact ⟨_, (readValid_bool_iff hk).mpr (.inr ⟨hne, rfl, rfl⟩), rfl⟩

/-- A text with quotes that is taken for a value whose own text has quotes, spells that text. -/
theorem sameName_of_equals (ht : t.IsPlain) {other : String} {v v' : TypedValue}
    (h : t.accept? text = some v) (h' : t.accept? other = some v') (he : v'.equals v = true)
    (hq : '"' ∈ v.display.toList) (hq' : '"' ∈ other.toList) :
    Text.sameName other v.display = true := by
  rw [accept?_eq_some_iff ht] at h h'
  have hexact := ht.exact
  cases hk : t.kind with
  | float | double => simp [hk, ValueKind.isExact] at hexact
  | int | long =>
    simp only [readValid, hk, map_eq_ok_iff] at h
    obtain ⟨n, -, rfl⟩ := h
    exact absurd (IntLiteral.toList_toString n ▸ hq) (quote_not_mem_numeral n)
  | uint | bits layout =>
    simp only [readValid, hk, map_eq_ok_iff] at h
    obtain ⟨w, -, rfl⟩ := h
    exact absurd (IntLiteral.toList_toString_natCast w.toNat ▸ hq) (quote_not_mem_numeral _)
  | string =>
    simp only [readValid, hk, Except.ok.injEq] at h h'
    rw [← h, ← h'] at he
    rw [← h, TypedValue.display, beq_iff_eq.mp he]
    exact sameName_refl _
  | enum labels help =>
    simp only [readValid, hk] at h h'
    obtain ⟨label, -, i, rfl⟩ := mem_labels_of_readLabel h
    obtain ⟨l, j, rfl, hs⟩ := spelled_of_readLabel hq' h'
    exact beq_iff_eq.mpr ((beq_iff_eq.mp hs).symm.trans (beq_iff_eq.mp he))
  | bool falseLabel trueLabel =>
    have hsame : other = v.display := by
      rcases (readValid_bool_iff hk).mp h with ⟨rfl, rfl⟩ | ⟨-, rfl, rfl⟩ <;>
        rcases (readValid_bool_iff hk).mp h' with ⟨rfl, rfl⟩ | ⟨-, rfl, rfl⟩
      · rfl
      · cases he
      · cases he
      · rfl
    rw [hsame]
    exact sameName_refl _

theorem accept?_escaped_iff (ht : t.IsPlain) {v : TypedValue} (h : t.accept? text = some v) :
    (∃ v', t.accept? (Quoted.escaped v.display) = some v' ∧ v'.equals v = true) ↔
      '"' ∉ v.display.toList := by
  constructor
  · rintro ⟨v', h', he⟩ hq
    have hq' : '"' ∈ (Quoted.escaped v.display).toList := by
      rw [Quoted.escaped, String.toList_ofList]
      exact (Quoted.mem_escapeQuotes (by decide) _).mpr hq
    have hlength := Text.length_of_sameName (sameName_of_equals ht h h' he hq hq')
    rw [Quoted.escaped, String.toList_ofList, Quoted.length_escapeQuotes] at hlength
    have := List.count_pos_iff.mpr hq
    omega
  · intro hq
    rw [Quoted.escaped_of_not_mem hq]
    exact accept?_display ht h

end ValueType

end ActorHub
