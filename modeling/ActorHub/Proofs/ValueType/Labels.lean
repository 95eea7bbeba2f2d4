import ActorHub.Proofs.Number.Literal
import ActorHub.Proofs.ValueType.Shown

/-!
# Labels and indices

A value of an enumeration is read from a label in any case, or else from the index of one in decimal. A
text that is both a label and an index is the label. So the index of a label is read as that label,
unless another label is spelled like the index.
-/

namespace ActorHub

namespace Text

theorem sameName_iff_eq {s t : String} (h : ∀ c ∈ t.toList, isAsciiLetter c = false) :
    sameName s t = true ↔ s = t := by
  rw [sameName, beq_iff_eq, foldAscii, foldAscii, String.ofList_inj, ← String.toList_inj]
  generalize s.toList = cs at *
  generalize t.toList = ds at *
  induction ds generalizing cs with
  | nil => simp
  | cons d ds ih =>
    cases cs with
    | nil => simp
    | cons c cs =>
      have hd := h d List.mem_cons_self
      have hds : ∀ c ∈ ds, isAsciiLetter c = false := fun c hc => h c (List.mem_cons_of_mem d hc)
      rw [List.map_cons, List.map_cons, List.cons.injEq, List.cons.injEq, lowerAscii_of_not_letter hd,
        lowerAscii_eq_iff hd, ih cs hds]

end Text

namespace ValueType

variable {t : ValueType} {labels : List String} {help : Option (List String)} {text label : String}
variable {i : Nat}

/-! ## Numerals of indices -/

theorem isAsciiDigit_of_mem_toString {c : Char} (h : c ∈ (toString i).toList) :
    Text.isAsciiDigit c = true := by
  rw [Nat.toString_eq_repr, Nat.toList_repr] at h
  exact Number.isAsciiDigit_of_mem_toDigits h

theorem sameName_toString_iff : Text.sameName label (toString i) = true ↔ label = toString i :=
  Text.sameName_iff_eq fun _ hc =>
    Text.isAsciiLetter_of_isAsciiDigit (isAsciiDigit_of_mem_toString hc)

theorem readDigits?_toString (i : Nat) : Number.readDigits? 10 (toString i).toList = some i := by
  rw [Nat.toString_eq_repr, Nat.toList_repr, Number.readDigits?_toDigits]

theorem index?_toString (hi : i < indexBound) : index? (toString i).toList = some i := by
  -- a numeral has no sign
  have hplus : ∀ rest, (toString i).toList ≠ '+' :: rest := by
    intro rest h
    have hdigit := isAsciiDigit_of_mem_toString (i := i) (h ▸ List.mem_cons_self : '+' ∈ (toString i).toList)
    exact absurd hdigit (by decide)
  unfold index?
  split
  · next rest h => exact absurd h (hplus rest)
  · simp only [readDigits?_toString]
    exact Option.filter_some_pos (decide_eq_true hi)

/-! ## Reading -/

theorem read_enum (hk : t.kind = .enum labels help) (hinvalid : t.invalid = none) (text : String) :
    t.read text = t.readLabel text := by
  simp [read, validate, isSentinel, hinvalid, readValid, hk, bind, Except.bind]

theorem labels_eq (hk : t.kind = .enum labels help) : t.labels = labels := by
  rw [ValueType.labels, hk]

section
variable (hk : t.kind = .enum labels help)

include hk in
theorem readLabel_of_label (hd : labels.Pairwise fun a b => Text.sameName a b = false)
    (hl : labels[i]? = some label) (hs : Text.sameName label text = true) :
    t.readLabel text = .ok (.enum label i) := by
  obtain ⟨hlt, hget⟩ := List.getElem?_eq_some_iff.mp hl
  have hfind : labels.findIdx? (Text.sameName · text) = some i := by
    refine List.findIdx?_eq_some_iff_getElem.mpr ⟨hlt, hget ▸ hs, fun j hj hsame => ?_⟩
    have hne := List.pairwise_iff_getElem.mp hd j i (by omega) hlt hj
    rw [hget, Text.sameName, beq_iff_eq.mp hsame, ← beq_iff_eq.mp hs, beq_self_eq_true] at hne
    cases hne
  rw [readLabel, labels_eq hk, hfind]
  exact enumValue_eq_ok_iff.mpr ⟨label, labels_eq hk ▸ hl, rfl⟩

include hk in
theorem readLabel_of_index (hl : labels[i]? = some label) (hi : index? text.toList = some i)
    (hnone : ∀ l ∈ labels, Text.sameName l text = false) : t.readLabel text = .ok (.enum label i) := by
  have hfind : labels.findIdx? (Text.sameName · text) = none := List.findIdx?_eq_none_iff.mpr hnone
  rw [readLabel, labels_eq hk, hfind, hi]
  exact enumValue_eq_ok_iff.mpr ⟨label, labels_eq hk ▸ hl, rfl⟩

end

/-- A label is read from every spelling of it, and also from its index, if and only if no other label
is spelled like the index; that label is read otherwise. -/
theorem label_and_index_agree_iff (hk : t.kind = .enum labels help) (hinvalid : t.invalid = none)
    (hd : labels.Pairwise fun a b => Text.sameName a b = false) (hl : labels[i]? = some label)
    (hi : i < indexBound) (hs : Text.sameName label text = true) :
    t.read text = .ok (.enum label i) ∧
    (t.read (toString i) = .ok (.enum label i) ↔ ∀ j, labels[j]? = some (toString i) → j = i) ∧
    ∀ j, labels[j]? = some (toString i) → t.read (toString i) = .ok (.enum (toString i) j) := by
  simp only [read_enum hk hinvalid]
  have hlabel : ∀ j, labels[j]? = some (toString i) →
      t.readLabel (toString i) = .ok (.enum (toString i) j) := fun j hj =>
    readLabel_of_label hk hd hj (sameName_refl _)
  refine ⟨readLabel_of_label hk hd hl hs, ⟨fun h j hj => ?_, fun hnone => ?_⟩, hlabel⟩
  · rw [hlabel j hj, Except.ok.injEq, TypedValue.enum.injEq] at h
    exact h.2
  · by_cases hmem : toString i ∈ labels
    · -- the label is spelled like its own index
      obtain ⟨j, hj⟩ := List.mem_iff_getElem?.mp hmem
      obtain rfl := hnone j hj
      rw [hlabel j hj, Option.some.inj (hl.symm.trans hj)]
    · refine readLabel_of_index hk hl (index?_toString hi) fun l hmem' => ?_
      rw [← Bool.not_eq_true, sameName_toString_iff]
      exact fun he => hmem (he ▸ hmem')

/-- The second label is read from its index. The index of the first one is read as the third label. -/
theorem label_and_index_agree_iff_status :
    let t : ValueType := .ofKind (.enum ["Idle", "Busy", "0"] none)
    t.read "bUSY" = .ok (.enum "Busy" 1) ∧ t.read (toString 1) = .ok (.enum "Busy" 1) ∧
      t.read "idle" = .ok (.enum "Idle" 0) ∧ t.read (toString 0) = .ok (.enum "0" 2) := by
  intro t
  have hd : ["Idle", "Busy", "0"].Pairwise fun a b => Text.sameName a b = false := by decide +kernel
  have hspelled : Text.sameName "Busy" "bUSY" = true ∧ Text.sameName "Idle" "idle" = true := by
    decide +kernel
  obtain ⟨hbusy, hone, -⟩ := label_and_index_agree_iff (t := t) rfl rfl hd (i := 1) rfl (by decide)
    hspelled.1
  obtain ⟨hidle, -, hzero⟩ := label_and_index_agree_iff (t := t) rfl rfl hd (i := 0) rfl (by decide)
    hspelled.2
  refine ⟨hbusy, hone.mpr fun j hj => ?_, hidle, hzero 2 rfl⟩
  obtain _ | _ | _ | j := j
  · exact absurd hj (by decide +kernel)
  · rfl
  · exact absurd hj (by decide +kernel)
  · cases hj

/-- A label that is spelled like the index of another one is read in its place. -/
theorem index_read_as_other_label : ¬ ∀ (labels : List String) (t : ValueType) (i : Nat)
    (label text : String), enumeration labels = .ok t →
    labels.Pairwise (fun a b => Text.sameName a b = false) → labels[i]? = some label →
    Text.sameName label text = true →
    t.read text = .ok (.enum label i) ∧ t.read (toString i) = .ok (.enum label i) := by
  intro h
  have hzero : (ofKind (.enum ["1", "0"] none)).read (toString 0) = .ok (.enum "1" 0) :=
    (h ["1", "0"] _ 0 "1" "1" rfl (by decide +kernel) rfl (by decide +kernel)).2
  have hlabel : (ofKind (.enum ["1", "0"] none)).read (toString 0) = .ok (.enum "0" 1) := rfl
  rw [hlabel, Except.ok.injEq, TypedValue.enum.injEq] at hzero
  exact absurd hzero.2 (by decide)

end ValueType

end ActorHub
