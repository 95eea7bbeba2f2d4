import ActorHub.Proofs.BitField.Digits
import ActorHub.Proofs.Text.Description
import ActorHub.Proofs.ValueType.Fields
import ActorHub.Proofs.ValueType.Labels
import ActorHub.ValueType.Describe

/-!
# Renderings of bitfields

A value of a bitfield is shown whole, field by field, and the type describes each field by a pattern. All
three go by the same columns: the digits of a field are those of the whole value in the columns of the
field, and the ones of its pattern stand there, apart from those of any other field.
-/

namespace ActorHub.ValueType

variable {t : ValueType} {layout : BitField.Layout} {specs : List String} {runs : List BitField}
variable {f g : BitField} {i j : Nat}

/-! ## The whole value -/

/-- The text has a digit for each bit that is declared, and they are read as what these bits hold. -/
structure ShowsWhole (t : ValueType) (v : Word) : Prop where
  length : (t.bitsString v).length = t.layout.width
  value : Number.readDigitsFrom 2 0 (t.bitsString v).toList =
    some (v.toNat % Nat.pow 2 t.layout.width)
  machine : binaryDigits? (v.setWidth 64) t.layout.width = some (t.bitsString v).toList

theorem toList_bitsString (t : ValueType) (v : Word) :
    (t.bitsString v).toList = binaryDigits v.toNat t.layout.width := by
  rw [bitsString, binary, String.toList_ofList]

theorem toNat_widened (v : Word) : (v.setWidth 64).toNat = v.toNat := by
  rw [BitVec.toNat_setWidth]
  exact Nat.mod_eq_of_lt (by have := v.isLt; omega)

theorem showsWhole (hwidth : t.layout.width ≤ 32) (v : Word) : t.ShowsWhole v where
  length := by rw [← String.length_toList, toList_bitsString, length_binaryDigits]
  value := by rw [toList_bitsString, readDigitsFrom_binaryDigits, Nat.zero_mul, Nat.zero_add]
  machine := by rw [binaryDigits?_eq (by omega), toNat_widened, toList_bitsString]

/-! ## Fields -/

/-- The name and the digits in a text such as `a=01`. -/
def entry (part : List Char) : List Char × List Char :=
  (part.takeWhile (· ≠ '='), (part.dropWhile (· ≠ '=')).drop 1)

def entries (text : String) : List (List Char × List Char) :=
  match (text.toList.drop 1).dropLast with
  | [] => []
  | parts => (Text.splitChars ',' parts).map entry

def fieldDigits (t : ValueType) (v : Word) (f : BitField) : List Char :=
  f.columns t.layout.width (t.bitsString v).toList

/-- Each field is shown as the columns of the whole value that it stands in. What it holds is read off
them, which is what access by name gives if no other field has the name. -/
structure ShowsFields (t : ValueType) (v : Word) : Prop where
  entries : entries (t.bitsRepr v) = t.layout.fields.map fun f => (f.name.toList, t.fieldDigits v f)
  value : ∀ f ∈ t.layout.fields, ∃ x, f.get? v = some x ∧
    binaryDigits? (x.setWidth 64) f.width = some (t.fieldDigits v f) ∧
    Number.readDigitsFrom 2 0 (t.fieldDigits v f) = some x.toNat ∧
    ((t.layout.fields.map BitField.name).count f.name = 1 → t.getField v f.name = .ok x)

theorem field_of_count (hf : f ∈ t.layout.fields)
    (hcount : (t.layout.fields.map BitField.name).count f.name = 1) : t.field f.name = .ok f := by
  obtain ⟨before, behind, hfields⟩ := List.append_of_mem hf
  have hbefore : f.name ∉ before.map BitField.name := by
    rw [hfields, List.map_append, List.map_cons, List.count_append, List.count_cons_self] at hcount
    rw [← List.count_eq_zero]
    omega
  have hnone : before.find? (·.name == f.name) = none := by
    rw [List.find?_eq_none]
    intro g hg hname
    exact hbefore (List.mem_map.mpr ⟨g, hg, beq_iff_eq.mp hname⟩)
  rw [field_eq_ok_iff, hfields, List.find?_append, hnone, Option.none_or]
  simp

def part (v : Word) (f : BitField) : List Char :=
  f.name.toList ++ '=' :: binaryDigits (f.get v).toNat f.width

theorem toList_bitsRepr (t : ValueType) (v : Word) :
    (t.bitsRepr v).toList = '(' :: ([','].intercalate (t.layout.fields.map (part v)) ++ [')']) := by
  have hpart (f : BitField) :
      (f.name ++ "=" ++ binary (f.get v).toNat f.width).toList = part v f := by
    simp [part, binary]
  simp only [bitsRepr, String.toList_append, String.toList_intercalate, List.map_map]
  rw [show String.toList ∘ (fun f => f.name ++ "=" ++ binary (f.get v).toNat f.width) = part v from
    funext hpart]
  rfl

section
variable {v : Word} (hname : ∀ c ∈ f.name.toList, BitField.isNameChar c = true)
include hname

theorem entry_part : entry (part v f) = (f.name.toList, binaryDigits (f.get v).toNat f.width) := by
  have hrun : ∀ c ∈ f.name.toList, decide (c ≠ '=') = true := by
    intro c hc
    rw [decide_eq_true_eq]
    rintro rfl
    exact absurd (hname '=' hc) (by decide)
  rw [entry, part, takeWhile_append_of_stop hrun (by simp), dropWhile_append_of_stop hrun (by simp)]
  rfl

theorem comma_not_mem_part : ',' ∉ part v f := by
  intro h
  rcases List.mem_append.mp h with h | h
  · exact absurd (hname ',' h) (by decide)
  · rcases List.mem_cons.mp h with h | h
    · exact absurd h (by decide)
    · rcases mem_binaryDigits h with h | h <;> exact absurd h (by decide)

end

theorem entries_bitsRepr
    (hnames : ∀ f ∈ t.layout.fields, ∀ c ∈ f.name.toList, BitField.isNameChar c = true) (v : Word) :
    entries (t.bitsRepr v) =
      t.layout.fields.map fun f => (f.name.toList, binaryDigits (f.get v).toNat f.width) := by
  have hinner : ((t.bitsRepr v).toList.drop 1).dropLast =
      [','].intercalate (t.layout.fields.map (part v)) := by
    rw [toList_bitsRepr, List.drop_one, List.tail_cons, List.dropLast_concat]
  have hcommas : ∀ p ∈ t.layout.fields.map (part v), ',' ∉ p := by
    intro p hp
    obtain ⟨f, hf, rfl⟩ := List.mem_map.mp hp
    exact comma_not_mem_part (hnames f hf)
  unfold entries
  rw [hinner]
  generalize t.layout.fields = fields at *
  cases fields with
  | nil => rfl
  | cons f fields =>
    have hsplit := Text.splitChars_intercalate_of_not_mem (by simp) hcommas
    split
    · next hnil =>
      rw [hnil] at hsplit
      simp [Text.splitChars, part] at hsplit
    · rw [hsplit, List.map_map]
      exact List.map_congr_left fun g hg => entry_part (hnames g hg)

section
variable (hd : t.layout.Divides specs runs)
include hd

theorem isNameChar_of_mem_fields (hf : f ∈ t.layout.fields) :
    ∀ c ∈ f.name.toList, BitField.isNameChar c = true := by
  rw [hd.fields] at hf
  obtain ⟨spec, -, hdeclared, -⟩ := exists_left_of_forall₂ hd.declared (List.mem_of_mem_filter hf)
  exact hdeclared.isNameChar

theorem fieldDigits_eq (hf : f ∈ t.layout.fields) (v : Word) :
    t.fieldDigits v f = binaryDigits (f.get v).toNat f.width := by
  rw [fieldDigits, toList_bitsString, BitField.columns_binaryDigits (stop_le_width hd hf)]

theorem showsFields (hin : ∀ f ∈ t.layout.fields, ¬ (f.width = 0 ∧ f.offset = 32)) (v : Word) :
    t.ShowsFields v where
  entries := by
    rw [entries_bitsRepr (fun f hf => isNameChar_of_mem_fields hd hf)]
    exact List.map_congr_left fun f hf => by rw [fieldDigits_eq hd hf]
  value := by
    intro f hf
    have hstop := stop_le_width hd hf
    have hwidth : t.layout.width ≤ 32 := hd.width_le
    have hbits := hin f hf
    refine ⟨f.get v, BitField.get?_eq (by omega) (by omega) v, ?_, ?_, fun hcount => ?_⟩
    · rw [binaryDigits?_eq (by omega), toNat_widened, fieldDigits_eq hd hf]
    · rw [fieldDigits, toList_bitsString, BitField.readDigitsFrom_columns hstop]
    · exact getField_of_field (field_of_count hf hcount) v

end

/-! ## Patterns -/

def fieldLabel (i : Nat) : String :=
  "Field-" ++ toString i

theorem toList_fieldLabel (i : Nat) :
    (fieldLabel i).toList = ['F', 'i', 'e', 'l', 'd', '-'] ++ (toString i).toList :=
  String.toList_append

theorem fieldLabel_injective (h : fieldLabel i = fieldLabel j) : i = j := by
  rw [fieldLabel, fieldLabel, String.append_right_inj] at h
  rw [← Option.some.injEq, ← readDigits?_toString i, h, readDigits?_toString]

theorem isLabel_fieldLabel (i : Nat) : Descriptor.IsLabel (fieldLabel i) := by
  have hdigits : ∀ c ∈ (toString i).toList, Text.isAsciiDigit c = true := fun c hc =>
    isAsciiDigit_of_mem_toString hc
  constructor
  · rw [toList_fieldLabel]
    exact List.cons_ne_nil _ _
  all_goals
    rw [toList_fieldLabel, List.mem_append, not_or]
    exact ⟨by decide, fun h => absurd (hdigits _ h) (by decide)⟩

/-- Each field is shown by its pattern, which is computed within 64 bits, and what is shown beside the
labels of two fields has no ones in the same column of the patterns. -/
structure ShowsPatterns (t : ValueType) : Prop where
  shown : ∀ i f, t.layout.fields[i]? = some f →
    f.pattern? t.layout.width = some (f.pattern t.layout.width).toList ∧
    ∃ behind, Descriptor.Shows t.describe (fieldLabel i) ((f.pattern t.layout.width).toList ++ behind)
  apart : ∀ i j shown other, i ≠ j → Descriptor.Shows t.describe (fieldLabel i) shown →
    Descriptor.Shows t.describe (fieldLabel j) other →
    ∀ k < t.layout.width, ¬ (shown[k]? = some '1' ∧ other[k]? = some '1')

def fieldText (t : ValueType) (f : BitField) : String :=
  f.pattern t.layout.width ++ " " ++ f.name

def plainLabels : List String :=
  ["Name", "Description", "Type", "Invalid"]

theorem isLabel_of_mem_plainLabels {label : String} (h : label ∈ plainLabels) :
    Descriptor.IsLabel label := by
  simp only [plainLabels, List.mem_cons, List.not_mem_nil, or_false] at h
  rcases h with rfl | rfl | rfl | rfl <;> constructor <;> decide

theorem fieldLabel_not_mem_plainLabels (i : Nat) : fieldLabel i ∉ plainLabels := by
  simp [plainLabels, ← String.toList_inj, toList_fieldLabel]

section
variable {d : Descriptor} (hk : t.kind = .bits layout)
include hk

theorem kindDescriptors_eq : t.kindDescriptors =
    t.layout.fields.mapIdx fun i f => ⟨fieldLabel i, t.fieldText f⟩ := by
  simp only [kindDescriptors, ValueType.layout, hk, fieldText, fieldLabel]

theorem mem_descriptors_of_field (hf : t.layout.fields[i]? = some f) :
    ⟨fieldLabel i, t.fieldText f⟩ ∈ t.descriptors := by
  have hmem : (⟨fieldLabel i, t.fieldText f⟩ : Descriptor) ∈ t.kindDescriptors := by
    rw [kindDescriptors_eq hk]
    apply List.mem_of_getElem? (i := i)
    rw [List.getElem?_mapIdx, hf, Option.map_some]
  simp [descriptors, hmem]

theorem descriptor_cases (hd : d ∈ t.descriptors) : d.label ∈ plainLabels ∨
    ∃ i f, t.layout.fields[i]? = some f ∧ d = ⟨fieldLabel i, t.fieldText f⟩ := by
  have hoptional {label : String} {value : Option String} (hd : d ∈ optional label value) :
      d.label = label := by
    simp only [optional, Option.toList_map, List.mem_map] at hd
    obtain ⟨text, -, rfl⟩ := hd
    rfl
  simp only [descriptors, List.mem_append, List.mem_singleton] at hd
  obtain (((hd | hd) | rfl) | hd) | hd := hd
  · simp [hoptional hd, plainLabels]
  · simp [hoptional hd, plainLabels]
  · simp [plainLabels]
  · rw [kindDescriptors_eq hk] at hd
    obtain ⟨i, hi, rfl⟩ := List.mem_mapIdx.mp hd
    exact .inr ⟨i, t.layout.fields[i], List.getElem?_eq_getElem hi, rfl⟩
  · simp [hoptional hd, plainLabels]

theorem shows_describe_iff {beside : List Char} :
    Descriptor.Shows t.describe (fieldLabel i) beside ↔ ∃ f, t.layout.fields[i]? = some f ∧
      ((Text.wrap Descriptor.valueWidth (t.fieldText f)).map String.toList).head? = some beside := by
  have hne : t.descriptors ≠ [] := by simp [descriptors]
  have hlabels : ∀ d ∈ t.descriptors, Descriptor.IsLabel d.label := by
    intro d hd
    rcases descriptor_cases hk hd with hplain | ⟨i, f, -, rfl⟩
    · exact isLabel_of_mem_plainLabels hplain
    · exact isLabel_fieldLabel i
  rw [describe, Descriptor.shows_renderAll_iff hne hlabels (isLabel_fieldLabel i)]
  constructor
  · rintro ⟨d, hd, hlabel, hbeside⟩
    rcases descriptor_cases hk hd with hplain | ⟨j, f, hf, rfl⟩
    · rw [hlabel] at hplain
      exact absurd hplain (fieldLabel_not_mem_plainLabels i)
    · obtain rfl := fieldLabel_injective hlabel
      exact ⟨f, hf, hbeside⟩
  · rintro ⟨f, hf, hbeside⟩
    exact ⟨_, mem_descriptors_of_field hk hf, rfl, hbeside⟩

end

theorem exists_beside (hwidth : t.layout.width ≤ 32) (f : BitField) :
    ∃ behind, ((Text.wrap Descriptor.valueWidth (t.fieldText f)).map String.toList).head? =
      some ((f.pattern t.layout.width).toList ++ behind) := by
  have hlength := BitField.length_pattern f t.layout.width
  have hroom : 0 < Descriptor.valueWidth := by decide
  by_cases hnil : (f.pattern t.layout.width).toList = []
  · obtain ⟨s, -, -, hlines⟩ := Text.exists_filled hroom (t.fieldText f)
    rw [hnil, hlines]
    cases s.closed with
    | nil => exact ⟨_, rfl⟩
    | cons line closed => exact ⟨_, rfl⟩
  · have hdigits : ∀ c ∈ (f.pattern t.layout.width).toList, Text.isBlank c = false := by
      intro c hc
      rw [BitField.toList_pattern] at hc
      rcases mem_binaryDigits hc with rfl | rfl <;> decide
    have hwords : Text.words (t.fieldText f).toList =
        (f.pattern t.layout.width).toList :: Text.words (' ' :: f.name.toList) := by
      have htext : (t.fieldText f).toList =
          (f.pattern t.layout.width).toList ++ ' ' :: f.name.toList := by simp [fieldText]
      have hstop : ∀ c ∈ (' ' :: f.name.toList).head?, Text.isBlank c = true := by
        intro c hc
        rw [← Option.some.inj hc]
        decide
      rw [Text.words_eq_pieces, Text.words_eq_pieces, htext, Text.pieces_run hnil hdigits hstop]
    obtain ⟨behind, more, hlines⟩ := Text.wrap_of_words_cons hroom hwords (by
      rw [hlength]
      exact hwidth.trans (by decide))
    exact ⟨behind, by rw [hlines, List.head?_cons]⟩

section
variable (hd : t.layout.Divides specs runs)
include hd

theorem disjoint_of_ne (hij : i ≠ j) (hf : t.layout.fields[i]? = some f)
    (hg : t.layout.fields[j]? = some g) : f.Disjoint g := by
  have hpairwise := List.pairwise_iff_getElem.mp (pairwise_disjoint hd)
  obtain ⟨hi, rfl⟩ := List.getElem?_eq_some_iff.mp hf
  obtain ⟨hj, rfl⟩ := List.getElem?_eq_some_iff.mp hg
  rcases Nat.lt_or_gt_of_ne hij with hlt | hlt
  · exact hpairwise i j hi hj hlt
  · exact (hpairwise j i hj hi hlt).symm

theorem showsPatterns (hk : t.kind = .bits layout) : t.ShowsPatterns where
  shown := by
    intro i f hf
    have hstop := stop_le_width hd (List.mem_of_getElem? hf)
    have hwidth : t.layout.width ≤ 32 := hd.width_le
    obtain ⟨behind, hbeside⟩ := exists_beside hwidth f
    exact ⟨BitField.pattern?_eq (by omega) (by omega), behind,
      (shows_describe_iff hk).mpr ⟨f, hf, hbeside⟩⟩
  apart := by
    intro i j shown other hij hshown hother k hcolumn hones
    obtain ⟨f, hf, hbeside⟩ := (shows_describe_iff hk).mp hshown
    obtain ⟨g, hg, hbesideOther⟩ := (shows_describe_iff hk).mp hother
    obtain ⟨behind, hpattern⟩ := exists_beside hd.width_le f
    obtain ⟨behindOther, hpatternOther⟩ := exists_beside hd.width_le g
    obtain rfl := Option.some.inj (hbeside.symm.trans hpattern)
    obtain rfl := Option.some.inj (hbesideOther.symm.trans hpatternOther)
    have hcovers (r : BitField) (more : List Char)
        (hone : ((r.pattern t.layout.width).toList ++ more)[k]? = some '1') :
        r.Covers (t.layout.width - 1 - k) := by
      rw [List.getElem?_append_left (by rwa [BitField.length_pattern])] at hone
      exact (BitField.getElem?_pattern_eq_one_iff hcolumn).mp hone
    exact (disjoint_of_ne hd hij hf hg).not_covers (hcovers f behind hones.1)
      (hcovers g behindOther hones.2)

end

/-! ## Agreement -/

/-- Whatever metadata a bitfield type is given, its renderings are made of the columns that its specs
declare. A value is not shown field by field if there is a field without bits behind 32 of them. -/
theorem binary_renderings_agree {declared : ValueType} (h : bitfield specs = .ok declared)
    (ht : t.kind = declared.kind) : (∃ runs, t.layout.Divides specs runs) ∧ t.ShowsPatterns ∧
    ∀ v : Word, t.ShowsWhole v ∧
      ((∀ f ∈ t.layout.fields, ¬ (f.width = 0 ∧ f.offset = 32)) → t.ShowsFields v) := by
  obtain ⟨l, hl, rfl⟩ := map_eq_ok_iff.mp h
  obtain ⟨-, runs, hd⟩ := BitField.Layout.ofSpecs_eq_ok_iff.mp hl
  have hk : t.kind = .bits l := ht
  have hlayout : t.layout = l := by rw [layout, hk]
  rw [← hlayout] at hd
  exact ⟨⟨runs, hd⟩, showsPatterns hd hk, fun v =>
    ⟨showsWhole hd.width_le v, fun hin => showsFields hd hin v⟩⟩

/-- Padding, two fields of one name, and a help text that looks like the pattern of a field. -/
theorem binary_renderings_agree_padded :
    let specs := ["a:2", ":3", "b", "a:4"]
    let declared := ofKind (.bits ⟨[⟨"a", 0, 2⟩, ⟨"b", 5, 1⟩, ⟨"a", 6, 4⟩], 10⟩)
    let t := { declared with help := some "Field-0: 1111111111" }
    bitfield specs = .ok declared ∧ t.kind = declared.kind ∧
      (∃ runs, t.layout.Divides specs runs) ∧ t.ShowsPatterns ∧
      t.ShowsWhole 0b1010100011#32 ∧ t.ShowsFields 0b1010100011#32 ∧
      t.bitsString 0b1010100011#32 = "1010100011" ∧
      t.bitsRepr 0b1010100011#32 = "(a=11,b=1,a=1010)" := by
  intro specs declared t
  have h : bitfield specs = .ok declared := rfl
  have ht : t.kind = declared.kind := rfl
  obtain ⟨hruns, hpatterns, hvalues⟩ := binary_renderings_agree h ht
  obtain ⟨hwhole, hfields⟩ := hvalues 0b1010100011#32
  exact ⟨h, ht, hruns, hpatterns, hwhole, hfields (by decide), by decide +kernel, by decide +kernel⟩

end ActorHub.ValueType
