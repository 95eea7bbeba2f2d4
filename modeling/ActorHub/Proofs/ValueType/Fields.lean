import ActorHub.Proofs.BitField.Layout
import Mathlib.Data.List.Pairwise

/-!
# Fields by name

A bitfield type reads and replaces the first field with a name. Its fields are apart from one another, so
that what is put into one is read back from it and from no other, and each access stays within the word.
-/

namespace ActorHub.ValueType

variable {t : ValueType} {name other : String} {f g : BitField} {specs : List String}

/-! ## Named fields -/

theorem field_eq_ok_iff : t.field name = .ok f ↔
    t.layout.fields.find? (·.name == name) = some f := by
  unfold field
  cases t.layout.fields.find? (·.name == name) <;> simp

theorem name_of_field (h : t.field name = .ok f) : f.name = name := by
  have hname := List.find?_some (field_eq_ok_iff.mp h)
  exact beq_iff_eq.mp hname

theorem mem_of_field (h : t.field name = .ok f) : f ∈ t.layout.fields :=
  List.mem_of_find?_eq_some (field_eq_ok_iff.mp h)

theorem exists_field (h : name ∈ t.layout.fields.map BitField.name) : ∃ f, t.field name = .ok f := by
  obtain ⟨g, hg, hname⟩ := List.mem_map.mp h
  have hsome : (t.layout.fields.find? (·.name == name)).isSome = true :=
    List.find?_isSome.mpr ⟨g, hg, beq_iff_eq.mpr hname⟩
  exact (Option.isSome_iff_exists.mp hsome).imp fun f hf => field_eq_ok_iff.mpr hf

theorem getField_of_field (h : t.field name = .ok f) (v : Word) : t.getField v name = .ok (f.get v) := by
  rw [getField, h]
  rfl

theorem setField_of_field (h : t.field name = .ok f) (v x : Word) :
    t.setField v name x = .ok (f.set v x) := by
  rw [setField, h]
  rfl

/-! ## Access -/

/-- What is put into a field is read back as far as the field is wide, what is read may be put back, no
other bit and no other field changes, and the words at each step are those of machine arithmetic. -/
structure Accessible (t : ValueType) (name : String) (f : BitField) : Prop where
  get_set (v x : Word) : ∃ u, t.setField v name x = .ok u ∧ f.set? v x = some u ∧
    t.getField u name = .ok (BitVec.ofNat 32 (x.toNat % Nat.pow 2 f.width)) ∧
    (∀ i < 32, i < f.offset ∨ f.offset + f.width ≤ i → u.getLsbD i = v.getLsbD i) ∧
    ∀ other, other ≠ name → t.getField u other = t.getField v other
  set_get (v : Word) : ∃ y, t.getField v name = .ok y ∧ f.get? v = some y ∧ t.setField v name y = .ok v

section
variable {runs : List BitField} (hd : t.layout.Divides specs runs)

include hd in
theorem pairwise_disjoint : t.layout.fields.Pairwise BitField.Disjoint := by
  rw [hd.fields]
  exact (hd.tiles.pairwise.imp fun h => .inl h).sublist List.filter_sublist

include hd in
theorem disjoint_of_field (hf : t.field name = .ok f) (hg : t.field other = .ok g)
    (hne : other ≠ name) : f.Disjoint g := by
  have : Std.Symm BitField.Disjoint := ⟨fun _ _ h => h.symm⟩
  refine (pairwise_disjoint hd).forall (mem_of_field hf) (mem_of_field hg) ?_
  rintro rfl
  exact hne ((name_of_field hg).symm.trans (name_of_field hf))

include hd in
theorem stop_le_width (hf : f ∈ t.layout.fields) : f.offset + f.width ≤ t.layout.width := by
  rw [hd.fields] at hf
  exact (hd.tiles.le.2 f (List.mem_of_mem_filter hf)).2

include hd in
theorem stop_le_of_mem (hf : f ∈ t.layout.fields) : f.offset + f.width ≤ 32 :=
  (stop_le_width hd hf).trans hd.width_le

include hd in
theorem accessible_of_field (hf : t.field name = .ok f) (hin : ¬ (f.width = 0 ∧ f.offset = 32)) :
    t.Accessible name f := by
  have hstop := stop_le_of_mem hd (mem_of_field hf)
  have hwidth : f.width ≤ 32 := by omega
  have hoffset : f.offset < 32 := by omega
  constructor
  · intro v x
    refine ⟨f.set v x, setField_of_field hf v x, BitField.set?_eq hwidth hoffset v x, ?_,
      fun i hi hout => BitField.getLsbD_set_outside hi hout, fun other hne => ?_⟩
    · rw [getField_of_field hf, BitField.get_set hstop]
    · cases hg : t.field other with
      | error e => rw [getField, getField, hg]; rfl
      | ok g =>
        rw [getField_of_field hg, getField_of_field hg,
          BitField.get_set_of_disjoint (disjoint_of_field hd hf hg hne)]
  · intro v
    refine ⟨f.get v, getField_of_field hf v, BitField.get?_eq hwidth hoffset v, ?_⟩
    rw [setField_of_field hf, BitField.set_get]

end

/-- The specs of a bitfield divide up to 32 bits from the lowest on, and every name gives access to the
first field that has it, unless that field has no bits and lies behind the last one. -/
theorem bitfield_fields_apart {specs : List String} {t : ValueType} (h : bitfield specs = .ok t) :
    (∃ runs, t.layout.Divides specs runs ∧
      runs.Pairwise (fun r s => r.offset + r.width ≤ s.offset) ∧
      ∀ r ∈ runs, r.offset + r.width ≤ 32 ∧ r.mask? = some r.mask) ∧
    ∀ name ∈ t.layout.fields.map BitField.name, ∃ f, t.field name = .ok f ∧
      (¬ (f.width = 0 ∧ f.offset = 32) → t.Accessible name f) := by
  obtain ⟨l, hl, rfl⟩ := map_eq_ok_iff.mp h
  obtain ⟨-, runs, hd⟩ := BitField.Layout.ofSpecs_eq_ok_iff.mp hl
  refine ⟨⟨runs, hd, hd.tiles.pairwise, fun r hr => ?_⟩, fun name hname => ?_⟩
  · have hstop : r.offset + r.width ≤ 32 := (hd.tiles.le.2 r hr).2.trans hd.width_le
    exact ⟨hstop, BitField.mask?_eq (by omega)⟩
  · obtain ⟨f, hf⟩ := exists_field hname
    exact ⟨f, hf, accessible_of_field hd hf⟩

/-- Two fields of one name, padding, and a field without bits behind 32 of them: the first of the two is
the one that is accessed. -/
theorem bitfield_fields_apart_full :
    let specs := ["a:2", ":3", "b", "a:10", "c:016", "z:0"]
    let t := ofKind (.bits ⟨[⟨"a", 0, 2⟩, ⟨"b", 5, 1⟩, ⟨"a", 6, 10⟩, ⟨"c", 16, 16⟩, ⟨"z", 32, 0⟩], 32⟩)
    bitfield specs = .ok t ∧
      (∃ runs, t.layout.Divides specs runs ∧
        runs.Pairwise (fun r s => r.offset + r.width ≤ s.offset) ∧
        ∀ r ∈ runs, r.offset + r.width ≤ 32 ∧ r.mask? = some r.mask) ∧
      "a" ∈ t.layout.fields.map BitField.name ∧ t.field "a" = .ok ⟨"a", 0, 2⟩ ∧
      t.Accessible "a" ⟨"a", 0, 2⟩ := by
  intro specs t
  have h : bitfield specs = .ok t := rfl
  obtain ⟨hruns, hfields⟩ := bitfield_fields_apart h
  have hname : "a" ∈ t.layout.fields.map BitField.name := List.mem_cons_self
  have hfield : t.field "a" = .ok ⟨"a", 0, 2⟩ := rfl
  obtain ⟨f, hf, haccess⟩ := hfields "a" hname
  obtain rfl := Except.ok.inj (hfield.symm.trans hf)
  exact ⟨h, hruns, hname, hfield, haccess (by decide)⟩

end ActorHub.ValueType
