import ActorHub.Proofs.ValueShape.Plain
import ActorHub.Proofs.ValueShape.Segments

/-!
# Typing what is typed

A plain shape takes the texts that show the values it has made, and makes equal values of them. Each
integer among the values is the one that its text spells and lies in the range of its kind.
-/

namespace ActorHub

/-! ## Integers -/

/-- An integer is what its text spells and lies in the range of its kind. A word stands for a number
below zero as a sign bit and a magnitude. -/
def TypedValue.Spelled (text : String) : TypedValue → Prop
  | int n => IntLiteral.read text = .ok n ∧ -0x7fffffff ≤ n ∧ n ≤ 0x7fffffff
  | long n => IntLiteral.read text = .ok n ∧ -0x8000000000000000 ≤ n ∧ n ≤ 0x7fffffffffffffff
  | uint w | bits w => ∃ n, IntLiteral.read text = .ok n ∧ -0x7fffffff ≤ n ∧ n ≤ 0xffffffff ∧
      (w.toNat : Int) = if n < 0 then 0x80000000 - n else n
  | _ => True

namespace ValueType

variable {t : ValueType} {ts : List ValueType} {text : String} {texts rest : List String}
variable {v : TypedValue} {vs : List TypedValue}

theorem toNat_signed {m : Nat} (hm : m ≤ 0x7fffffff) :
    (0x80000000#32 ||| BitVec.ofNat 32 m).toNat = 0x80000000 + m := by
  have hor := Nat.two_pow_add_eq_or_of_lt (i := 31) (b := m) (by omega) 1
  rw [BitVec.toNat_or, BitVec.toNat_ofNat, BitVec.toNat_ofNat, Nat.mod_eq_of_lt (by omega),
    Nat.mod_eq_of_lt (by omega)]
  exact hor.symm

theorem spelled_of_readWord {w : Word} (h : t.readWord text = .ok w) :
    ∃ n, IntLiteral.read text = .ok n ∧ -0x7fffffff ≤ n ∧ n ≤ 0xffffffff ∧
      (w.toNat : Int) = if n < 0 then 0x80000000 - n else n := by
  obtain ⟨n, hn, hw⟩ := bind_eq_ok_iff.mp h
  obtain ⟨hread, hlow, hhigh⟩ := readBetween_eq_ok_iff.mp hn
  simp only [intLimit, uintLimit] at hlow hhigh
  refine ⟨n, hread, hlow, hhigh, ?_⟩
  rw [← pure_eq_ok_iff.mp hw]
  split
  · rw [toNat_signed (by omega)]
    omega
  · rw [BitVec.toNat_ofNat, Nat.mod_eq_of_lt (by omega)]
    omega

theorem spelled_of_accept? (ht : t.IsPlain) (h : t.accept? text = some v) : v.Spelled text := by
  rw [accept?_eq_some_iff ht] at h
  have hexact := ht.exact
  cases hk : t.kind with
  | float | double => simp [hk, ValueKind.isExact] at hexact
  | int | long =>
    simp only [readValid, hk, map_eq_ok_iff] at h
    obtain ⟨n, hn, rfl⟩ := h
    exact readBetween_eq_ok_iff.mp hn
  | uint | bits layout =>
    simp only [readValid, hk, map_eq_ok_iff] at h
    obtain ⟨w, hw, rfl⟩ := h
    exact spelled_of_readWord hw
  | string =>
    simp only [readValid, hk, Except.ok.injEq] at h
    rw [← h]
    trivial
  | enum labels help =>
    simp only [readValid, hk] at h
    obtain ⟨label, -, i, rfl⟩ := mem_labels_of_readLabel h
    trivial
  | bool falseLabel trueLabel =>
    rcases (readValid_bool_iff hk).mp h with ⟨-, rfl⟩ | ⟨-, -, rfl⟩ <;> trivial

/-! ## Rows -/

theorem spelled_of_takeEach (ht : ∀ t ∈ ts, t.IsPlain) (h : takeEach ts texts = some (vs, [])) :
    List.Forall₂ (fun text v => v.Spelled text) texts vs := by
  induction ts generalizing texts vs with
  | nil =>
    cases h
    exact .nil
  | cons t ts ih =>
    obtain ⟨text, more, v, ws, rfl, hv, hws, rfl⟩ := takeEach_cons_iff.mp h
    exact .cons (spelled_of_accept? (ht t List.mem_cons_self) hv)
      (ih (fun u hu => ht u (List.mem_cons_of_mem t hu)) hws)

theorem takeEach_display (ht : ∀ t ∈ ts, t.IsPlain) (h : takeEach ts texts = some (vs, rest)) :
    ∃ vs', takeEach ts (vs.map TypedValue.display) = some (vs', []) ∧
      TypedValue.equalsEach vs' vs = true := by
  induction ts generalizing texts vs with
  | nil =>
    cases h
    exact ⟨[], rfl, rfl⟩
  | cons t ts ih =>
    obtain ⟨text, more, v, ws, rfl, hv, hws, rfl⟩ := takeEach_cons_iff.mp h
    obtain ⟨v', hv', he⟩ := accept?_display (ht t List.mem_cons_self) hv
    obtain ⟨ws', hws', hes⟩ := ih (fun u hu => ht u (List.mem_cons_of_mem t hu)) hws
    refine ⟨v' :: ws', takeEach_cons_iff.mpr ⟨_, _, v', ws', rfl, hv', hws', rfl⟩, ?_⟩
    rw [TypedValue.equalsEach, he, hes, Bool.and_self]

end ValueType

/-! ## Shapes -/

namespace ValueShape

/-- What a plain shape makes of a list of values it takes again, for equal values, and the integers
that it makes are those the list spells. -/
theorem consume_again {specs : List ValueSpec} {s : ValueShape} (h : ofSpecs specs = .ok s)
    (hplain : ∀ spec ∈ specs, spec.IsPlain) {values w : Values} (hw : s.consume values = some w) :
    ∃ vs vs', w = vs.map .typed ∧ s.consume w = some (vs'.map .typed) ∧
      TypedValue.equalsEach vs' vs = true ∧
      List.Forall₂ (fun value v => TypedValue.Spelled value.display v) values vs := by
  obtain ⟨rfl, -⟩ := ofSpecs_eq_ok_iff.mp h
  obtain ⟨vs, hvs, rfl⟩ := Option.map_eq_some_iff.mp hw
  obtain ⟨types, hslots, htypes⟩ := (typed?_eq_some_iff hplain).mp hvs
  have htplain := hslots.isPlain hplain
  -- the row that typed the values types their texts, and there are as many of them
  obtain ⟨vs', hvs', he⟩ := ValueType.takeEach_display htplain htypes
  have hagain : s.typed? (vs.map TypedValue.display) = some vs' :=
    (typed?_eq_some_iff hplain).mpr ⟨types, hslots, hvs'⟩
  have htexts : (vs.map Value.typed).map Value.display = vs.map TypedValue.display := by
    rw [List.map_map]
    rfl
  refine ⟨vs, vs', rfl, ?_, he, ?_⟩
  · rw [consume, htexts, hagain, Option.map_some]
  · exact List.forall₂_map_left_iff.mp (ValueType.spelled_of_takeEach htplain htypes)

/-- A word below zero, labels that differ only in case or look like indices, and long integers: the
second label is taken for the first one when its own text is read. -/
theorem consume_again_folded :
    let state : ValueType := .ofKind (.enum ["on", "ON", "0"] none)
    let specs : List ValueSpec := [.single (.ofKind .uint), .repeated (.exactly state 2),
      .repeated ⟨.ofKind .long, 1, none, by simp⟩]
    let values : Values := [.raw "-0x5", .raw "1", .raw "0", .raw "-0", .raw " 0b1_0"]
    let w : Values := [.typed (.uint 0x80000005), .typed (.enum "ON" 1), .typed (.enum "0" 2),
      .typed (.long 0), .typed (.long 2)]
    ∃ s, ofSpecs specs = .ok s ∧ s.consume values = some w ∧
      ∃ vs vs', w = vs.map .typed ∧ s.consume w = some (vs'.map .typed) ∧
        TypedValue.equalsEach vs' vs = true ∧
        List.Forall₂ (fun value v => TypedValue.Spelled value.display v) values vs := by
  intro state specs values w
  have h : ofSpecs specs = .ok (counted specs rfl) := rfl
  have hplain : ∀ spec ∈ specs, spec.IsPlain := by
    intro spec hspec
    simp only [specs, List.mem_cons, List.not_mem_nil, or_false] at hspec
    rcases hspec with rfl | rfl | rfl <;> exact ⟨_, rfl, rfl, rfl⟩
  have hw : consume (counted specs rfl) values = some w := rfl
  exact ⟨_, h, hw, consume_again h hplain hw⟩

end ValueShape

end ActorHub
