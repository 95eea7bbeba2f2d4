import ActorHub.Proofs.BitField.Access
import ActorHub.Proofs.Number.Radix
import ActorHub.Proofs.Outcome
import ActorHub.ValueType.Basic
import Mathlib.Data.List.TakeWhile

/-!
# Layouts of bit fields

A list of specs is accepted just where every spec is well formed and 32 bits are enough for them. The runs
of bits that the specs declare, padding among them, follow one another from the lowest bit on.
-/

namespace ActorHub

namespace BitField

/-! ## Specs -/

/-- The name that a spec declares, empty for padding, and the width: one bit where it is not written. -/
inductive Declares : List Char → List Char → Nat → Prop
  | bit {name : List Char} : (∀ c ∈ name, isNameChar c = true) → Declares name name 1
  | wide {name ds : List Char} {width : Nat} : (∀ c ∈ name, isNameChar c = true) →
      Number.readDigits? 10 ds = some width → Declares (name ++ ':' :: ds) name width

section
variable {cs name : List Char} {width : Nat}

theorem Declares.isNameChar (h : Declares cs name width) : ∀ c ∈ name, BitField.isNameChar c = true := by
  cases h with
  | bit hname => exact hname
  | wide hname _ => exact hname

def specWidth : Option (List Char) → Nat
  | none => 1
  | some ds => (Number.readDigits? 10 ds).getD 0

theorem splitSpec_of_declares (h : Declares cs name width) :
    ∃ digits, splitSpec cs = some (name, digits) ∧ specWidth digits = width := by
  cases h with
  | bit hname =>
    refine ⟨none, ?_, rfl⟩
    rw [splitSpec, List.takeWhile_eq_self_iff.mpr hname, List.dropWhile_eq_nil_iff.mpr hname]
  | @wide _ ds _ hname hds =>
    refine ⟨some ds, ?_, by rw [specWidth, hds, Option.getD_some]⟩
    have hstop : ∀ c ∈ (':' :: ds).head?, isNameChar c = false := by
      intro c hc
      rw [← Option.some.inj hc]
      decide
    obtain ⟨hne, hall, -⟩ := Number.readDigits?_ten_eq_some_iff.mp hds
    rw [splitSpec, takeWhile_append_of_stop hname hstop, dropWhile_append_of_stop hname hstop]
    exact if_pos (by simp [hne, List.all_eq_true.mpr hall])

theorem declares_of_splitSpec {digits : Option (List Char)} (h : splitSpec cs = some (name, digits)) :
    Declares cs name (specWidth digits) := by
  have hcs := List.takeWhile_append_dropWhile (p := isNameChar) (l := cs)
  have hname : ∀ c ∈ cs.takeWhile isNameChar, isNameChar c = true := fun c hc =>
    List.mem_takeWhile_imp hc
  unfold splitSpec at h
  split at h
  · next hdrop =>
    cases h
    rw [hdrop, List.append_nil] at hcs
    rw [hcs] at hname ⊢
    exact .bit hname
  · next ds hdrop =>
    rw [hdrop] at hcs
    split at h
    · next hds =>
      cases h
      simp only [Bool.and_eq_true, bne_iff_ne, List.all_eq_true] at hds
      have hread := Number.readDigits?_ten_eq_some_iff.mpr ⟨hds.1, hds.2, rfl⟩
      have hwide := Declares.wide hname hread
      rwa [hcs, ← Option.getD_some (a := Nat.ofDigitChars 10 ds 0), ← hread] at hwide
    · cases h
  · cases h

end

def DeclaredBy (spec : String) (r : BitField) : Prop :=
  Declares spec.toList r.name.toList r.width ∧ r.name ≠ "native"

/-! ## Runs -/

/-- Runs of bits one after another, from one offset to another. -/
inductive Tiles : Nat → List BitField → Nat → Prop
  | nil {a : Nat} : Tiles a [] a
  | cons {r : BitField} {rs : List BitField} {b : Nat} : Tiles (r.offset + r.width) rs b →
      Tiles r.offset (r :: rs) b

def isNamed (r : BitField) : Bool :=
  r.name != ""

section
variable {a b : Nat} {r : BitField} {rs : List BitField}

theorem Tiles.le (h : Tiles a rs b) : a ≤ b ∧ ∀ r ∈ rs, a ≤ r.offset ∧ r.offset + r.width ≤ b := by
  induction h with
  | nil => exact ⟨Nat.le_refl _, by simp⟩
  | cons _ ih =>
    refine ⟨by omega, List.forall_mem_cons.mpr ⟨⟨Nat.le_refl _, ih.1⟩, fun r hr => ?_⟩⟩
    have := ih.2 r hr
    omega

theorem Tiles.pairwise (h : Tiles a rs b) :
    rs.Pairwise fun r s => r.offset + r.width ≤ s.offset := by
  induction h with
  | nil => exact .nil
  | cons h ih => exact .cons (fun s hs => (h.le.2 s hs).1) ih

end

/-! ## Declarations -/

namespace Layout

variable {l l' : Layout} {spec : String} {specs : List String}

theorem add_of_splitSpec {name : List Char} {digits : Option (List Char)}
    (h : splitSpec spec.toList = some (name, digits)) : l.add spec =
      if widthBound ≤ specWidth digits then .error .bitfieldTooWide
      else if String.ofList name = "native" then .error .nativeBitfield
      else if maxWidth < l.width + specWidth digits then .error .bitfieldTooWide
      else .ok ⟨if name = [] then l.fields
        else l.fields ++ [⟨String.ofList name, l.width, specWidth digits⟩], l.width + specWidth digits⟩ := by
  unfold add
  rw [h]
  cases digits with
  | none | some ds =>
    dsimp only [specWidth]
    split_ifs <;> rfl

theorem add_eq_ok_iff : l.add spec = .ok l' ↔ ∃ r, DeclaredBy spec r ∧ r.offset = l.width ∧
    r.offset + r.width ≤ maxWidth ∧ l' = ⟨l.fields ++ [r].filter isNamed, r.offset + r.width⟩ := by
  have hfields (name : List Char) (width : Nat) :
      (if name = [] then l.fields else l.fields ++ [⟨String.ofList name, l.width, width⟩]) =
        l.fields ++ [⟨String.ofList name, l.width, width⟩].filter isNamed := by
    by_cases hn : name = []
    · rw [if_pos hn, hn]
      exact (List.append_nil _).symm
    · have hnamed : isNamed ⟨String.ofList name, l.width, width⟩ = true := by simpa [isNamed] using hn
      rw [if_neg hn, List.filter_cons_of_pos hnamed, List.filter_nil]
  constructor
  · intro h
    cases hsplit : splitSpec spec.toList with
    | none =>
      unfold add at h
      rw [hsplit] at h
      cases h
    | some p =>
      obtain ⟨name, digits⟩ := p
      rw [add_of_splitSpec hsplit, hfields] at h
      split at h
      · cases h
      split at h
      · cases h
      split at h
      · cases h
      next hnative hroom =>
      refine ⟨⟨String.ofList name, l.width, specWidth digits⟩, ⟨?_, hnative⟩, rfl, Nat.le_of_not_lt hroom,
        (Except.ok.inj h).symm⟩
      rw [String.toList_ofList]
      exact declares_of_splitSpec hsplit
  · intro he
    obtain ⟨⟨name, offset, width⟩, ⟨hdeclares, hnative⟩, rfl, hroom, rfl⟩ := he
    obtain ⟨digits, hsplit, rfl⟩ := splitSpec_of_declares hdeclares
    have hbound : ¬ widthBound ≤ specWidth digits := by
      simp only [maxWidth] at hroom
      simp only [widthBound, UInt32.size]
      omega
    rw [add_of_splitSpec hsplit, hfields, String.ofList_toList, if_neg hbound, if_neg hnative,
      if_neg (Nat.not_lt.mpr hroom)]

theorem foldlM_add_eq_ok_iff (hl : l.width ≤ maxWidth) : specs.foldlM add l = .ok l' ↔
    ∃ runs, List.Forall₂ DeclaredBy specs runs ∧ Tiles l.width runs l'.width ∧ l'.width ≤ maxWidth ∧
      l'.fields = l.fields ++ runs.filter isNamed := by
  induction specs generalizing l with
  | nil =>
    rw [List.foldlM_nil, pure_eq_ok_iff]
    constructor
    · rintro rfl
      exact ⟨[], .nil, .nil, hl, (List.append_nil _).symm⟩
    · rintro ⟨runs, hruns, htiles, -, hfields⟩
      cases hruns
      obtain ⟨fields, width⟩ := l
      obtain ⟨fields', width'⟩ := l'
      dsimp only at htiles hfields
      cases htiles
      rw [hfields, List.filter_nil, List.append_nil]
  | cons spec specs ih =>
    have hnamed (r : BitField) (runs : List BitField) :
        l.fields ++ [r].filter isNamed ++ runs.filter isNamed =
          l.fields ++ (r :: runs).filter isNamed := by
      rw [List.append_assoc, ← List.filter_append, List.singleton_append]
    rw [List.foldlM_cons, bind_eq_ok_iff]
    constructor
    · rintro ⟨m, hm, h⟩
      obtain ⟨r, hr, hoffset, hroom, rfl⟩ := add_eq_ok_iff.mp hm
      obtain ⟨runs, hruns, htiles, hwidth, hfields⟩ := (ih hroom).mp h
      exact ⟨r :: runs, .cons hr hruns, hoffset ▸ .cons htiles, hwidth, hfields.trans (hnamed r runs)⟩
    · rintro ⟨_, hall, htiles, hwidth, hfields⟩
      cases hall with
      | @cons _ r _ runs hr hruns =>
      generalize ha : l.width = a at htiles
      cases htiles with
      | cons htiles =>
      have hroom : r.offset + r.width ≤ maxWidth := htiles.le.1.trans hwidth
      exact ⟨_, add_eq_ok_iff.mpr ⟨r, hr, ha.symm, hroom, rfl⟩, (ih hroom).mpr
        ⟨runs, hruns, htiles, hwidth, hfields.trans (hnamed r runs).symm⟩⟩

/-- The runs that specs declare fill the layout from its lowest bit on, and its fields are those with a
name. -/
structure Divides (l : Layout) (specs : List String) (runs : List BitField) : Prop where
  declared : List.Forall₂ DeclaredBy specs runs
  tiles : Tiles 0 runs l.width
  width_le : l.width ≤ maxWidth
  fields : l.fields = runs.filter isNamed

theorem ofSpecs_eq_ok_iff : ofSpecs specs = .ok l ↔ specs ≠ [] ∧ ∃ runs, l.Divides specs runs := by
  have hempty : Layout.empty.width ≤ maxWidth := Nat.zero_le _
  cases specs with
  | nil => exact ⟨nofun, fun h => absurd rfl h.1⟩
  | cons spec specs =>
    rw [show ofSpecs (spec :: specs) = (spec :: specs).foldlM add Layout.empty from rfl,
      foldlM_add_eq_ok_iff hempty]
    constructor
    · rintro ⟨runs, hruns, htiles, hwidth, hfields⟩
      exact ⟨List.cons_ne_nil _ _, runs, hruns, htiles, hwidth, hfields⟩
    · rintro ⟨-, runs, hruns⟩
      exact ⟨runs, hruns.declared, hruns.tiles, hruns.width_le, hruns.fields⟩

end Layout

end BitField

end ActorHub
