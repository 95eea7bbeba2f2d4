import ActorHub.Number.Radix
import ActorHub.Proofs.BitField.Access
import Mathlib.Data.List.Basic

/-!
# Binary digits of fields

A number is written with its highest bit first, so that a field stands in columns that are counted from the
right end of the text. The digits of a word in these columns are the digits of the field, and the pattern
of the field has its ones there and nowhere else.
-/

namespace ActorHub

variable {n m total width offset k : Nat}

/-! ## Digits of numbers -/

def binaryDigit (b : Bool) : Char :=
  if b then '1' else '0'

@[simp] theorem binaryDigit_eq_one_iff {b : Bool} : binaryDigit b = '1' ↔ b = true := by
  cases b <;> simp [binaryDigit]

theorem digitValue?_binaryDigit (b : Bool) : Number.digitValue? 2 (binaryDigit b) = some b.toNat := by
  cases b <;> rfl

theorem binaryDigits_eq (n width : Nat) :
    binaryDigits n width = (List.range width).reverse.map fun i => binaryDigit (n.testBit i) :=
  rfl

theorem binaryDigits_succ (n width : Nat) :
    binaryDigits n (width + 1) = binaryDigit (n.testBit width) :: binaryDigits n width := by
  simp [binaryDigits_eq, List.range_succ]

@[simp] theorem length_binaryDigits (n width : Nat) : (binaryDigits n width).length = width := by
  simp [binaryDigits_eq]

theorem getElem?_binaryDigits (hk : k < width) :
    (binaryDigits n width)[k]? = some (binaryDigit (n.testBit (width - 1 - k))) := by
  simp [binaryDigits_eq, hk]

theorem mem_binaryDigits {c : Char} (hc : c ∈ binaryDigits n width) : c = '0' ∨ c = '1' := by
  rw [binaryDigits_eq, List.mem_map] at hc
  obtain ⟨i, -, rfl⟩ := hc
  cases n.testBit i <;> simp [binaryDigit]

theorem mod_two_pow_succ (n width : Nat) : n % Nat.pow 2 (width + 1) =
    (n.testBit width).toNat * Nat.pow 2 width + n % Nat.pow 2 width := by
  have hbit : (n.testBit width).toNat = n / 2 ^ width % 2 := by
    rw [Nat.testBit_eq_decide_div_mod_eq]
    rcases Nat.mod_two_eq_zero_or_one (n / 2 ^ width) with h | h <;> simp [h]
  rw [hbit, Nat.pow_eq, Nat.pow_eq, Nat.mod_pow_succ, Nat.add_comm, Nat.mul_comm]

theorem readDigitsFrom_binaryDigits (m n width : Nat) : Number.readDigitsFrom 2 m (binaryDigits n width) =
    some (m * Nat.pow 2 width + n % Nat.pow 2 width) := by
  induction width generalizing m with
  | zero => simp [binaryDigits_eq, Number.readDigitsFrom, Nat.mod_one]
  | succ width ih =>
    have hpow : Nat.pow 2 (width + 1) = 2 * Nat.pow 2 width := Nat.pow_succ'
    rw [binaryDigits_succ, Number.readDigitsFrom, digitValue?_binaryDigit, Option.bind_some, ih,
      mod_two_pow_succ, hpow, Nat.add_mul, Nat.mul_assoc, Nat.add_assoc]

theorem slice_binaryDigits (n : Nat) (h : offset + width ≤ total) :
    ((binaryDigits n total).drop (total - (offset + width))).take width =
      binaryDigits (n >>> offset) width := by
  apply List.ext_getElem?
  intro k
  by_cases hk : k < width
  · have hcolumn : total - 1 - (total - (offset + width) + k) = offset + (width - 1 - k) := by omega
    rw [List.getElem?_take_of_lt hk, List.getElem?_drop, getElem?_binaryDigits hk,
      getElem?_binaryDigits (by omega), hcolumn, Nat.testBit_shiftRight]
  · rw [List.getElem?_eq_none (by simp; omega), List.getElem?_eq_none (by simp; omega)]

theorem binaryDigits_congr (h : ∀ i < width, n.testBit i = m.testBit i) :
    binaryDigits n width = binaryDigits m width := by
  rw [binaryDigits_eq, binaryDigits_eq]
  apply List.map_congr_left
  intro i hi
  rw [h i (List.mem_range.mp (List.mem_reverse.mp hi))]

namespace BitField

variable {f g : BitField} {v : Word}

/-! ## Digits of fields -/

/-- The digits of a text of the given width in the columns of the field. -/
def columns (f : BitField) (total : Nat) (digits : List Char) : List Char :=
  (digits.drop (total - (f.offset + f.width))).take f.width

theorem columns_binaryDigits (h : f.offset + f.width ≤ total) (v : Word) :
    f.columns total (binaryDigits v.toNat total) = binaryDigits (f.get v).toNat f.width := by
  rw [columns, slice_binaryDigits v.toNat h]
  apply binaryDigits_congr
  intro i hi
  rw [Nat.testBit_shiftRight, BitVec.testBit_toNat, BitVec.testBit_toNat, getLsbD_get, decide_eq_true hi,
    Bool.and_true]

theorem toNat_get_lt (f : BitField) (v : Word) : (f.get v).toNat < Nat.pow 2 f.width := by
  apply Nat.lt_pow_two_of_testBit
  intro i hi
  rw [BitVec.testBit_toNat, getLsbD_get, decide_eq_false (by omega), Bool.and_false]

theorem readDigitsFrom_columns (h : f.offset + f.width ≤ total) (v : Word) :
    Number.readDigitsFrom 2 0 (f.columns total (binaryDigits v.toNat total)) = some (f.get v).toNat := by
  rw [columns_binaryDigits h, readDigitsFrom_binaryDigits, Nat.zero_mul, Nat.zero_add,
    Nat.mod_eq_of_lt (f.toNat_get_lt v)]

theorem toList_pattern (f : BitField) (total : Nat) : (f.pattern total).toList =
    binaryDigits ((Nat.pow 2 f.width - 1) * Nat.pow 2 f.offset) total := by
  rw [pattern, binary, String.toList_ofList]

theorem length_pattern (f : BitField) (total : Nat) : (f.pattern total).toList.length = total := by
  rw [toList_pattern, length_binaryDigits]

def Covers (f : BitField) (i : Nat) : Prop :=
  f.offset ≤ i ∧ i < f.offset + f.width

theorem Disjoint.not_covers {i : Nat} (h : f.Disjoint g) (hf : f.Covers i) : ¬ g.Covers i := by
  intro hg
  unfold Disjoint at h
  unfold Covers at hf hg
  omega

theorem getElem?_pattern_eq_one_iff (hk : k < total) :
    (f.pattern total).toList[k]? = some '1' ↔ f.Covers (total - 1 - k) := by
  rw [toList_pattern, getElem?_binaryDigits hk, Option.some.injEq, binaryDigit_eq_one_iff, Nat.pow_eq,
    Nat.pow_eq, Nat.testBit_mul_two_pow, Nat.testBit_two_pow_sub_one]
  simp only [Covers, Bool.and_eq_true, decide_eq_true_eq]
  omega

end BitField

/-! ## Machine arithmetic -/

open Machine

def binaryDigit? (x : BitVec 64) (i : Nat) : Option Char := do
  return if (← shiftRight? x i) &&& 1#64 = 1#64 then '1' else '0'

def binaryDigits? (x : BitVec 64) (width : Nat) : Option (List Char) :=
  (List.range width).reverse.mapM (binaryDigit? x)

theorem binaryDigit?_eq {i : Nat} (hi : i < 64) (x : BitVec 64) :
    binaryDigit? x i = some (binaryDigit (x.toNat.testBit i)) := by
  have hlow : ((x >>> i) &&& 1#64 = 1#64) ↔ x.getLsbD i = true := by
    rw [BitVec.and_one_eq_setWidth_ofBool_getLsbD, BitVec.getLsbD_ushiftRight, Nat.add_zero]
    cases x.getLsbD i <;> decide
  simp only [binaryDigit?, shiftRight?, if_pos hi, Option.bind_eq_bind, Option.bind_some, Option.pure_def,
    hlow, BitVec.testBit_toNat, binaryDigit]

theorem binaryDigits?_eq (hwidth : width ≤ 64) (x : BitVec 64) :
    binaryDigits? x width = some (binaryDigits x.toNat width) := by
  have hdigits : ∀ is : List Nat, (∀ i ∈ is, i < 64) →
      is.mapM (binaryDigit? x) = some (is.map fun i => binaryDigit (x.toNat.testBit i)) := by
    intro is his
    induction is with
    | nil => rfl
    | cons i is ih =>
      rw [List.mapM_cons, binaryDigit?_eq (his i List.mem_cons_self),
        ih fun j hj => his j (List.mem_cons_of_mem i hj)]
      rfl
  apply hdigits
  intro i hi
  have := List.mem_range.mp (List.mem_reverse.mp hi)
  omega

namespace BitField

variable {f : BitField} {v : Word}

/-- The pattern of a field. Its mask is moved in 64 bits. -/
def pattern? (f : BitField) (total : Nat) : Option (List Char) := do
  binaryDigits? (← shiftLeft? ((← f.mask?).setWidth 64) f.offset) total

theorem pattern?_eq (hstop : f.offset + f.width ≤ 32) (htotal : total ≤ 64) :
    f.pattern? total = some (f.pattern total).toList := by
  have hmoved : ((f.mask.setWidth 64) <<< f.offset).toNat =
      (Nat.pow 2 f.width - 1) * Nat.pow 2 f.offset := by
    apply Nat.eq_of_testBit_eq
    intro i
    rw [BitVec.testBit_toNat, BitVec.getLsbD_shiftLeft, BitVec.getLsbD_setWidth, getLsbD_mask, Nat.pow_eq,
      Nat.pow_eq, Nat.testBit_mul_two_pow, Nat.testBit_two_pow_sub_one]
    by_cases hlow : f.offset ≤ i
    · by_cases hhigh : i - f.offset < f.width
      · simp [hlow, hhigh, show i < 64 by omega, show i - f.offset < 64 by omega,
          show i - f.offset < 32 by omega]
      · simp [hhigh]
    · simp [hlow, Nat.lt_of_not_le hlow]
  rw [pattern?, mask?_eq (by omega)]
  simp only [Option.bind_eq_bind, Option.bind_some, shiftLeft?, if_pos (show f.offset < 64 by omega)]
  rw [binaryDigits?_eq htotal, hmoved, toList_pattern]

end BitField

end ActorHub
