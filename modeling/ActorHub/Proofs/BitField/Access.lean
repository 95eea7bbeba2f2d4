import ActorHub.ValueType.BitField

/-!
# Access to bit fields

What reading and replacing a field do to each bit of a word, for a field that lies within the word.
Reading gives back what was put in, as far as the field is wide, and nothing outside the field changes.
On a machine a shift has a result only below the width of its word; no access shifts further.
-/

namespace ActorHub

namespace BitField

def Disjoint (f g : BitField) : Prop :=
  f.offset + f.width ≤ g.offset ∨ g.offset + g.width ≤ f.offset

variable {f g : BitField} {v x : Word} {i : Nat}

/-! ## Bits -/

theorem getLsbD_mask (f : BitField) (i : Nat) :
    f.mask.getLsbD i = (decide (i < 32) && decide (i < f.width)) := by
  rw [mask, BitVec.getLsbD_ofNat, Nat.pow_eq, Nat.testBit_two_pow_sub_one]

theorem getLsbD_get (f : BitField) (v : Word) (i : Nat) :
    (f.get v).getLsbD i = (v.getLsbD (f.offset + i) && decide (i < f.width)) := by
  rw [get, BitVec.getLsbD_and, BitVec.getLsbD_ushiftRight, getLsbD_mask]
  by_cases hi : i < 32
  · rw [decide_eq_true hi, Bool.true_and]
  · rw [BitVec.getLsbD_of_ge v _ (by omega), Bool.false_and, Bool.false_and]

theorem getLsbD_set (hi : i < 32) : (f.set v x).getLsbD i =
    if f.offset ≤ i ∧ i < f.offset + f.width then x.getLsbD (i - f.offset) else v.getLsbD i := by
  simp only [set, BitVec.getLsbD_or, BitVec.getLsbD_and, BitVec.getLsbD_not, BitVec.getLsbD_shiftLeft,
    getLsbD_mask, hi, decide_true, Bool.true_and]
  by_cases hlow : f.offset ≤ i
  · by_cases hhigh : i < f.offset + f.width
    · simp [hlow, hhigh, show i - f.offset < 32 by omega, show i - f.offset < f.width by omega,
        Nat.not_lt.mpr hlow]
    · simp [hlow, hhigh, show ¬ i - f.offset < f.width by omega]
  · simp [hlow, Nat.lt_of_not_le hlow]

/-! ## Laws -/

theorem get_set (hf : f.offset + f.width ≤ 32) (v x : Word) :
    f.get (f.set v x) = BitVec.ofNat 32 (x.toNat % Nat.pow 2 f.width) := by
  apply BitVec.eq_of_getLsbD_eq
  intro i hi
  rw [getLsbD_get, BitVec.getLsbD_ofNat, Nat.pow_eq, Nat.testBit_mod_two_pow, BitVec.testBit_toNat]
  by_cases hw : i < f.width
  · rw [getLsbD_set (by omega), if_pos (by omega), Nat.add_sub_cancel_left]
    simp [hi, hw]
  · simp [hw]

theorem set_get (f : BitField) (v : Word) : f.set v (f.get v) = v := by
  apply BitVec.eq_of_getLsbD_eq
  intro i hi
  rw [getLsbD_set hi]
  split
  · next h => rw [getLsbD_get, Nat.add_sub_cancel' h.1, decide_eq_true (by omega), Bool.and_true]
  · rfl

theorem getLsbD_set_outside (hi : i < 32) (hout : i < f.offset ∨ f.offset + f.width ≤ i) :
    (f.set v x).getLsbD i = v.getLsbD i := by
  rw [getLsbD_set hi, if_neg (by omega)]

theorem get_set_of_disjoint (hd : f.Disjoint g) (v x : Word) : g.get (f.set v x) = g.get v := by
  apply BitVec.eq_of_getLsbD_eq
  intro i hi
  rw [getLsbD_get, getLsbD_get]
  by_cases hw : i < g.width
  · by_cases hbit : g.offset + i < 32
    · rw [getLsbD_set_outside hbit (by unfold Disjoint at hd; omega)]
    · rw [BitVec.getLsbD_of_ge _ _ (by omega), BitVec.getLsbD_of_ge _ _ (by omega)]
  · rw [decide_eq_false hw, Bool.and_false, Bool.and_false]

end BitField

/-! ## Machine arithmetic -/

namespace Machine

variable {w : Nat}

/-- A shift by the width of the word or more has no result. -/
def shiftLeft? (x : BitVec w) (k : Nat) : Option (BitVec w) :=
  if k < w then some (x <<< k) else none

def shiftRight? (x : BitVec w) (k : Nat) : Option (BitVec w) :=
  if k < w then some (x >>> k) else none

def sub? (x y : BitVec w) : Option (BitVec w) :=
  if y ≤ x then some (x - y) else none

end Machine

namespace BitField

open Machine

/-- The mask is computed in 64 bits, so that it may have 32 ones. -/
def mask? (f : BitField) : Option Word := do
  let ones ← sub? (← shiftLeft? 1#64 f.width) 1#64
  return ones.setWidth 32

def get? (f : BitField) (v : Word) : Option Word := do
  return (← shiftRight? v f.offset) &&& (← f.mask?)

def set? (f : BitField) (v x : Word) : Option Word := do
  let mask ← f.mask?
  return (v &&& ~~~(← shiftLeft? mask f.offset)) ||| (← shiftLeft? (x &&& mask) f.offset)

variable {f : BitField}

theorem mask?_eq (hw : f.width ≤ 32) : f.mask? = some f.mask := by
  have hbound : Nat.pow 2 f.width ≤ Nat.pow 2 32 := Nat.pow_le_pow_right (by decide) hw
  have hpos : 0 < Nat.pow 2 f.width := Nat.two_pow_pos _
  have hshift : (1#64 <<< f.width).toNat = Nat.pow 2 f.width := by
    rw [BitVec.toNat_shiftLeft, Nat.shiftLeft_eq]
    change 1 * Nat.pow 2 f.width % 18446744073709551616 = _
    rw [Nat.one_mul, Nat.mod_eq_of_lt (Nat.lt_of_le_of_lt hbound (by decide))]
  have hle : 1#64 ≤ 1#64 <<< f.width := by
    rw [BitVec.le_def, hshift]
    exact hpos
  simp only [mask?, shiftLeft?, if_pos (Nat.lt_of_le_of_lt hw (by decide : 32 < 64)), sub?, if_pos hle,
    Option.bind_eq_bind, Option.bind_some, Option.pure_def, Option.some.injEq]
  apply BitVec.eq_of_toNat_eq
  rw [BitVec.toNat_setWidth, BitVec.toNat_sub_of_le hle, hshift, mask, BitVec.toNat_ofNat]
  rfl

theorem get?_eq (hw : f.width ≤ 32) (ho : f.offset < 32) (v : Word) : f.get? v = some (f.get v) := by
  simp [get?, get, mask?_eq hw, shiftRight?, ho]

theorem set?_eq (hw : f.width ≤ 32) (ho : f.offset < 32) (v x : Word) :
    f.set? v x = some (f.set v x) := by
  simp [set?, set, mask?_eq hw, shiftLeft?, ho]

end BitField

end ActorHub
