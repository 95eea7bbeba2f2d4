import ActorHub.Number.IntLiteral
import ActorHub.Proofs.Number.Radix

/-!
# Printed integers

An integer is printed in decimal digits, behind a minus sign where it is negative. What is printed is
an integer literal, and it is read as the integer.
-/

namespace ActorHub

namespace Text

theorem trim_eq_self {cs : List Char} (h : ∀ c ∈ cs, isBlank c = false) : trim cs = cs := by
  have hdrop : ∀ ds : List Char, (∀ c ∈ ds, isBlank c = false) → dropBlanks ds = ds := fun ds hds =>
    dropWhile_eq_self fun c hc => hds c (List.mem_of_mem_head? hc)
  rw [trim, hdrop cs h, hdrop cs.reverse (by simpa using h), List.reverse_reverse]

theorem isBlank_of_isAsciiDigit {c : Char} (h : isAsciiDigit c = true) : isBlank c = false := by
  have := isAsciiDigit_iff.mp h
  simp only [isBlank, Bool.or_eq_false_iff, Bool.and_eq_false_iff, decide_eq_false_iff_not,
    beq_eq_false_iff_ne]
  omega

theorem isAsciiLetter_of_isAsciiDigit {c : Char} (h : isAsciiDigit c = true) :
    isAsciiLetter c = false := by
  have := isAsciiDigit_iff.mp h
  rw [← Bool.not_eq_true, isAsciiLetter_iff]
  omega

end Text

namespace IntLiteral

theorem dropUnderscores_of_not_mem {cs : List Char} (h : '_' ∉ cs) : dropUnderscores cs = some cs := by
  fun_induction dropUnderscores cs with
  | case1 | case3 => rfl
  | case2 | case4 | case5 => simp at h
  | case6 c d rest _ _ _ ih =>
    rw [List.mem_cons, not_or] at h
    rw [ih h.2]
    rfl

section
variable (n : Nat)

theorem splitRadix_toDigits : splitRadix (Nat.toDigits 10 n) = (10, Nat.toDigits 10 n) := by
  unfold splitRadix
  split
  · rename_i h; cases (Number.toDigits_zero_cons h).2
  · rename_i h; cases (Number.toDigits_zero_cons h).2
  · rename_i h; cases (Number.toDigits_zero_cons h).2
  · rfl

theorem hasLeadingZero_toDigits : hasLeadingZero (Nat.toDigits 10 n) = false := by
  unfold hasLeadingZero
  split
  · rename_i h; rw [(Number.toDigits_zero_cons h).2]; rfl
  · rfl

theorem magnitude?_toDigits : magnitude? (Nat.toDigits 10 n) = some n := by
  have hdigit : ∀ c ∈ Nat.toDigits 10 n, Text.isAsciiDigit c = true :=
    fun c hc => Number.isAsciiDigit_of_mem_toDigits hc
  have hlower : (Nat.toDigits 10 n).map Text.lowerAscii = Nat.toDigits 10 n :=
    (List.map_congr_left fun c hc => Text.lowerAscii_of_not_letter
      (Text.isAsciiLetter_of_isAsciiDigit (hdigit c hc))).trans (List.map_id _)
  have hscore : dropUnderscores (Nat.toDigits 10 n) = some (Nat.toDigits 10 n) :=
    dropUnderscores_of_not_mem fun hm => absurd (hdigit _ hm) (by decide)
  have hlead : dropLeadingUnderscores 10 (Nat.toDigits 10 n) = Nat.toDigits 10 n := if_pos rfl
  simp only [magnitude?, hlower, splitRadix_toDigits, hlead, hscore, hasLeadingZero_toDigits,
    Option.bind_eq_bind, Option.bind_some, Bool.and_false, Bool.false_eq_true, if_false,
    Number.readDigits?_toDigits]

end

def numeral (n : Int) : List Char :=
  if n < 0 then '-' :: Nat.toDigits 10 n.natAbs else Nat.toDigits 10 n.natAbs

theorem mem_numeral {n : Int} {c : Char} (h : c ∈ numeral n) : c = '-' ∨ Text.isAsciiDigit c = true := by
  by_cases hn : n < 0
  · rw [numeral, if_pos hn] at h
    exact (List.mem_cons.mp h).imp_right Number.isAsciiDigit_of_mem_toDigits
  · rw [numeral, if_neg hn] at h
    exact .inr (Number.isAsciiDigit_of_mem_toDigits h)

theorem splitSign_numeral (n : Int) :
    splitSign (numeral n) = (decide (n < 0), Nat.toDigits 10 n.natAbs) := by
  by_cases h : n < 0
  · simp [numeral, splitSign, h]
  · rw [numeral, if_neg h]
    -- a digit is no sign
    have hdigit : ∀ c cs, Nat.toDigits 10 n.natAbs = c :: cs → Text.isAsciiDigit c = true := by
      intro c cs hd
      exact Number.isAsciiDigit_of_mem_toDigits (hd ▸ List.mem_cons_self)
    unfold splitSign
    split
    · rename_i hd; exact absurd (hdigit _ _ hd) (by decide)
    · rename_i hd; exact absurd (hdigit _ _ hd) (by decide)
    · simp [h]

theorem read_numeral {s : String} {n : Int} (hs : s.toList = numeral n) (hn : n.natAbs < bound) :
    read s = .ok n := by
  have htrim : Text.trim (numeral n) = numeral n := Text.trim_eq_self fun c hc => by
    rcases mem_numeral hc with rfl | hc
    · decide
    · exact Text.isBlank_of_isAsciiDigit hc
  simp only [read, hs, htrim, splitSign_numeral, magnitude?_toDigits, if_pos hn, decide_eq_true_eq,
    Except.ok.injEq]
  omega

theorem toList_toString (n : Int) : (toString n).toList = numeral n := by
  rw [Int.toString_eq_repr, Int.repr_eq_if, numeral]
  by_cases hn : 0 ≤ n
  · rw [if_pos hn, if_neg (by omega), Nat.toList_repr, show n.toNat = n.natAbs by omega]
  · rw [if_neg hn, if_pos (by omega), String.toList_append, Nat.toList_repr,
      show (-n).toNat = n.natAbs by omega]
    rfl

theorem toList_toString_natCast (n : Nat) : (toString n).toList = numeral n := by
  rw [Nat.toString_eq_repr, Nat.toList_repr, numeral, if_neg (by omega), Int.natAbs_natCast]

end IntLiteral

end ActorHub
