import ActorHub.Number.Radix
import ActorHub.Proofs.Text.Names

/-!
# Decimal numerals

A natural number is printed without leading zeros, and its numeral reads back as the number.
-/

namespace ActorHub.Number

theorem isAsciiDigit_of_isDigit {c : Char} (h : c.isDigit = true) : Text.isAsciiDigit c = true := by
  simpa [Text.isAsciiDigit, Char.isDigit, Char.le_def] using h

theorem isAsciiDigit_of_mem_toDigits {n : Nat} {c : Char} (h : c ∈ Nat.toDigits 10 n) :
    Text.isAsciiDigit c = true :=
  isAsciiDigit_of_isDigit (Nat.isDigit_of_mem_toDigits (by decide) (by decide) h)

theorem digitValue?_of_isAsciiDigit {c : Char} (h : Text.isAsciiDigit c = true) :
    digitValue? 10 c = some (c.toNat - '0'.toNat) := by
  have h := Text.isAsciiDigit_iff.mp h
  simp only [digitValue?, Bool.and_eq_true, decide_eq_true_eq]
  rw [if_pos h, Option.filter_some_pos (by simp; omega)]
  rfl

theorem isAsciiDigit_of_digitValue? {c : Char} {d : Nat} (h : digitValue? 10 c = some d) :
    Text.isAsciiDigit c = true := by
  simp only [digitValue?, Bool.and_eq_true, decide_eq_true_eq, Option.filter_eq_some_iff] at h
  obtain ⟨hvalue, hd⟩ := h
  rw [Text.isAsciiDigit_iff]
  split at hvalue
  · assumption
  -- the value of a letter is ten or more
  split at hvalue
  · have := Option.some.inj hvalue
    omega
  split at hvalue
  · have := Option.some.inj hvalue
    omega
  · cases hvalue

theorem readDigitsFrom_eq_none {radix : Nat} {c : Char} (hc : digitValue? radix c = none) :
    ∀ {cs : List Char} (n : Nat), c ∈ cs → readDigitsFrom radix n cs = none
  | d :: cs, n, h => by
    rw [readDigitsFrom]
    rcases List.mem_cons.mp h with rfl | h
    · rw [hc, Option.bind_none]
    · cases digitValue? radix d with
      | none => rfl
      | some k => rw [Option.bind_some, readDigitsFrom_eq_none hc _ h]

theorem readDigitsFrom_eq_ofDigitChars {cs : List Char} (h : ∀ c ∈ cs, Text.isAsciiDigit c = true)
    (n : Nat) : readDigitsFrom 10 n cs = some (Nat.ofDigitChars 10 cs n) := by
  induction cs generalizing n with
  | nil => rfl
  | cons c cs ih =>
    rw [readDigitsFrom, digitValue?_of_isAsciiDigit (h c (by simp)), Option.bind_some,
      ih (fun d hd => h d (by simp [hd])), Nat.ofDigitChars_cons, Nat.mul_comm]

theorem readDigits?_ten_eq_some_iff {cs : List Char} {n : Nat} : readDigits? 10 cs = some n ↔
    cs ≠ [] ∧ (∀ c ∈ cs, Text.isAsciiDigit c = true) ∧ Nat.ofDigitChars 10 cs 0 = n := by
  cases cs with
  | nil => exact iff_of_false nofun fun h => h.1 rfl
  | cons c cs =>
    rw [show readDigits? 10 (c :: cs) = readDigitsFrom 10 0 (c :: cs) from rfl]
    constructor
    · intro h
      have hdigits : ∀ d ∈ c :: cs, Text.isAsciiDigit d = true := by
        intro d hd
        cases hvalue : digitValue? 10 d with
        | some k => exact isAsciiDigit_of_digitValue? hvalue
        | none =>
          rw [readDigitsFrom_eq_none hvalue 0 hd] at h
          cases h
      rw [readDigitsFrom_eq_ofDigitChars hdigits] at h
      exact ⟨List.cons_ne_nil c cs, hdigits, Option.some.inj h⟩
    · rintro ⟨-, hdigits, rfl⟩
      exact readDigitsFrom_eq_ofDigitChars hdigits 0

theorem readDigits?_toDigits (n : Nat) : readDigits? 10 (Nat.toDigits 10 n) = some n :=
  readDigits?_ten_eq_some_iff.mpr
    ⟨Nat.toDigits_ne_nil, fun _ => isAsciiDigit_of_mem_toDigits, Nat.ofDigitChars_ten_toDigits⟩

theorem toDigits_zero_cons {n : Nat} {cs : List Char} (h : Nat.toDigits 10 n = '0' :: cs) :
    n = 0 ∧ cs = [] := by
  induction n using Nat.strongRecOn generalizing cs with
  | ind n ih =>
    have hread := readDigits?_toDigits n
    rw [h] at hread
    rw [Nat.toDigits_eq_if (by decide)] at h
    split at h
    · obtain rfl : cs = [] := (List.cons.inj h).2.symm
      exact ⟨(Option.some.inj hread).symm, rfl⟩
    · rename_i hn
      cases hd : Nat.toDigits 10 (n / 10) with
      | nil => exact absurd hd Nat.toDigits_ne_nil
      | cons c ds =>
        rw [hd] at h
        obtain rfl : c = '0' := (List.cons.inj h).1
        have := (ih (n / 10) (by omega) hd).1
        omega

end ActorHub.Number
