import ActorHub.Proofs.Number.Literal
import Mathlib.Data.Nat.Digits.Lemmas

/-!
# Spellings

An integer has many spellings: in decimal or behind a prefix, with letters in either case, with
underscores between digits and white space around. A `Spelling` is one choice for each of these, and
`write` spells an integer as it says. Main statement: every spelling is read as the integer.
-/

namespace ActorHub.IntLiteral

/-! ## Writing -/

/-- Decimal, or a prefix and whether an underscore stands behind it. -/
inductive Base where
  | decimal
  | prefixed (letter : Char) (radix : Nat) (names : NamesRadix letter radix) (scored : Bool)

/-- How to spell an integer. The places of digits count from the front. -/
structure Spelling where
  base : Base
  /-- How many zeros stand before the first digit. A decimal has them only where it is zero. -/
  zeros : Nat
  /-- Whether the digit at a place is in upper case, if it is a letter. -/
  capital : Nat → Bool
  /-- Whether an underscore stands behind the digit at a place, if it is not the last. -/
  spaced : Nat → Bool
  /-- Whether a sign stands before what is not negative. -/
  plus : Bool
  before : List Char
  after : List Char
  blank_before : ∀ c ∈ before, Text.isBlank c = true
  blank_after : ∀ c ∈ after, Text.isBlank c = true

/-- What the digits stand for, most significant first, behind a number of zeros. -/
def places (radix zeros n : Nat) : List Nat :=
  List.replicate zeros 0 ++ if n = 0 then [0] else (Nat.digits radix n).reverse

namespace Spelling

def digit (s : Spelling) (place d : Nat) : Char :=
  if s.capital place then Text.upperAscii (Number.digitChar d) else Number.digitChar d

def row (s : Spelling) : Nat → List Nat → List Char
  | _, [] => []
  | place, [d] => [s.digit place d]
  | place, d :: e :: ds =>
    let rest := s.row (place + 1) (e :: ds)
    s.digit place d :: if s.spaced place then '_' :: rest else rest

def numeral (s : Spelling) (n : Nat) : List Char :=
  match s.base with
  | .decimal => s.row 0 (places 10 (if n = 0 then s.zeros else 0) n)
  | .prefixed letter radix _ scored =>
    '0' :: letter :: (List.replicate scored.toNat '_' ++ s.row 0 (places radix s.zeros n))

def sign (s : Spelling) (n : Int) : List Char :=
  if n < 0 then ['-'] else if s.plus then ['+'] else []

def write (s : Spelling) (n : Int) : String :=
  String.ofList (s.before ++ (s.sign n ++ s.numeral n.natAbs) ++ s.after)

end Spelling

/-! ## Digits by place -/

section
variable {radix : Nat}

theorem places_ne_nil (zeros n : Nat) : places radix zeros n ≠ [] := by
  unfold places
  split
  · simp
  · next hn => simp [Nat.digits_ne_nil_iff_ne_zero.mpr hn]

theorem lt_of_mem_places (hradix : 2 ≤ radix) {zeros n d : Nat} (h : d ∈ places radix zeros n) :
    d < radix := by
  rw [places, List.mem_append] at h
  rcases h with h | h
  · rw [List.eq_of_mem_replicate h]
    omega
  · split at h
    · rw [List.mem_singleton.mp h]
      omega
    · exact Nat.digits_lt_base hradix (List.mem_reverse.mp h)

theorem ofDigits_places (zeros n : Nat) : Nat.ofDigits radix (places radix zeros n).reverse = n := by
  rw [places, List.reverse_append, List.reverse_replicate, Nat.ofDigits_append_replicate_zero]
  split
  · next hn => simp [hn]
  · rw [List.reverse_reverse, Nat.ofDigits_digits]

theorem places_zero_of_head {zeros n : Nat} (hzeros : n ≠ 0 → zeros = 0)
    (h : (places radix zeros n).head? = some 0) : ∀ d ∈ places radix zeros n, d = 0 := by
  by_cases hn : n = 0
  · intro d hd
    simp only [places, hn, if_true, List.mem_append, List.mem_replicate, List.mem_singleton] at hd
    exact hd.elim (·.2) id
  · rw [places, if_neg hn, hzeros hn, List.replicate_zero, List.nil_append, List.head?_reverse,
      List.getLast?_eq_getLast_of_ne_nil (Nat.digits_ne_nil_iff_ne_zero.mpr hn)] at h
    exact absurd (Option.some.inj h) (Nat.getLast_digit_ne_zero radix hn)

end

/-! ## What is written -/

namespace Spelling

variable (s : Spelling)

theorem isDigit_digit {radix d : Nat} (hradix : radix ≤ 36) (hd : d < radix) (place : Nat) :
    IsDigit radix (s.digit place d) d := by
  have hcase : ∀ d < 36, Text.lowerAscii (Number.digitChar d) = Number.digitChar d ∧
      Text.lowerAscii (Text.upperAscii (Number.digitChar d)) = Number.digitChar d := by decide
  obtain ⟨hlower, hupper⟩ := hcase d (by omega)
  refine ⟨hd, ?_⟩
  unfold digit
  split
  · exact hupper
  · exact hlower

theorem isDigits_row {radix : Nat} (hradix : radix ≤ 36) {place : Nat} {ds : List Nat} (hne : ds ≠ [])
    (hds : ∀ d ∈ ds, d < radix) : IsDigits radix (s.row place ds) ds := by
  fun_induction row s place ds with
  | case1 => exact absurd rfl hne
  | case2 place d => exact .last (s.isDigit_digit hradix (hds d (by simp)) place)
  | case3 place d e ds rest ih =>
    have hd := s.isDigit_digit hradix (hds d (by simp)) place
    have hrest := ih (by simp) fun d hd => hds d (List.mem_cons_of_mem _ hd)
    split
    · exact .spaced hd hrest
    · exact .next hd hrest

theorem isDigits_places {radix : Nat} (hlow : 2 ≤ radix) (hhigh : radix ≤ 36) (zeros n : Nat) :
    IsDigits radix (s.row 0 (places radix zeros n)) (places radix zeros n) :=
  s.isDigits_row hhigh (places_ne_nil zeros n) fun _ hd => lt_of_mem_places hlow hd

theorem isNumeral_numeral {gap : Nat} (hgap : 1 ≤ gap) (n : Nat) : IsNumeral gap (s.numeral n) n := by
  unfold numeral
  split
  · have hdigits := s.isDigits_places (by decide : 2 ≤ 10) (by decide : 10 ≤ 36)
      (if n = 0 then s.zeros else 0) n
    have h : IsNumeral gap _ _ := .decimal hdigits (places_zero_of_head fun hn => if_neg hn)
    rwa [ofDigits_places] at h
  · next letter radix names scored _ =>
    have hlow : 2 ≤ radix := by cases names <;> decide
    have hhigh : radix ≤ 36 := by cases names <;> decide
    have h := IsNumeral.prefixed names ((Bool.toNat_le scored).trans hgap)
      (s.isDigits_places hlow hhigh s.zeros n)
    rwa [ofDigits_places] at h

theorem isInteger_write {gap : Nat} (hgap : 1 ≤ gap) (n : Int) :
    IsInteger gap (s.sign n ++ s.numeral n.natAbs) n := by
  have hnumeral := s.isNumeral_numeral hgap n.natAbs
  unfold sign
  split
  · have h := IsInteger.minus hnumeral
    rwa [show -(n.natAbs : Int) = n by omega] at h
  · have hn : (n.natAbs : Int) = n := by omega
    split
    · have h := IsInteger.plus hnumeral
      rwa [hn] at h
    · have h := IsInteger.plain hnumeral
      rwa [hn] at h

theorem spells_write {gap : Nat} (hgap : 1 ≤ gap) (n : Int) : Spells gap (s.write n) n :=
  ⟨s.before, _, s.after, String.toList_ofList, s.blank_before, s.blank_after, s.isInteger_write hgap n⟩

end Spelling

/-! ## Reading -/

theorem read_of_spells {text : String} {n : Int} (h : Spells 2 text n)
    (hn : n.natAbs < Nat.pow 2 127) : read text = .ok n := by
  rcases read_cases text with ⟨m, -, hunique, hread⟩ | ⟨hnone, -⟩
  · obtain rfl := hunique n h
    rw [hread, if_pos hn]
  · exact absurd h (hnone n)

/-- However an integer is spelled, it is read as the integer. -/
theorem reads_every_spelling (s : Spelling) {n : Int} (hn : n.natAbs < Nat.pow 2 127) :
    read (s.write n) = .ok n :=
  read_of_spells (s.spells_write (by decide) n) hn

/-- The least integer that is read, in hexadecimal digits of either case behind a leading zero, with
underscores between groups of digits. -/
theorem reads_every_spelling_least :
    let s : Spelling := {
      base := .prefixed 'X' 16 (.hex rfl) true
      zeros := 1
      capital := fun place => place % 3 = 1
      spaced := fun place => place % 8 = 0
      plus := false
      before := ['\t']
      after := [' ', '\n']
      blank_before := List.forall_mem_singleton.mpr rfl
      blank_after := List.forall_mem_cons.mpr ⟨rfl, List.forall_mem_singleton.mpr rfl⟩ }
    let n : Int := -0x7fffffffffffffffffffffffffffffff
    n.natAbs < Nat.pow 2 127 ∧ s.write n = "\t-0X_0_7ffFffFf_fFffFffF_ffFffFff_FffFffFf \n" ∧
      read (s.write n) = .ok n := by
  intro s n
  have hn : n.natAbs < Nat.pow 2 127 := by decide +kernel
  exact ⟨hn, by decide +kernel, reads_every_spelling s hn⟩

end ActorHub.IntLiteral
