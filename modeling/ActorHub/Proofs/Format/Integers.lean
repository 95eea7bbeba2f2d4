import ActorHub.Proofs.Format.Grammar
import ActorHub.Proofs.Number.Literal

/-!
# Rendered integers

An integer is rendered as a sign, a mark of its radix, zeros and digits, with spaces on one side or none.
`Radix.readField?` passes over all that is no digit and reads the integer back, whatever the flags, the
width and the precision are.
-/

namespace ActorHub

/-! ## Digits -/

namespace Number

variable {radix : Nat}

theorem readDigitsFrom_append (as bs : List Char) (n : Nat) : readDigitsFrom radix n (as ++ bs) =
    (readDigitsFrom radix n as).bind fun m => readDigitsFrom radix m bs := by
  induction as generalizing n with
  | nil => rfl
  | cons c as ih =>
    rw [List.cons_append, readDigitsFrom, readDigitsFrom]
    cases digitValue? radix c with
    | none => rfl
    | some d => rw [Option.bind_some, Option.bind_some, ih]

theorem readDigitsFrom_zeros (hzero : digitValue? radix '0' = some 0) (zeros : Nat) (cs : List Char) :
    readDigitsFrom radix 0 (List.replicate zeros '0' ++ cs) = readDigitsFrom radix 0 cs := by
  induction zeros with
  | zero => rfl
  | succ zeros ih =>
    rw [List.replicate_succ, List.cons_append, readDigitsFrom, hzero, Option.bind_some, Nat.zero_mul, ih]

theorem digits_ne_nil (radix n : Nat) : digits radix n ≠ [] := by
  rw [digits]
  split <;> simp

theorem readDigitsFrom_digits {spell : Char → Char} (hradix : 2 ≤ radix)
    (hspell : ∀ d < radix, digitValue? radix (spell (digitChar d)) = some d) (n : Nat) :
    readDigitsFrom radix 0 ((digits radix n).map spell) = some n := by
  fun_induction digits radix n with
  | case1 n h =>
    have hn : n < radix := by omega
    simp [readDigitsFrom, hspell n hn]
  | case2 n h ih =>
    have hlast : n % radix < radix := Nat.mod_lt n (by omega)
    rw [List.map_append, readDigitsFrom_append, ih, Option.bind_some, List.map_singleton, readDigitsFrom,
      hspell _ hlast, Option.bind_some, readDigitsFrom, Nat.div_add_mod']

end Number

namespace Radix

/-- The integer that a field shows. Passes over white space, and reads a sign, the mark of the radix if it
is there, and digits. -/
def readField? (r : Radix) (field : List Char) : Option Int :=
  let (negative, rest) := IntLiteral.splitSign (Text.trim field)
  let digits := if r.mark.isPrefixOf rest then rest.drop r.mark.length else rest
  (Number.readDigits? r.base digits).map fun n : Nat => if negative then -(n : Int) else n

def spell : Radix → Char → Char
  | hex true => Text.upperAscii
  | decimal | octal | hex false => id

section
variable (r : Radix)

theorem digits_eq (n : Nat) : r.digits n = (Number.digits r.base n).map r.spell := by
  cases r with
  | hex upper => cases upper <;> simp [digits, spell]
  | decimal | octal => simp [digits, spell]

theorem digits_ne_nil (n : Nat) : r.digits n ≠ [] := by
  rw [digits_eq, ne_eq, List.map_eq_nil_iff]
  exact Number.digits_ne_nil r.base n

theorem base_between : 2 ≤ r.base ∧ r.base ≤ 36 := by
  cases r <;> simp [base]

theorem digitValue?_spell : ∀ d < r.base,
    Number.digitValue? r.base (r.spell (Number.digitChar d)) = some d := by
  cases r with
  | hex upper => cases upper <;> decide
  | decimal | octal => decide

theorem mark_cases : r.mark = [] ∨
    ∃ letter, r.mark = ['0', letter] ∧ Number.digitValue? r.base letter = none := by
  cases r with
  | decimal => exact .inl rfl
  | octal => exact .inr ⟨'o', rfl, by decide⟩
  | hex upper =>
    cases upper with
    | false => exact .inr ⟨'x', rfl, by decide⟩
    | true => exact .inr ⟨'X', rfl, by decide⟩

theorem readDigitsFrom_padded (zeros n : Nat) :
    Number.readDigitsFrom r.base 0 (List.replicate zeros '0' ++ r.digits n) = some n := by
  have hzero : Number.digitValue? r.base '0' = some 0 := by
    cases r <;> rfl
  rw [Number.readDigitsFrom_zeros hzero, digits_eq]
  exact Number.readDigitsFrom_digits r.base_between.1 r.digitValue?_spell n

theorem readDigits?_padded (zeros n : Nat) :
    Number.readDigits? r.base (List.replicate zeros '0' ++ r.digits n) = some n := by
  have hread := r.readDigitsFrom_padded zeros n
  cases hrow : List.replicate zeros '0' ++ r.digits n with
  | nil => exact absurd (List.append_eq_nil_iff.mp hrow).2 (r.digits_ne_nil n)
  | cons c cs => rw [Number.readDigits?, ← hrow, hread]; simp

theorem isSome_of_mem_padded {zeros n : Nat} {c : Char} (h : c ∈ List.replicate zeros '0' ++ r.digits n) :
    (Number.digitValue? r.base c).isSome = true := by
  cases hc : Number.digitValue? r.base c with
  | some d => rfl
  | none =>
    have hread := r.readDigitsFrom_padded zeros n
    rw [Number.readDigitsFrom_eq_none hc 0 h] at hread
    cases hread

theorem between_of_mem_padded {zeros n : Nat} {c : Char} (h : c ∈ List.replicate zeros '0' ++ r.digits n) :
    48 ≤ c.toNat ∧ c.toNat ≤ 122 := by
  obtain ⟨d, hd⟩ := Option.isSome_iff_exists.mp (r.isSome_of_mem_padded h)
  have hdigit := (IntLiteral.digitValue?_eq_some_iff r.base_between.2).mp hd
  obtain ⟨hlow, hhigh, -⟩ := hdigit.between r.base_between.2
  exact ⟨hlow, hhigh⟩

/-- A row of digits is read as it is, whether the mark of the radix stands before it or not. -/
theorem dropMark {mark : List Char} (hmark : mark = r.mark ∨ mark = []) (zeros n : Nat) :
    let row := List.replicate zeros '0' ++ r.digits n
    (if r.mark.isPrefixOf (mark ++ row) then (mark ++ row).drop r.mark.length else mark ++ row) = row := by
  intro row
  obtain rfl | rfl := hmark
  · rw [if_pos (by simp), List.drop_left]
  · rw [List.nil_append]
    obtain hnone | ⟨letter, hletter, hvalue⟩ := r.mark_cases
    · simp [hnone]
    · refine if_neg ?_
      rw [List.isPrefixOf_iff_prefix, hletter]
      rintro ⟨rest, hrest⟩
      have hmem : letter ∈ row := by simp [← hrest]
      have hsome := r.isSome_of_mem_padded hmem
      rw [hvalue] at hsome
      cases hsome

end

inductive IsSign : Bool → List Char → Prop where
  | none : IsSign false []
  | plus : IsSign false ['+']
  | minus : IsSign true ['-']

theorem splitSign_append {negative : Bool} {sign rest : List Char} (hsign : IsSign negative sign)
    (hrest : ∀ c ∈ rest.head?, 48 ≤ c.toNat) :
    IntLiteral.splitSign (sign ++ rest) = (negative, rest) := by
  cases hsign with
  | plus | minus => rfl
  | none =>
    rw [List.nil_append, IntLiteral.splitSign]
    · rintro tail rfl
      exact absurd (hrest '-' rfl) (by decide)
    · rintro tail rfl
      exact absurd (hrest '+' rfl) (by decide)

theorem between_of_mem_mark (r : Radix) : ∀ c ∈ r.mark, 48 ≤ c.toNat ∧ c.toNat ≤ 122 := by
  cases r with
  | hex upper => cases upper <;> simp [mark]
  | decimal | octal => simp [mark]

theorem not_isBlank_of_isSign {negative : Bool} {sign : List Char} (h : IsSign negative sign) :
    ∀ c ∈ sign, Text.isBlank c = false := by
  cases h <;> simp [Text.isBlank]

theorem readField?_padded (r : Radix) {before after sign mark : List Char} {negative : Bool}
    (hbefore : ∀ c ∈ before, Text.isBlank c = true) (hafter : ∀ c ∈ after, Text.isBlank c = true)
    (hsign : IsSign negative sign) (hmark : mark = r.mark ∨ mark = []) (zeros n : Nat) :
    r.readField? (before ++ (sign ++ (mark ++ (List.replicate zeros '0' ++ r.digits n))) ++ after) =
      some (if negative then -(n : Int) else n) := by
  have hnumeral : ∀ c ∈ mark ++ (List.replicate zeros '0' ++ r.digits n),
      48 ≤ c.toNat ∧ c.toNat ≤ 122 := by
    intro c hc
    rcases List.mem_append.mp hc with hc | hc
    · obtain rfl | rfl := hmark
      · exact r.between_of_mem_mark c hc
      · cases hc
    · exact r.between_of_mem_padded hc
  have hblank : ∀ c ∈ sign ++ (mark ++ (List.replicate zeros '0' ++ r.digits n)), Text.isBlank c = false := by
    intro c hc
    rcases List.mem_append.mp hc with hc | hc
    · exact not_isBlank_of_isSign hsign c hc
    · exact Text.isBlank_of_between (hnumeral c hc)
  have htrim := Text.trim_padded hbefore hafter (by simp [r.digits_ne_nil]) hblank
  have hsplit := splitSign_append hsign fun c hc => (hnumeral c (List.mem_of_mem_head? hc)).1
  simp only [readField?, htrim, hsplit, r.dropMark hmark, readDigits?_padded, Option.map_some]

end Radix

/-! ## Padding -/

namespace Directive

variable (d : Directive)

def bare (r : Radix) (v : Int) : List Char :=
  d.sign (v < 0) ++ (if d.flags.alternate then r.mark else []) ++
    List.replicate (d.precision.getD 0 - (r.digits v.natAbs).length) '0' ++ r.digits v.natAbs

theorem pad_eq {n : Numeral} (hfinite : n.finite = true) : ∃ front zeros back,
    d.pad n = List.replicate front ' ' ++ d.sign n.negative ++ n.mark ++ List.replicate zeros '0' ++
      n.digits ++ List.replicate back ' ' ∧
    front + zeros + back = d.width - ((d.sign n.negative).length + n.mark.length + n.digits.length) := by
  simp only [pad, hfinite, Bool.and_true]
  generalize d.width - ((d.sign n.negative).length + n.mark.length + n.digits.length) = fill
  split
  · exact ⟨0, 0, fill, by simp, by omega⟩
  split
  · exact ⟨0, fill, 0, by simp, by omega⟩
  · exact ⟨fill, 0, 0, by simp, by omega⟩

theorem exists_isSign (negative : Bool) : ∃ blanks sign, d.sign negative = List.replicate blanks ' ' ++ sign ∧
    Radix.IsSign negative sign := by
  cases negative with
  | true => exact ⟨0, ['-'], rfl, .minus⟩
  | false =>
    by_cases hplus : d.flags.plus = true
    · exact ⟨0, ['+'], by simp [sign, hplus], .plus⟩
    by_cases hspace : d.flags.space = true
    · exact ⟨1, [], by simp [sign, hplus, hspace], .none⟩
    · exact ⟨0, [], by simp [sign, hplus, hspace], .none⟩

theorem render_int {r : Radix} (h : d.conversion = .integer r) (v : Int) :
    (d.render (.int v)).length = max d.width (d.bare r v).length ∧
      r.readField? (d.render (.int v)) = some v := by
  have hnumeral : d.numeral (.int v) = d.integerNumeral r v := by
    simp only [numeral, h]
  obtain ⟨front, zeros, back, hpad, hfill⟩ :=
    d.pad_eq (show (d.integerNumeral r v).finite = true from rfl)
  rw [render, hnumeral, hpad]
  constructor
  · simp only [bare, integerNumeral, List.length_append, List.length_replicate] at hfill ⊢
    omega
  · obtain ⟨blanks, sign, hsign, his⟩ := d.exists_isSign (v < 0)
    let mark := if d.flags.alternate then r.mark else []
    have hmark : mark = r.mark ∨ mark = [] := by
      by_cases halternate : d.flags.alternate = true
      · exact .inl (if_pos halternate)
      · exact .inr (if_neg halternate)
    have hblank : ∀ n, ∀ c ∈ List.replicate n ' ', Text.isBlank c = true := by
      intro n c hc
      rw [List.eq_of_mem_replicate hc]
      decide
    have hread := r.readField?_padded (hblank (front + blanks)) (hblank back) his hmark
      (zeros + (d.precision.getD 0 - (r.digits v.natAbs).length)) v.natAbs
    have hvalue : (if decide (v < 0) = true then -(v.natAbs : Int) else v.natAbs) = v := by
      by_cases hv : v < 0
      · rw [if_pos (decide_eq_true hv)]
        omega
      · rw [if_neg (by simpa using hv)]
        omega
    rw [hvalue] at hread
    rw [← hread]
    congr 1
    simp only [integerNumeral, hsign, ← List.replicate_append_replicate, List.append_assoc, mark]

end Directive

/-! ## Integers in formats -/

namespace Format

/-- A format with an integer conversion shows any integer between its two literal texts, in a field that is
as long as the width or as the integer by itself, whichever is more, and from which the integer is read back.
So no two integers are shown alike. -/
theorem integers_lose_nothing {field source : String} {f : Format} {r : Radix}
    (hread : read field source = .ok f) (hinteger : f.directive.conversion = .integer r) :
    (∃ before, ∃ p : Parts, ∃ after, source.toList = doubled before ++ p.written ++ doubled after ∧
      f.directive = p.directive ∧ ∀ v : Int, ∃ shown,
        (f.render (.int v)).toList = before ++ shown ++ after ∧
        shown.length = max f.directive.width (f.directive.bare r v).length ∧
        r.readField? shown = some v) ∧
    ∀ v w : Int, f.render (.int v) = f.render (.int w) → v = w := by
  obtain ⟨before, p, after, hsource, rfl⟩ := exists_parts_of_read hread
  have hrender : ∀ arg, (Format.render ⟨source, String.ofList before, p.directive, String.ofList after⟩
      arg).toList = before ++ p.directive.render arg ++ after := by
    intro arg
    simp [render]
  refine ⟨⟨before, p, after, hsource, rfl, ?_⟩, ?_⟩
  · intro v
    obtain ⟨hlength, hvalue⟩ := p.directive.render_int hinteger v
    exact ⟨_, hrender _, hlength, hvalue⟩
  · intro v w h
    have htext := congrArg String.toList h
    rw [hrender, hrender] at htext
    have hshown := List.append_cancel_left (List.append_cancel_right htext)
    have hv := (p.directive.render_int hinteger v).2
    rw [hshown, (p.directive.render_int hinteger w).2] at hv
    exact (Option.some.inj hv).symm

/-- The least integer of 64 bits: zeros up to the precision, more zeros up to the width, and a mark. -/
theorem integers_lose_nothing_least :
    let d : Directive := ⟨⟨false, false, false, true, true⟩, 24, some 18, .integer (.hex false)⟩
    let f : Format := ⟨"%%[%#024.18x]", "%[", d, "]"⟩
    let least : Int := -0x8000000000000000
    read "strFmt" f.source = .ok f ∧ f.directive.conversion = .integer (.hex false) ∧
    (f.render (.int least)).toList = "%[-0x000008000000000000000]".toList ∧
    f.render (.int least) ≠ f.render (.int (least + 1)) := by
  intro d f least
  have hcircular : ¬isCircular f.source.toList = true := by decide
  have hparts : readParts? f.source.toList = some ("%[".toList, d, "]".toList) := by decide +kernel
  have hread : read "strFmt" f.source = .ok f := by
    rw [read, if_neg hcircular, hparts]
    simp [f]
  have hrender : d.render (.int least) = "-0x000008000000000000000".toList := by decide +kernel
  refine ⟨hread, rfl, by simp [render, f, hrender], ?_⟩
  intro h
  exact absurd ((integers_lose_nothing hread rfl).2 least (least + 1) h) (by decide)

end Format

end ActorHub
