import ActorHub.Proofs.Number.IntLiteral
import Mathlib.Data.List.Forall2
import Mathlib.Data.List.TakeWhile
import Mathlib.Data.Nat.Digits.Defs

/-!
# The grammar of integer literals

What it takes for a text to spell an integer, as a grammar that the reader is measured against. The
reader accepts what is spelled, with the value of its digits by place, as long as the magnitude is
small enough. The grammar has one parameter, the number of underscores that may stand between a
prefix and the first digit: of these the reader takes two.
-/

namespace ActorHub

/-! ## White space at the ends -/

namespace Text

theorem trim_padded {before core after : List Char} (hbefore : ∀ c ∈ before, isBlank c = true)
    (hafter : ∀ c ∈ after, isBlank c = true) (hne : core ≠ []) (hcore : ∀ c ∈ core, isBlank c = false) :
    trim (before ++ core ++ after) = core := by
  have hfront : dropBlanks (before ++ core ++ after) = core ++ after := by
    rw [List.append_assoc]
    refine dropWhile_append_of_stop hbefore fun c hc => ?_
    rw [List.head?_append_of_ne_nil _ hne] at hc
    exact hcore c (List.mem_of_mem_head? hc)
  have hback : dropBlanks (core ++ after).reverse = core.reverse := by
    rw [List.reverse_append]
    exact dropWhile_append_of_stop (by simpa using hafter) fun c hc =>
      hcore c (List.mem_reverse.mp (List.mem_of_mem_head? hc))
  rw [trim, hfront, hback, List.reverse_reverse]

theorem exists_padding (cs : List Char) : ∃ before after, cs = before ++ trim cs ++ after ∧
    (∀ c ∈ before, isBlank c = true) ∧ ∀ c ∈ after, isBlank c = true := by
  refine ⟨cs.takeWhile isBlank, ((dropBlanks cs).reverse.takeWhile isBlank).reverse, ?_,
    fun c hc => List.mem_takeWhile_imp hc,
    fun c hc => List.mem_takeWhile_imp (List.mem_reverse.mp hc)⟩
  have hback : trim cs ++ ((dropBlanks cs).reverse.takeWhile isBlank).reverse = dropBlanks cs := by
    rw [trim, ← List.reverse_append]
    exact (congrArg List.reverse List.takeWhile_append_dropWhile).trans (List.reverse_reverse _)
  rw [List.append_assoc, hback]
  exact List.takeWhile_append_dropWhile.symm

theorem isBlank_of_between {c : Char} (h : 48 ≤ c.toNat ∧ c.toNat ≤ 122) : isBlank c = false := by
  simp only [isBlank, Bool.or_eq_false_iff, Bool.and_eq_false_iff, decide_eq_false_iff_not,
    beq_eq_false_iff_ne]
  omega

theorem lowerAscii_eq_iff {c x : Char} (hx : isAsciiLetter x = false) : lowerAscii c = x ↔ c = x := by
  cases hc : isAsciiLetter c with
  | false => rw [lowerAscii_of_not_letter hc]
  | true =>
    refine iff_of_false (fun h => ?_) (fun h => ?_)
    · rw [← isAsciiLetter_lowerAscii, h, hx] at hc
      cases hc
    · rw [h, hx] at hc
      cases hc

end Text

namespace IntLiteral

/-! ## Grammar -/

/-- A digit of a radix, a letter in either case, and what it stands for. -/
def IsDigit (radix : Nat) (c : Char) (d : Nat) : Prop :=
  d < radix ∧ Text.lowerAscii c = Number.digitChar d

/-- One digit or more, and their values. Between two of them may stand an underscore. -/
inductive IsDigits (radix : Nat) : List Char → List Nat → Prop
  | last {c : Char} {d : Nat} : IsDigit radix c d → IsDigits radix [c] [d]
  | next {c : Char} {d : Nat} {cs : List Char} {ds : List Nat} : IsDigit radix c d →
      IsDigits radix cs ds → IsDigits radix (c :: cs) (d :: ds)
  | spaced {c : Char} {d : Nat} {cs : List Char} {ds : List Nat} : IsDigit radix c d →
      IsDigits radix cs ds → IsDigits radix (c :: '_' :: cs) (d :: ds)

inductive NamesRadix (p : Char) : Nat → Prop
  | hex : Text.lowerAscii p = 'x' → NamesRadix p 16
  | octal : Text.lowerAscii p = 'o' → NamesRadix p 8
  | binary : Text.lowerAscii p = 'b' → NamesRadix p 2

/-- A numeral and the number it denotes: in decimal it does not begin with a zero, unless all its
digits are zeros; behind a prefix it may begin with underscores, up to a number of them. -/
inductive IsNumeral (gap : Nat) : List Char → Nat → Prop
  | decimal {cs : List Char} {ds : List Nat} : IsDigits 10 cs ds →
      (ds.head? = some 0 → ∀ d ∈ ds, d = 0) → IsNumeral gap cs (Nat.ofDigits 10 ds.reverse)
  | prefixed {p : Char} {radix k : Nat} {cs : List Char} {ds : List Nat} : NamesRadix p radix →
      k ≤ gap → IsDigits radix cs ds →
      IsNumeral gap ('0' :: p :: (List.replicate k '_' ++ cs)) (Nat.ofDigits radix ds.reverse)

inductive IsInteger (gap : Nat) : List Char → Int → Prop
  | plain {cs : List Char} {n : Nat} : IsNumeral gap cs n → IsInteger gap cs n
  | plus {cs : List Char} {n : Nat} : IsNumeral gap cs n → IsInteger gap ('+' :: cs) n
  | minus {cs : List Char} {n : Nat} : IsNumeral gap cs n → IsInteger gap ('-' :: cs) (-n)

def Spells (gap : Nat) (text : String) (n : Int) : Prop :=
  ∃ before cs after, text.toList = before ++ cs ++ after ∧ (∀ c ∈ before, Text.isBlank c = true) ∧
    (∀ c ∈ after, Text.isBlank c = true) ∧ IsInteger gap cs n

/-! ## Digits -/

section
variable {radix : Nat} {c : Char} {d : Nat}

theorem toNat_digitChar (h : d < 36) :
    (Number.digitChar d).toNat = if d < 10 then 48 + d else 87 + d := by
  have hv {n : Nat} (hn : n < 0xd800) : (Char.ofNat n).toNat = n := by
    rw [Char.ofNat, dif_pos (.inl hn)]
    rfl
  unfold Number.digitChar
  split
  · exact hv (by omega)
  · rw [hv (by omega)]
    omega

theorem digitValue?_eq_some_iff (hradix : radix ≤ 36) :
    Number.digitValue? radix c = some d ↔ IsDigit radix c d := by
  simp only [Number.digitValue?, IsDigit, Option.filter_eq_some_iff, decide_eq_true_eq, and_comm (b := d < radix),
    ← Char.toNat_inj, Bool.and_eq_true]
  refine and_congr_right fun hd => ?_
  rw [Text.toNat_lowerAscii, toNat_digitChar (by omega)]
  split_ifs <;> simp <;> omega

theorem isDigit_lowerAscii : IsDigit radix (Text.lowerAscii c) d ↔ IsDigit radix c d := by
  rw [IsDigit, IsDigit, Text.lowerAscii_lowerAscii]

theorem IsDigit.between (hradix : radix ≤ 36) (h : IsDigit radix c d) :
    48 ≤ c.toNat ∧ c.toNat ≤ 122 ∧ c ≠ '_' := by
  have hchar := congrArg Char.toNat h.2
  have hd := h.1
  rw [Text.toNat_lowerAscii, toNat_digitChar (by omega)] at hchar
  have hne : c = '_' → c.toNat = 95 := by rintro rfl; rfl
  refine ⟨?_, ?_, fun h => ?_⟩
  · split_ifs at hchar <;> omega
  · split_ifs at hchar <;> omega
  · have := hne h
    split_ifs at hchar <;> omega

end

section
variable {radix : Nat} {cs : List Char} {ds : List Nat}

theorem IsDigits.head (h : IsDigits radix cs ds) :
    ∃ c t d ds', cs = c :: t ∧ ds = d :: ds' ∧ IsDigit radix c d := by
  cases h with
  | last hd | next hd _ | spaced hd _ => exact ⟨_, _, _, _, rfl, rfl, hd⟩

theorem not_isDigits_underscore (hradix : radix ≤ 36) : ¬ IsDigits radix ('_' :: cs) ds := by
  intro h
  obtain ⟨_, _, _, _, he, -, hd⟩ := h.head
  cases he
  exact (hd.between hradix).2.2 rfl

theorem isDigits_singleton_iff {c : Char} :
    IsDigits radix [c] ds ↔ ∃ d, IsDigit radix c d ∧ ds = [d] := by
  constructor
  · intro h
    cases h with
    | last hd => exact ⟨_, hd, rfl⟩
    | next _ h => cases h
  · rintro ⟨d, hd, rfl⟩
    exact .last hd

theorem isDigits_spaced_iff {c : Char} (hradix : radix ≤ 36) : IsDigits radix (c :: '_' :: cs) ds ↔
    ∃ d ds', IsDigit radix c d ∧ IsDigits radix cs ds' ∧ ds = d :: ds' := by
  constructor
  · intro h
    cases h with
    | next _ h => exact absurd h (not_isDigits_underscore hradix)
    | spaced hd h => exact ⟨_, _, hd, h, rfl⟩
  · rintro ⟨d, ds', hd, h, rfl⟩
    exact .spaced hd h

theorem isDigits_next_iff {c u : Char} (hu : u ≠ '_') : IsDigits radix (c :: u :: cs) ds ↔
    ∃ d ds', IsDigit radix c d ∧ IsDigits radix (u :: cs) ds' ∧ ds = d :: ds' := by
  constructor
  · intro h
    cases h with
    | next hd h => exact ⟨_, _, hd, h, rfl⟩
    | spaced _ _ => exact absurd rfl hu
  · rintro ⟨d, ds', hd, h, rfl⟩
    exact .next hd h

theorem map_cons_digits_iff {c : Char} {es? : Option (List Char)} :
    (∃ es, es?.map (c :: ·) = some es ∧ List.Forall₂ (IsDigit radix) es ds) ↔
      ∃ d ds', IsDigit radix c d ∧ (∃ es, es? = some es ∧ List.Forall₂ (IsDigit radix) es ds') ∧
        ds = d :: ds' := by
  cases es? with
  | none => simp
  | some es => simp [List.forall₂_cons_left_iff]

theorem isDigits_iff (hradix : radix ≤ 36) : IsDigits radix cs ds ↔
    cs ≠ [] ∧ ∃ es, dropUnderscores cs = some es ∧ List.Forall₂ (IsDigit radix) es ds := by
  fun_induction dropUnderscores cs generalizing ds with
  | case1 => exact iff_of_false (fun h => by cases h) (fun h => h.1 rfl)
  | case2 => exact iff_of_false (not_isDigits_underscore hradix) (by simp)
  | case3 c =>
    rw [isDigits_singleton_iff]
    simp [List.forall₂_cons_left_iff]
  | case4 c d rest _ ih =>
    rw [isDigits_spaced_iff hradix, map_cons_digits_iff]
    simp [ih]
  | case5 c =>
    rw [isDigits_spaced_iff hradix]
    refine iff_of_false ?_ (by simp)
    rintro ⟨_, _, _, h, _⟩
    cases h
  | case6 c d rest _ hrest hlast ih =>
    have hd : d ≠ '_' := by
      rintro rfl
      cases rest with
      | nil => exact hlast rfl rfl
      | cons e rest => exact hrest e rest rfl rfl
    rw [isDigits_next_iff hd, map_cons_digits_iff]
    simp [ih]

theorem readDigitsFrom_eq_some_iff (hradix : radix ≤ 36) {n m : Nat} :
    Number.readDigitsFrom radix n cs = some m ↔
      ∃ ds, List.Forall₂ (IsDigit radix) cs ds ∧ ds.foldl (fun m d => m * radix + d) n = m := by
  induction cs generalizing n with
  | nil => simp [Number.readDigitsFrom]
  | cons c cs ih =>
    simp only [Number.readDigitsFrom, Option.bind_eq_some_iff, digitValue?_eq_some_iff hradix, ih]
    constructor
    · rintro ⟨d, hd, ds, hds, hm⟩
      exact ⟨d :: ds, .cons hd hds, hm⟩
    · rintro ⟨_, h, hm⟩
      cases h with
      | cons hd hds => exact ⟨_, hd, _, hds, hm⟩

theorem readDigits?_eq_some_iff (hradix : radix ≤ 36) {m : Nat} :
    Number.readDigits? radix cs = some m ↔
      cs ≠ [] ∧ ∃ ds, List.Forall₂ (IsDigit radix) cs ds ∧ Nat.ofDigits radix ds.reverse = m := by
  have hfold (ds : List Nat) :
      Nat.ofDigits radix ds.reverse = ds.foldl (fun m d => m * radix + d) 0 := by
    rw [Nat.ofDigits_eq_foldr, List.foldr_reverse]
    congr 1
    funext m d
    rw [Nat.mul_comm, Nat.add_comm, Nat.cast_id]
  cases cs with
  | nil => simp [Number.readDigits?]
  | cons c cs =>
    rw [Number.readDigits?, readDigitsFrom_eq_some_iff hradix]
    · simp [hfold]
    · simp

end

theorem isDigits_lowerAscii {radix : Nat} {cs : List Char} {ds : List Nat} :
    IsDigits radix (cs.map Text.lowerAscii) ds ↔ IsDigits radix cs ds := by
  constructor
  · intro h
    generalize hls : cs.map Text.lowerAscii = ls at h
    induction h generalizing cs with
    | last hd =>
      obtain ⟨c, rfl, rfl⟩ := List.map_eq_singleton_iff.mp hls
      exact .last (isDigit_lowerAscii.mp hd)
    | next hd _ ih =>
      obtain ⟨c, cs, rfl, rfl, hrest⟩ := List.map_eq_cons_iff.mp hls
      exact .next (isDigit_lowerAscii.mp hd) (ih hrest)
    | spaced hd _ ih =>
      obtain ⟨c, _, rfl, rfl, htail⟩ := List.map_eq_cons_iff.mp hls
      obtain ⟨u, cs, rfl, hu, hrest⟩ := List.map_eq_cons_iff.mp htail
      obtain rfl := (Text.lowerAscii_eq_iff (by decide)).mp hu
      exact .spaced (isDigit_lowerAscii.mp hd) (ih hrest)
  · intro h
    induction h with
    | last hd => exact .last (isDigit_lowerAscii.mpr hd)
    | next hd _ ih => exact .next (isDigit_lowerAscii.mpr hd) ih
    | spaced hd _ ih => exact .spaced (isDigit_lowerAscii.mpr hd) ih

/-! ## Numerals -/

section
variable {cs : List Char}

theorem hasLeadingZero_eq_false_iff {es : List Char} {ds : List Nat}
    (h : List.Forall₂ (IsDigit 10) es ds) :
    hasLeadingZero es = false ↔ (ds.head? = some 0 → ∀ d ∈ ds, d = 0) := by
  have hzero {c : Char} {d : Nat} (hd : IsDigit 10 c d) : c = '0' ↔ d = 0 := by
    have hv := (digitValue?_eq_some_iff (by decide)).mpr hd
    constructor
    · rintro rfl
      exact (Option.some.inj hv).symm
    · rintro rfl
      exact (Text.lowerAscii_eq_iff (by decide)).mp hd.2
  have hall {es : List Char} {ds : List Nat} (h : List.Forall₂ (IsDigit 10) es ds) :
      es.any (· != '0') = false ↔ ∀ d ∈ ds, d = 0 := by
    induction h with
    | nil => simp
    | cons hd _ ih => simp [hzero hd, ih]
  cases h with
  | nil => simp [hasLeadingZero]
  | @cons c d es ds hd h =>
    by_cases hc : c = '0'
    · have hd0 := (hzero hd).mp hc
      simp [hasLeadingZero, hc, hd0, hall h]
    · have hd0 := mt (hzero hd).mpr hc
      simp [hasLeadingZero, hc, hd0]

theorem splitRadix_cases (cs : List Char) :
    (∃ p radix rest, NamesRadix p radix ∧ cs = '0' :: p :: rest ∧
      splitRadix (cs.map Text.lowerAscii) = (radix, rest.map Text.lowerAscii)) ∨
    (∀ p radix rest, NamesRadix p radix → cs ≠ '0' :: p :: rest) ∧
      splitRadix (cs.map Text.lowerAscii) = (10, cs.map Text.lowerAscii) := by
  have hfront {q : Char} {ls : List Char} (h : cs.map Text.lowerAscii = '0' :: q :: ls) :
      ∃ p rest, cs = '0' :: p :: rest ∧ Text.lowerAscii p = q ∧ rest.map Text.lowerAscii = ls := by
    obtain ⟨z, _, rfl, hz, h⟩ := List.map_eq_cons_iff.mp h
    obtain ⟨p, rest, rfl, hp, hrest⟩ := List.map_eq_cons_iff.mp h
    obtain rfl := (Text.lowerAscii_eq_iff (by decide)).mp hz
    exact ⟨p, rest, rfl, hp, hrest⟩
  unfold splitRadix
  split
  · rename_i h
    obtain ⟨p, rest, rfl, hp, rfl⟩ := hfront h
    exact .inl ⟨p, 16, rest, .hex hp, rfl, rfl⟩
  · rename_i h
    obtain ⟨p, rest, rfl, hp, rfl⟩ := hfront h
    exact .inl ⟨p, 8, rest, .octal hp, rfl, rfl⟩
  · rename_i h
    obtain ⟨p, rest, rfl, hp, rfl⟩ := hfront h
    exact .inl ⟨p, 2, rest, .binary hp, rfl, rfl⟩
  · rename_i hx ho hb
    refine .inr ⟨fun p radix rest hp he => ?_, rfl⟩
    subst he
    cases hp with
    | hex hp => exact hx _ (by rw [List.map_cons, List.map_cons, hp]; rfl)
    | octal hp => exact ho _ (by rw [List.map_cons, List.map_cons, hp]; rfl)
    | binary hp => exact hb _ (by rw [List.map_cons, List.map_cons, hp]; rfl)

theorem NamesRadix.unique {p : Char} {r s : Nat} (hr : NamesRadix p r) (hs : NamesRadix p s) :
    r = s := by
  cases hr <;> rename_i hr <;> cases hs <;> rename_i hs <;>
    first | rfl | exact absurd (hr.symm.trans hs) (by decide)

theorem not_isDigits_of_namesRadix {p : Char} {radix : Nat} {rest : List Char} {ds : List Nat}
    (hp : NamesRadix p radix) : ¬ IsDigits 10 ('0' :: p :: rest) ds := by
  intro h
  cases h with
  | next _ h =>
    obtain ⟨_, _, d, _, he, -, hd, hchar⟩ := h.head
    cases he
    have := congrArg Char.toNat hchar
    rw [toNat_digitChar (by omega), if_pos hd] at this
    cases hp with
    | hex hp | octal hp | binary hp => rw [hp] at this; simp at this; omega
  | spaced _ _ => cases hp with
    | hex hp | octal hp | binary hp => exact absurd hp (by decide)

theorem dropLeadingUnderscores_map (radix : Nat) : dropLeadingUnderscores radix
    (cs.map Text.lowerAscii) = (dropLeadingUnderscores radix cs).map Text.lowerAscii := by
  have hscore {c : Char} (hc : c ≠ '_') : Text.lowerAscii c ≠ '_' :=
    mt (Text.lowerAscii_eq_iff (by decide)).mp hc
  unfold dropLeadingUnderscores
  split
  · rfl
  rcases cs with _ | ⟨c, _ | ⟨d, rest⟩⟩
  · rfl
  · by_cases hc : c = '_'
    · rw [hc]; rfl
    · simp [hc, hscore hc]
  · by_cases hc : c = '_'
    · by_cases hd : d = '_'
      · rw [hc, hd]; rfl
      · have hu : Text.lowerAscii '_' = '_' := rfl
        simp [hc, hu, hd, hscore hd]
    · simp [hc, hscore hc]

theorem isDigits_dropLeadingUnderscores_iff {radix : Nat} {ds : List Nat} (hne : radix ≠ 10)
    (hradix : radix ≤ 36) : IsDigits radix (dropLeadingUnderscores radix cs) ds ↔
      ∃ k ≤ 2, ∃ digits, cs = List.replicate k '_' ++ digits ∧ IsDigits radix digits ds := by
  unfold dropLeadingUnderscores
  rw [if_neg hne]
  constructor
  · intro h
    split at h
    · exact ⟨2, by omega, _, rfl, h⟩
    · exact ⟨1, by omega, _, rfl, h⟩
    · exact ⟨0, by omega, _, rfl, h⟩
  · rintro ⟨k, hk, digits, rfl, h⟩
    obtain ⟨c, t, d, ds', rfl, rfl, hd⟩ := h.head
    have hc := (hd.between hradix).2.2
    obtain rfl | rfl | rfl : k = 0 ∨ k = 1 ∨ k = 2 := by omega
    · simpa [hc] using h
    · simpa [hc] using h
    · exact h

theorem exists_digits_iff {radix m : Nat} (hradix : radix ≤ 36) {P : List Char → Prop}
    {Q : List Nat → Prop} (hPQ : ∀ es ds, List.Forall₂ (IsDigit radix) es ds → (P es ↔ Q ds)) :
    (∃ es, dropUnderscores (cs.map Text.lowerAscii) = some es ∧ P es ∧
      Number.readDigits? radix es = some m) ↔
    ∃ ds, IsDigits radix cs ds ∧ Q ds ∧ Nat.ofDigits radix ds.reverse = m := by
  simp only [readDigits?_eq_some_iff hradix]
  constructor
  · rintro ⟨es, hes, hP, hne, ds, hds, hm⟩
    have hcs : cs.map Text.lowerAscii ≠ [] := fun h => by
      rw [h] at hes
      exact hne (Option.some.inj hes).symm
    exact ⟨ds, isDigits_lowerAscii.mp ((isDigits_iff hradix).mpr ⟨hcs, es, hes, hds⟩),
      (hPQ es ds hds).mp hP, hm⟩
  · rintro ⟨ds, hds, hQ, hm⟩
    obtain ⟨-, es, hes, hall⟩ := (isDigits_iff hradix).mp (isDigits_lowerAscii.mpr hds)
    have hne : es ≠ [] := by
      rintro rfl
      cases hall
      cases hds
    exact ⟨es, hes, (hPQ es ds hall).mpr hQ, hne, ds, hall, hm⟩

theorem magnitude?_eq_some_iff {m : Nat} : magnitude? cs = some m ↔ IsNumeral 2 cs m := by
  rcases splitRadix_cases cs with ⟨p, radix, rest, hp, rfl, hsplit⟩ | ⟨hnone, hsplit⟩
  · have hne : radix ≠ 10 := by cases hp <;> decide
    have hradix : radix ≤ 36 := by cases hp <;> decide
    have hbody : magnitude? ('0' :: p :: rest) = some m ↔
        ∃ ds, IsDigits radix (dropLeadingUnderscores radix rest) ds ∧ True ∧
          Nat.ofDigits radix ds.reverse = m := by
      rw [← exists_digits_iff hradix (P := fun _ => True) fun _ _ _ => Iff.rfl]
      simp only [magnitude?, hsplit, dropLeadingUnderscores_map]
      simp [hne, Option.bind_eq_some_iff]
    simp only [hbody, isDigits_dropLeadingUnderscores_iff hne hradix, true_and]
    constructor
    · rintro ⟨ds, ⟨k, hk, digits, rfl, hds⟩, rfl⟩
      exact .prefixed hp hk hds
    · intro h
      cases h with
      | decimal hds _ => exact (not_isDigits_of_namesRadix hp hds).elim
      | prefixed hp' hk hds =>
        obtain rfl := hp.unique hp'
        exact ⟨_, ⟨_, hk, _, rfl, hds⟩, rfl⟩
  · have hbody : magnitude? cs = some m ↔ ∃ ds, IsDigits 10 cs ds ∧
        (ds.head? = some 0 → ∀ d ∈ ds, d = 0) ∧ Nat.ofDigits 10 ds.reverse = m := by
      rw [← exists_digits_iff (by decide) (P := fun es => hasLeadingZero es = false)
        fun _ _ => hasLeadingZero_eq_false_iff]
      simp [magnitude?, hsplit, dropLeadingUnderscores, Option.bind_eq_some_iff]
    rw [hbody]
    constructor
    · rintro ⟨ds, hds, hlead, rfl⟩
      exact .decimal hds hlead
    · intro h
      cases h with
      | decimal hds hlead => exact ⟨_, hds, hlead, rfl⟩
      | prefixed hp _ _ => exact absurd rfl (hnone _ _ _ hp)

end

/-! ## Signs and white space -/

section
variable {gap : Nat} {cs : List Char}

theorem IsDigits.between {radix : Nat} {ds : List Nat} (hradix : radix ≤ 36) (h : IsDigits radix cs ds) :
    ∀ c ∈ cs, 48 ≤ c.toNat ∧ c.toNat ≤ 122 := by
  have hdigit {c : Char} {d : Nat} (hd : IsDigit radix c d) := hd.between hradix
  induction h with
  | last hd => simpa using ⟨(hdigit hd).1, (hdigit hd).2.1⟩
  | next hd _ ih => exact List.forall_mem_cons.mpr ⟨⟨(hdigit hd).1, (hdigit hd).2.1⟩, ih⟩
  | spaced hd _ ih =>
    exact List.forall_mem_cons.mpr ⟨⟨(hdigit hd).1, (hdigit hd).2.1⟩,
      List.forall_mem_cons.mpr ⟨by decide, ih⟩⟩

theorem NamesRadix.between {p : Char} {radix : Nat} (h : NamesRadix p radix) :
    48 ≤ p.toNat ∧ p.toNat ≤ 122 := by
  cases h with
  | hex h | octal h | binary h =>
    have := congrArg Char.toNat h
    rw [Text.toNat_lowerAscii] at this
    simp only [Char.reduceToNat] at this
    split at this <;> omega

theorem IsNumeral.between {n : Nat} (h : IsNumeral gap cs n) :
    cs ≠ [] ∧ ∀ c ∈ cs, 48 ≤ c.toNat ∧ c.toNat ≤ 122 := by
  cases h with
  | decimal hds _ =>
    obtain ⟨_, _, _, _, rfl, -⟩ := hds.head
    exact ⟨by simp, hds.between (by decide)⟩
  | @prefixed p radix k cs ds hp hk hds =>
    have hradix : radix ≤ 36 := by cases hp <;> decide
    refine ⟨by simp, fun c hc => ?_⟩
    simp only [List.mem_cons, List.mem_append, List.mem_replicate] at hc
    rcases hc with rfl | rfl | ⟨-, rfl⟩ | hc
    · decide
    · exact hp.between
    · decide
    · exact hds.between hradix c hc

theorem IsInteger.not_blank {n : Int} (h : IsInteger gap cs n) :
    cs ≠ [] ∧ ∀ c ∈ cs, Text.isBlank c = false := by
  have hnumeral {cs : List Char} {m : Nat} (h : IsNumeral gap cs m) :
      ∀ c ∈ cs, Text.isBlank c = false := fun c hc => Text.isBlank_of_between (h.between.2 c hc)
  cases h with
  | plain h => exact ⟨h.between.1, hnumeral h⟩
  | plus h | minus h => exact ⟨by simp, List.forall_mem_cons.mpr ⟨by decide, hnumeral h⟩⟩

theorem isInteger_iff {n : Int} : IsInteger gap cs n ↔
    ∃ m, IsNumeral gap (splitSign cs).2 m ∧ (if (splitSign cs).1 then -(m : Int) else m) = n := by
  have hsign {c : Char} {cs : List Char} {m : Nat} (hc : c.toNat < 48) : ¬ IsNumeral gap (c :: cs) m :=
    fun h => absurd (h.between.2 c (by simp)).1 (by omega)
  unfold splitSign
  split
  · constructor
    · intro h
      cases h with
      | plain h => exact (hsign (by decide) h).elim
      | minus h => exact ⟨_, h, rfl⟩
    · rintro ⟨m, h, rfl⟩
      exact .minus h
  · constructor
    · intro h
      cases h with
      | plain h => exact (hsign (by decide) h).elim
      | plus h => exact ⟨_, h, rfl⟩
    · rintro ⟨m, h, rfl⟩
      exact .plus h
  · rename_i hminus hplus
    constructor
    · intro h
      cases h with
      | plain h => exact ⟨_, h, rfl⟩
      | plus h => exact (hplus _ rfl).elim
      | minus h => exact (hminus _ rfl).elim
    · rintro ⟨m, h, rfl⟩
      exact .plain h

theorem spells_iff {text : String} {n : Int} :
    Spells gap text n ↔ IsInteger gap (Text.trim text.toList) n := by
  constructor
  · rintro ⟨before, cs, after, htext, hbefore, hafter, h⟩
    rwa [htext, Text.trim_padded hbefore hafter h.not_blank.1 h.not_blank.2]
  · intro h
    obtain ⟨before, after, htext, hbefore, hafter⟩ := Text.exists_padding text.toList
    exact ⟨before, _, after, htext, hbefore, hafter, h⟩

end

/-! ## Reading -/

theorem bound_eq : bound = Nat.pow 2 127 := by
  decide +kernel

/-- What the reader makes of a text is decided by the magnitude that it spells, if any. -/
theorem read_cases (text : String) :
    (∃ n, Spells 2 text n ∧ (∀ m, Spells 2 text m → m = n) ∧ read text =
      if n.natAbs < Nat.pow 2 127 then .ok n else .error (.overflow "int" text)) ∨
    (∀ n, ¬ Spells 2 text n) ∧ read text = .error (.malformed "int" text) := by
  simp only [spells_iff, isInteger_iff, ← magnitude?_eq_some_iff, ← bound_eq]
  unfold read
  generalize splitSign (Text.trim text.toList) = parts
  obtain ⟨negative, unsigned⟩ := parts
  dsimp only
  cases magnitude? unsigned with
  | none => exact .inr ⟨by simp, rfl⟩
  | some m =>
    have habs : (if negative then -(m : Int) else m).natAbs = m := by split <;> simp
    refine .inl ⟨if negative then -(m : Int) else m, ⟨m, rfl, rfl⟩, ?_, ?_⟩
    · rintro _ ⟨m', hm, rfl⟩
      rw [Option.some.inj hm]
    · rw [habs]

/-- The reader yields what is spelled, refuses what is spelled but too large as out of range, and
everything else as no integer. -/
theorem reads_what_is_spelled (text : String) :
    (∀ n, read text = .ok n ↔ Spells 2 text n ∧ n.natAbs < Nat.pow 2 127) ∧
    ∀ e, read text = .error e ↔
      (e = .overflow "int" text ∧ ∃ n, Spells 2 text n ∧ Nat.pow 2 127 ≤ n.natAbs) ∨
      (e = .malformed "int" text ∧ ∀ n, ¬ Spells 2 text n) := by
  rcases read_cases text with ⟨n, hn, hunique, hread⟩ | ⟨hnone, hread⟩
  · have hvalue {P : Int → Prop} : (∃ m, Spells 2 text m ∧ P m) ↔ P n :=
      ⟨fun ⟨m, hm, h⟩ => hunique m hm ▸ h, fun h => ⟨n, hn, h⟩⟩
    have hspelled : ¬ ∀ m, ¬ Spells 2 text m := fun h => h n hn
    rw [hvalue]
    by_cases hlt : n.natAbs < Nat.pow 2 127
    · rw [hread, if_pos hlt]
      refine ⟨fun m => ⟨fun h => ?_, fun h => ?_⟩, fun e => ?_⟩
      · exact Except.ok.inj h ▸ ⟨hn, hlt⟩
      · rw [hunique m h.1]
      · exact iff_of_false (by simp) fun h => h.elim (fun h => by omega) fun h => hspelled h.2
    · rw [hread, if_neg hlt]
      refine ⟨fun m => ?_, fun e => ?_⟩
      · exact iff_of_false (by simp) fun h => hlt (hunique m h.1 ▸ h.2)
      · rw [Except.error.injEq, eq_comm]
        exact ⟨fun h => .inl ⟨h, by omega⟩, fun h => h.elim (·.1) fun h => (hspelled h.2).elim⟩
  · rw [hread]
    refine ⟨fun n => ?_, fun e => ?_⟩
    · exact iff_of_false (by simp) fun h => hnone n h.1
    · rw [Except.error.injEq, eq_comm]
      exact ⟨fun h => .inr ⟨h, hnone⟩, fun h => h.elim (fun ⟨_, n, hn, _⟩ => (hnone n hn).elim) (·.1)⟩

/-- With one underscore behind the prefix at most, the grammar is not what is read. -/
theorem second_underscore_read : ¬ ∀ text n,
    read text = .ok n ↔ Spells 1 text n ∧ n.natAbs < Nat.pow 2 127 := by
  intro h
  have hread : read "0x__1" = .ok 1 := by decide +kernel
  obtain ⟨m, hm, -⟩ := isInteger_iff.mp (spells_iff.mp ((h _ _).mp hread).1)
  have htext : (splitSign (Text.trim "0x__1".toList)).2 = ['0', 'x', '_', '_', '1'] := by decide +kernel
  rw [htext] at hm
  generalize hcs : ['0', 'x', '_', '_', '1'] = cs at hm
  cases hm with
  | decimal hds _ => exact not_isDigits_of_namesRadix (.hex rfl) (hcs ▸ hds)
  | @prefixed p radix k cs ds hp hk hds =>
    have hradix : radix ≤ 36 := by cases hp <;> decide
    obtain ⟨c, _, _, _, rfl, -, hd⟩ := hds.head
    have hc := (hd.between hradix).2.2
    obtain rfl | rfl : k = 0 ∨ k = 1 := by omega
    · simp only [List.replicate_zero, List.nil_append, List.cons.injEq] at hcs
      exact hc hcs.2.2.1.symm
    · simp only [List.replicate_one, List.cons_append, List.nil_append, List.cons.injEq] at hcs
      exact hc hcs.2.2.2.1.symm

end IntLiteral

end ActorHub
