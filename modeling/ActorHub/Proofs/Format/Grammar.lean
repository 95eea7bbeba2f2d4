import ActorHub.Format
import ActorHub.Proofs.Text.Names
import Mathlib.Data.List.Basic
import Mathlib.Data.List.TakeWhile

/-!
# The grammar of formats

A format is literal text, one directive and literal text, and in the literal text every percent sign is
doubled. The scanner finds these parts wherever they are, since a percent sign that is not doubled begins
a directive and no directive holds another percent sign.
-/

namespace ActorHub

namespace Format

/-! ## Written forms -/

def doubled (cs : List Char) : List Char :=
  cs.flatMap fun c => if c = '%' then ['%', '%'] else [c]

def IsDirective (cs : List Char) : Prop :=
  ∃ flags width precision letter, cs = '%' :: (flags ++ width ++ precision ++ [letter]) ∧
    (∀ c ∈ flags, c ∈ ['-', '+', ' ', '0', '#']) ∧ (∀ c ∈ width, Text.isAsciiDigit c = true) ∧
    (precision = [] ∨ ∃ digits, precision = '.' :: digits ∧ ∀ c ∈ digits, Text.isAsciiDigit c = true) ∧
    letter ∈ ['d', 'i', 'o', 'u', 'x', 'X', 'e', 'E', 'f', 'F', 'g', 'G']

/-- The parts of a directive behind its percent sign. A zero in front of the width is a flag. -/
structure Parts where
  flags : List Char
  width : List Char
  precision : Option (List Char)
  letter : Char
  conversion : Conversion
  flags_are : ∀ c ∈ flags, FormatFlags.isFlag c = true
  width_is : ∀ c ∈ width, Text.isAsciiDigit c = true
  width_head : width.head? ≠ some '0'
  precision_is : ∀ digits ∈ precision, ∀ c ∈ digits, Text.isAsciiDigit c = true
  converts : Conversion.ofChar? letter = some conversion

namespace Parts

def point : Option (List Char) → List Char
  | some digits => '.' :: digits
  | none => []

def behind (p : Parts) : List Char :=
  p.flags ++ (p.width ++ (point p.precision ++ [p.letter]))

def written (p : Parts) : List Char :=
  '%' :: p.behind

/-- What the parts say. A number that is missing or too large counts as zero. -/
def directive (p : Parts) : Directive :=
  ⟨FormatFlags.ofChars p.flags, (number? p.width).getD 0, p.precision.map fun ds => (number? ds).getD 0,
    p.conversion⟩

end Parts

/-! ## Literal text -/

def Stops (rest : List Char) : Prop :=
  rest = [] ∨ ∃ behind, rest = '%' :: behind ∧ behind.head? ≠ some '%'

section
variable {c : Char} {cs text rest : List Char}

theorem doubled_cons_of_ne (h : c ≠ '%') (cs : List Char) : doubled (c :: cs) = c :: doubled cs := by
  simp [doubled, h]

theorem doubled_percent_cons (cs : List Char) : doubled ('%' :: cs) = '%' :: '%' :: doubled cs :=
  rfl

theorem readLiteral_cons_of_ne (h : c ≠ '%') (cs : List Char) :
    readLiteral (c :: cs) = (c :: (readLiteral cs).1, (readLiteral cs).2) := by
  rw [readLiteral]
  · exact fun rest hc _ => h hc
  · exact h

theorem readLiteral_of_stops (h : Stops rest) : readLiteral rest = ([], rest) := by
  obtain rfl | ⟨behind, rfl, hbehind⟩ := h
  · rfl
  · cases behind with
    | nil => rfl
    | cons c behind =>
      rw [readLiteral]
      intro rest hrest
      cases hrest
      exact hbehind rfl

theorem readLiteral_eq_iff : readLiteral cs = (text, rest) ↔ cs = doubled text ++ rest ∧ Stops rest := by
  constructor
  · intro h
    fun_induction readLiteral cs generalizing text rest with
    | case1 cs text' rest' heq ih =>
      cases h
      obtain ⟨rfl, hstops⟩ := ih heq
      exact ⟨rfl, hstops⟩
    | case2 cs hne =>
      cases h
      refine ⟨rfl, .inr ⟨cs, rfl, ?_⟩⟩
      intro hhead
      obtain ⟨rest, rfl⟩ := List.head?_eq_some_iff.mp hhead
      exact hne rest rfl
    | case3 c cs hne hc text' rest' heq ih =>
      cases h
      obtain ⟨rfl, hstops⟩ := ih heq
      rw [doubled_cons_of_ne hc]
      exact ⟨rfl, hstops⟩
    | case4 =>
      cases h
      exact ⟨rfl, .inl rfl⟩
  · rintro ⟨rfl, hstops⟩
    induction text with
    | nil => exact readLiteral_of_stops hstops
    | cons c text ih =>
      by_cases hc : c = '%'
      · rw [hc, doubled_percent_cons, List.cons_append, List.cons_append, readLiteral, ih]
      · rw [doubled_cons_of_ne hc, List.cons_append, readLiteral_cons_of_ne hc, ih]

end

/-! ## Directives -/

section
variable {c : Char}

theorem ofChar?_isSome_iff : (Conversion.ofChar? c).isSome = true ↔
    c ∈ ['d', 'i', 'o', 'u', 'x', 'X', 'e', 'E', 'f', 'F', 'g', 'G'] := by
  unfold Conversion.ofChar?
  split <;> simp_all

theorem isFlag_iff : FormatFlags.isFlag c = true ↔ c ∈ ['-', '+', ' ', '0', '#'] := by
  simp [FormatFlags.isFlag]

theorem letter_apart {conversion : Conversion} (h : Conversion.ofChar? c = some conversion) :
    FormatFlags.isFlag c = false ∧ Text.isAsciiDigit c = false ∧ c ≠ '.' ∧ c ≠ '%' := by
  have hletters : ∀ c ∈ ['d', 'i', 'o', 'u', 'x', 'X', 'e', 'E', 'f', 'F', 'g', 'G'],
      FormatFlags.isFlag c = false ∧ Text.isAsciiDigit c = false ∧ c ≠ '.' ∧ c ≠ '%' := by
    simp [FormatFlags.isFlag, Text.isAsciiDigit]
  exact hletters c (ofChar?_isSome_iff.mp (by rw [h]; rfl))

theorem not_isFlag_of_digit (hc : Text.isAsciiDigit c = true) (hzero : c ≠ '0') :
    FormatFlags.isFlag c = false := by
  by_contra h
  rw [Bool.not_eq_false, isFlag_iff] at h
  simp only [List.mem_cons, List.not_mem_nil, or_false] at h
  rcases h with rfl | rfl | rfl | rfl | rfl
  · cases hc
  · cases hc
  · cases hc
  · exact hzero rfl
  · cases hc

end

namespace Parts

variable (p : Parts) (rest : List Char)

theorem behind_append :
    p.behind ++ rest = p.flags ++ (p.width ++ (point p.precision ++ p.letter :: rest)) := by
  simp [behind]

theorem digits_stop : ∀ c ∈ (point p.precision ++ p.letter :: rest).head?, Text.isAsciiDigit c = false := by
  intro c hc
  cases hprecision : p.precision with
  | none =>
    rw [hprecision] at hc
    cases hc
    exact (letter_apart p.converts).2.1
  | some digits =>
    rw [hprecision] at hc
    cases hc
    decide

theorem flags_stop : ∀ c ∈ (p.width ++ (point p.precision ++ p.letter :: rest)).head?,
    FormatFlags.isFlag c = false := by
  intro c hc
  cases hwidth : p.width with
  | cons d width =>
    rw [hwidth] at hc
    cases hc
    refine not_isFlag_of_digit (p.width_is c (by simp [hwidth])) ?_
    rintro rfl
    exact p.width_head (by simp [hwidth])
  | nil =>
    cases hprecision : p.precision with
    | none =>
      rw [hwidth, hprecision] at hc
      cases hc
      exact (letter_apart p.converts).1
    | some digits =>
      rw [hwidth, hprecision] at hc
      cases hc
      decide

theorem readDirective?_behind : readDirective? (p.behind ++ rest) = some (p.directive, rest) := by
  have hletter := (letter_apart p.converts).2.1
  have hpoint := (letter_apart p.converts).2.2.1
  rw [behind_append, readDirective?, takeWhile_append_of_stop p.flags_are (p.flags_stop rest),
    dropWhile_append_of_stop p.flags_are (p.flags_stop rest)]
  simp only [FloatLiteral.spanDigits, takeWhile_append_of_stop p.width_is (p.digits_stop rest),
    dropWhile_append_of_stop p.width_is (p.digits_stop rest)]
  cases hprecision : p.precision with
  | none =>
    simp [point, hpoint, directive, hprecision, p.converts]
  | some digits =>
    have hdigits := p.precision_is digits hprecision
    have hstop : ∀ c ∈ (p.letter :: rest).head?, Text.isAsciiDigit c = false := by
      rintro c ⟨⟩
      exact hletter
    simp only [point, List.cons_append, takeWhile_append_of_stop hdigits hstop,
      dropWhile_append_of_stop hdigits hstop]
    simp [directive, hprecision, p.converts]

theorem percent_not_mem_behind : '%' ∉ p.behind := by
  intro h
  simp only [behind, List.mem_append, List.mem_singleton] at h
  rcases h with h | h | h | h
  · cases p.flags_are _ h
  · cases p.width_is _ h
  · cases hprecision : p.precision with
    | none =>
      rw [hprecision] at h
      cases h
    | some digits =>
      rw [hprecision] at h
      rcases List.mem_cons.mp h with h | h
      · cases h
      · cases p.precision_is digits hprecision _ h
  · exact (letter_apart p.converts).2.2.2 h.symm

theorem stops_written : Stops (p.written ++ rest) := by
  refine .inr ⟨p.behind ++ rest, rfl, ?_⟩
  have hne : p.behind ≠ [] := by simp [behind]
  rw [List.head?_append_of_ne_nil _ hne]
  exact fun hhead => p.percent_not_mem_behind (List.mem_of_head? hhead)

end Parts

section
variable {cs rest before after : List Char} {d : Directive}

theorem head?_width (cs : List Char) :
    ((cs.dropWhile FormatFlags.isFlag).takeWhile Text.isAsciiDigit).head? ≠ some '0' := by
  intro hzero
  rw [List.head?_takeWhile, Option.filter_eq_some_iff] at hzero
  have hflag := List.head?_dropWhile_not FormatFlags.isFlag cs
  rw [hzero.1] at hflag
  cases hflag

theorem exists_parts (h : readDirective? cs = some (d, rest)) :
    ∃ p : Parts, p.directive = d ∧ cs = p.behind ++ rest := by
  have hflags : ∀ c ∈ cs.takeWhile FormatFlags.isFlag, FormatFlags.isFlag c = true :=
    fun c hc => List.mem_takeWhile_imp hc
  have hwidth : ∀ c ∈ (cs.dropWhile FormatFlags.isFlag).takeWhile Text.isAsciiDigit,
      Text.isAsciiDigit c = true := fun c hc => List.mem_takeWhile_imp hc
  have hhead := head?_width cs
  have hcs := List.takeWhile_append_dropWhile (p := FormatFlags.isFlag) (l := cs)
  have hbehind := List.takeWhile_append_dropWhile (p := Text.isAsciiDigit)
    (l := cs.dropWhile FormatFlags.isFlag)
  simp only [readDirective?, FloatLiteral.spanDigits] at h
  generalize (cs.dropWhile FormatFlags.isFlag).dropWhile Text.isAsciiDigit = tail at h hbehind
  cases tail with
  | nil => cases h
  | cons c tail =>
    by_cases hc : c = '.'
    · subst hc
      simp only [Char.isValue, Option.pure_def, Option.bind_eq_bind] at h
      have htail := List.takeWhile_append_dropWhile (p := Text.isAsciiDigit) (l := tail)
      generalize hrest : tail.dropWhile Text.isAsciiDigit = after at h htail
      cases after with
      | nil => cases h
      | cons letter after =>
        obtain ⟨conversion, hconversion, hd⟩ := Option.bind_eq_some_iff.mp h
        cases hd
        have hdigits : ∀ ds ∈ some (tail.takeWhile Text.isAsciiDigit), ∀ c ∈ ds,
            Text.isAsciiDigit c = true := by
          rintro _ ⟨⟩ c hc
          exact List.mem_takeWhile_imp hc
        refine ⟨⟨_, _, _, letter, conversion, hflags, hwidth, hhead, hdigits, hconversion⟩, rfl, ?_⟩
        rw [Parts.behind_append, Parts.point, List.cons_append, htail, hbehind, hcs]
    · simp only [List.cons.injEq, hc, false_and, imp_self, implies_true, Option.pure_def,
        Option.bind_eq_bind] at h
      obtain ⟨conversion, hconversion, hd⟩ := Option.bind_eq_some_iff.mp h
      cases hd
      refine ⟨⟨_, _, none, c, conversion, hflags, hwidth, hhead, nofun, hconversion⟩, rfl, ?_⟩
      rw [Parts.behind_append, Parts.point, List.nil_append, hbehind, hcs]

theorem readParts?_eq_some_iff : readParts? cs = some (before, d, after) ↔
    ∃ p : Parts, p.directive = d ∧ cs = doubled before ++ p.written ++ doubled after := by
  constructor
  · intro h
    unfold readParts? at h
    split at h
    · next before' behind hbefore =>
      obtain ⟨⟨d', rest⟩, hd, h⟩ := Option.bind_eq_some_iff.mp h
      dsimp only at h
      split at h
      · next after' hafter =>
        cases h
        obtain ⟨p, rfl, rfl⟩ := exists_parts hd
        obtain ⟨rfl, -⟩ := readLiteral_eq_iff.mp hbefore
        obtain ⟨rfl, -⟩ := readLiteral_eq_iff.mp hafter
        refine ⟨p, rfl, ?_⟩
        simp [Parts.written]
      · cases h
    · cases h
  · rintro ⟨p, rfl, rfl⟩
    have hbefore : readLiteral (doubled before ++ p.written ++ doubled after) =
        (before, '%' :: (p.behind ++ doubled after)) :=
      readLiteral_eq_iff.mpr ⟨by simp [Parts.written], p.stops_written (doubled after)⟩
    have hafter : readLiteral (doubled after) = (after, []) :=
      readLiteral_eq_iff.mpr ⟨by simp, .inl rfl⟩
    rw [readParts?, hbefore]
    simp [p.readDirective?_behind, hafter]

end

/-! ## Circular formats -/

theorem isCircular_iff (cs : List Char) :
    isCircular cs = true ↔ ['%', 's'] <:+: cs ∨ ['%', 'r'] <:+: cs := by
  fun_induction isCircular cs with
  | case1 c rest ih =>
    have hlater : ∀ letter, ['%', letter] <:+: '%' :: c :: rest ↔
        c = letter ∨ ['%', letter] <:+: c :: rest := by
      intro letter
      rw [List.infix_cons_iff, List.cons_prefix_cons, List.cons_prefix_cons]
      simp [eq_comm]
    rw [Bool.or_eq_true, Bool.or_eq_true, ih, hlater, hlater, decide_eq_true_eq, decide_eq_true_eq]
    exact or_or_or_comm
  | case2 c rest hne ih =>
    have hstart : ∀ letter, ¬['%', letter] <+: c :: rest := by
      rintro letter ⟨tail, htail⟩
      obtain ⟨hc, hrest⟩ := List.cons.inj htail
      exact hne letter tail hc.symm hrest.symm
    have hlater : ∀ letter, ['%', letter] <:+: c :: rest ↔ ['%', letter] <:+: rest := by
      intro letter
      rw [List.infix_cons_iff]
      exact or_iff_right (hstart letter)
    rw [ih, hlater, hlater]
  | case3 => simp

/-! ## Formats -/

theorem exists_parts_of_isDirective {cs : List Char} (h : IsDirective cs) : ∃ p : Parts, p.written = cs := by
  obtain ⟨flags, width, precision, letter, rfl, hflags, hwidth, hprecision, hletter⟩ := h
  obtain ⟨conversion, hconversion⟩ := Option.isSome_iff_exists.mp (ofChar?_isSome_iff.mpr hletter)
  obtain ⟨point, hpoint, hdigits⟩ : ∃ point, Parts.point point = precision ∧
      ∀ digits ∈ point, ∀ c ∈ digits, Text.isAsciiDigit c = true := by
    obtain rfl | ⟨digits, rfl, hdigits⟩ := hprecision
    · exact ⟨none, rfl, nofun⟩
    · exact ⟨some digits, rfl, by rintro _ ⟨⟩; exact hdigits⟩
  let isZero : Char → Bool := (· == '0')
  refine ⟨⟨flags ++ width.takeWhile isZero, width.dropWhile isZero, point, letter, conversion, ?_, ?_, ?_,
    hdigits, hconversion⟩, ?_⟩
  · intro c hc
    rcases List.mem_append.mp hc with hc | hc
    · exact isFlag_iff.mpr (hflags c hc)
    · have hzero : isZero c = true := List.mem_takeWhile_imp hc
      rw [beq_iff_eq.mp hzero]
      rfl
  · exact fun c hc => hwidth c ((List.dropWhile_suffix isZero).subset hc)
  · intro hhead
    have hstop := List.head?_dropWhile_not isZero width
    rw [hhead] at hstop
    cases hstop
  · simp [Parts.written, Parts.behind, hpoint, ← List.append_assoc (width.takeWhile isZero)]

theorem isDirective_written (p : Parts) : IsDirective p.written := by
  refine ⟨p.flags, p.width, Parts.point p.precision, p.letter, ?_, ?_, p.width_is, ?_, ?_⟩
  · simp [Parts.written, Parts.behind]
  · exact fun c hc => isFlag_iff.mp (p.flags_are c hc)
  · cases hprecision : p.precision with
    | none => exact .inl rfl
    | some digits => exact .inr ⟨digits, rfl, p.precision_is digits hprecision⟩
  · exact ofChar?_isSome_iff.mp (by rw [p.converts]; rfl)

theorem read_of_circular {field source : String} (h : isCircular source.toList = true) :
    read field source = .error (.circularFormat field) :=
  if_pos h

theorem read_of_parts {field source : String} {before after : List Char} {p : Parts}
    (hcircular : ¬isCircular source.toList = true)
    (h : source.toList = doubled before ++ p.written ++ doubled after) :
    read field source = .ok ⟨source, String.ofList before, p.directive, String.ofList after⟩ := by
  rw [read, if_neg hcircular, readParts?_eq_some_iff.mpr ⟨p, rfl, h⟩]

theorem read_of_no_parts {field source : String} (hcircular : ¬isCircular source.toList = true)
    (h : ¬∃ before, ∃ p : Parts, ∃ after, source.toList = doubled before ++ p.written ++ doubled after) :
    read field source = .error (.unsupportedFormat source) := by
  rw [read, if_neg hcircular]
  cases hparts : readParts? source.toList with
  | none => rfl
  | some parts =>
    obtain ⟨p, -, hp⟩ := readParts?_eq_some_iff.mp hparts
    exact absurd ⟨parts.1, p, parts.2.2, hp⟩ h

theorem exists_parts_of_read {field source : String} {f : Format} (h : read field source = .ok f) :
    ∃ before, ∃ p : Parts, ∃ after, source.toList = doubled before ++ p.written ++ doubled after ∧
      f = ⟨source, String.ofList before, p.directive, String.ofList after⟩ := by
  have hplain : ¬isCircular source.toList = true := by
    intro hcircular
    rw [read_of_circular hcircular] at h
    cases h
  by_cases hparts : ∃ before, ∃ p : Parts, ∃ after,
      source.toList = doubled before ++ p.written ++ doubled after
  · obtain ⟨before, p, after, hsource⟩ := hparts
    rw [read_of_parts hplain hsource] at h
    cases h
    exact ⟨before, p, after, hsource, rfl⟩
  · rw [read_of_no_parts hplain hparts] at h
    cases h

/-- A text with a circular directive in it is refused as such, whatever else is in it. Any other is a format
just if it is literal text, one directive and literal text, where every percent sign of the literal text
is doubled, and is refused as unsupported otherwise. The parts are those of the grammar, and a number is
rendered between the two literal texts. -/
theorem read_iff_grammar (field source : String) :
    let cs := source.toList
    let circular := ['%', 's'] <:+: cs ∨ ['%', 'r'] <:+: cs
    let formatted := ∃ before written after, IsDirective written ∧
      cs = doubled before ++ written ++ doubled after
    (circular → read field source = .error (.circularFormat field)) ∧
    (¬circular → formatted → ∃ f, read field source = .ok f) ∧
    (¬circular → ¬formatted → read field source = .error (.unsupportedFormat source)) ∧
    ∀ f, read field source = .ok f → formatted ∧
      ∀ before, ∀ p : Parts, ∀ after, cs = doubled before ++ p.written ++ doubled after →
        f.directive = p.directive ∧
        ∀ arg, (f.render arg).toList = before ++ p.directive.render arg ++ after := by
  intro cs circular formatted
  have hcircular : isCircular cs = true ↔ circular := isCircular_iff cs
  have hformatted : formatted ↔
      ∃ before, ∃ p : Parts, ∃ after, cs = doubled before ++ p.written ++ doubled after := by
    constructor
    · rintro ⟨before, written, after, hwritten, hcs⟩
      obtain ⟨p, rfl⟩ := exists_parts_of_isDirective hwritten
      exact ⟨before, p, after, hcs⟩
    · rintro ⟨before, p, after, hcs⟩
      exact ⟨before, p.written, after, isDirective_written p, hcs⟩
  rw [← hcircular, hformatted]
  refine ⟨read_of_circular, ?_, read_of_no_parts, ?_⟩
  · rintro hplain ⟨before, p, after, hcs⟩
    exact ⟨_, read_of_parts hplain hcs⟩
  · intro f hf
    have hplain : ¬isCircular cs = true := by
      intro h
      rw [read_of_circular h] at hf
      cases hf
    obtain ⟨before, p, after, hcs, -⟩ := exists_parts_of_read hf
    refine ⟨⟨before, p, after, hcs⟩, ?_⟩
    intro before p after hcs
    rw [read_of_parts hplain hcs] at hf
    cases hf
    exact ⟨rfl, fun arg => by simp [Format.render]⟩

end Format

end ActorHub
