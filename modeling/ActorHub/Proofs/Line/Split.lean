import ActorHub.Session
import ActorHub.Proofs.Number.IntLiteral
import ActorHub.Proofs.Outcome

/-!
# Splitting command lines

A command line with a commander and an id is split where they end: the commander has no blank in it, the
id is followed by what is no digit, and the body is all the rest of the line. So the line under which a
session sends a command is split into what the session made it of.
-/

namespace ActorHub

namespace Text

theorem isDecimalDigit_of_ascii {c : Char} (h : c.toNat < 0x80) : isDecimalDigit c = isAsciiDigit c := by
  have htable : ∀ bs, decimalDigitTable.boundaries = 0x30 :: 0x3a :: 0x660 :: bs →
      (decimalDigitTable.boundaries.takeWhile (· ≤ c.toNat)).length % 2 =
        if 48 ≤ c.toNat ∧ c.toNat ≤ 57 then 1 else 0 := by
    intro bs hbs
    have hthird : ¬ 0x660 ≤ c.toNat := by omega
    rw [hbs]
    by_cases hfirst : 0x30 ≤ c.toNat
    · by_cases hsecond : 0x3a ≤ c.toNat
      · have hno : ¬ c.toNat ≤ 57 := by omega
        simp [hfirst, hsecond, hthird, hno]
      · have hyes : c.toNat ≤ 57 := by omega
        simp [hfirst, hsecond, hyes]
    · simp [hfirst]
  rw [Bool.eq_iff_iff, isAsciiDigit_iff, isDecimalDigit, CodePoints.contains, htable _ rfl]
  split
  · next hdigit => simp [hdigit]
  · next hdigit => simp [hdigit]

end Text

namespace CommandLine

/-- ASCII letters and digits, or nothing, then a dot and at least one more letter, digit, underscore or
dot. -/
def IsCommander (text : String) : Prop :=
  ∃ front back : List Char, text.toList = front ++ '.' :: back ∧ back ≠ [] ∧
    (∀ c ∈ front, Text.isAsciiLetter c = true ∨ Text.isAsciiDigit c = true) ∧
    ∀ c ∈ back, Lexeme.isNameChar c = true

def BeginsBody (text : String) : Prop :=
  ∃ c ∈ text.toList.head?, Text.isAsciiLetter c = true ∨ c = '_'

section
variable {c : Char} {front back rest : List Char}

theorem isWordChar_of_ascii (h : Text.isAsciiLetter c = true ∨ Text.isAsciiDigit c = true) :
    isWordChar c = true := by
  simp only [isWordChar, isLetter, Bool.or_eq_true]
  exact h.imp (.inl ∘ .inl) id

/-! ## The parts of a line -/

theorem dropBlanks?_space (h : ∀ d ∈ rest.head?, Text.isBlank d = false) :
    dropBlanks? (' ' :: rest) = some rest := by
  have hspace : Text.isBlank ' ' = true := by decide
  rw [dropBlanks?, if_pos hspace, Text.dropBlanks, dropWhile_eq_self h]

theorem commander?_append (hback : back ≠ [])
    (hfront : ∀ c ∈ front, Text.isAsciiLetter c = true ∨ Text.isAsciiDigit c = true)
    (hnames : ∀ c ∈ back, Lexeme.isNameChar c = true) (h : ∀ d ∈ rest.head?, Text.isBlank d = false) :
    commander? (front ++ '.' :: (back ++ ' ' :: rest)) = some (front ++ '.' :: back, rest) := by
  have hwords : ∀ c ∈ front, isWordChar c = true := fun c hc => isWordChar_of_ascii (hfront c hc)
  have htail : ∀ c ∈ back, (isWordChar c || c = '_' || c = '.') = true := by
    intro c hc
    simp only [Bool.or_eq_true, decide_eq_true_eq]
    rcases Lexeme.isNameChar_iff.mp (hnames c hc) with hc | hc | hc | hc
    · exact .inl (.inl (isWordChar_of_ascii (.inl hc)))
    · exact .inl (.inl (isWordChar_of_ascii (.inr hc)))
    · exact .inl (.inr hc)
    · exact .inr hc
  have hdot : ∀ d ∈ ('.' :: (back ++ ' ' :: rest)).head?, isWordChar d = false := by
    intro d hd
    cases hd
    decide
  have hspace : ∀ d ∈ (' ' :: rest).head?, (isWordChar d || d = '_' || d = '.') = false := by
    intro d hd
    cases hd
    decide
  simp only [commander?, dropWhile_append_of_stop hwords hdot, takeWhile_append_of_stop hwords hdot,
    takeWhile_append_of_stop htail hspace, dropWhile_append_of_stop htail hspace, dropBlanks?_space h]
  cases back with
  | nil => exact absurd rfl hback
  | cons => rfl

theorem number?_append (n : Nat) (h : ∀ d ∈ rest.head?, Text.isBlank d = false) :
    number? (Nat.toDigits 10 n ++ ' ' :: rest) = some (Nat.toDigits 10 n, rest) := by
  have hdigits : ∀ c ∈ Nat.toDigits 10 n, Text.isDecimalDigit c = true := by
    intro c hc
    have hdigit := Number.isAsciiDigit_of_mem_toDigits hc
    have hle := Text.isAsciiDigit_iff.mp hdigit
    rw [Text.isDecimalDigit_of_ascii (by omega), hdigit]
  have hspace : ∀ d ∈ (' ' :: rest).head?, Text.isDecimalDigit d = false := by
    intro d hd
    cases hd
    decide
  unfold number?
  rw [takeWhile_append_of_stop hdigits hspace, dropWhile_append_of_stop hdigits hspace,
    dropBlanks?_space h]
  cases hd : Nat.toDigits 10 n with
  | nil => exact absurd hd Nat.toDigits_ne_nil
  | cons => rfl

theorem toNat_of_begins (hc : Text.isAsciiLetter c = true ∨ c = '_') :
    Text.isBlank c = false ∧ Text.isDecimalDigit c = false ∧ (isLetter c || c = '_') = true := by
  have hrange : 65 ≤ c.toNat ∧ c.toNat ≤ 122 := by
    rcases hc with hc | rfl
    · have := Text.isAsciiLetter_iff.mp hc
      omega
    · decide
  refine ⟨?_, ?_, ?_⟩
  · simp only [Text.isBlank, Bool.or_eq_false_iff, Bool.and_eq_false_iff, decide_eq_false_iff_not,
      beq_eq_false_iff_ne]
    omega
  · rw [Text.isDecimalDigit_of_ascii (by omega), ← Bool.not_eq_true, Text.isAsciiDigit_iff]
    omega
  · simp only [isLetter, Bool.or_eq_true, decide_eq_true_eq]
    exact hc.imp (.inl ∘ .inl) id

theorem idAndBody?_append (n : Nat) (hc : Text.isAsciiLetter c = true ∨ c = '_')
    (hline : '\n' ∉ c :: rest) :
    idAndBody? (Nat.toDigits 10 n ++ ' ' :: c :: rest) = some (some (Nat.toDigits 10 n), c :: rest) := by
  obtain ⟨hblank, hdigit, hfirst⟩ := toNat_of_begins hc
  have hnumber : number? (c :: rest) = none := by
    rw [number?, List.takeWhile_cons_of_neg (by simp [hdigit])]
  have hbody : body? (c :: rest) = some (c :: rest) := by
    rw [body?, if_pos]
    rw [hfirst, Bool.true_and, Bool.not_eq_true', List.contains_eq_mem, decide_eq_false_iff_not]
    exact hline
  have hnumbered : numbered? (Nat.toDigits 10 n ++ ' ' :: c :: rest) =
      some (Nat.toDigits 10 n, c :: rest) := by
    unfold numbered?
    rw [number?_append n (by simpa using hblank)]
    dsimp only [Option.bind_eq_bind, Option.bind_some]
    rw [hnumber]
    dsimp only
    rw [hbody]
    rfl
  rw [idAndBody?, hnumbered]
  rfl

end

/-! ## Whole lines -/

section
variable {commander target body : String}

theorem newline_not_mem (htarget : '\n' ∉ target.toList) (hbody : '\n' ∉ body.toList) :
    '\n' ∉ (target ++ " " ++ body).toList := by
  simp only [String.toList_append, List.mem_append, not_or]
  exact ⟨⟨htarget, by decide⟩, hbody⟩

theorem split_append (hcommander : IsCommander commander) (hbegins : BeginsBody target) {n : Nat}
    (hn : n < idBound) (htarget : '\n' ∉ target.toList) (hbody : '\n' ∉ body.toList) :
    split (commander ++ " " ++ toString n ++ " " ++ target ++ " " ++ body ++ "\n") =
      .ok ⟨some commander, n, String.ofList (Text.trim (target ++ " " ++ body).toList)⟩ := by
  obtain ⟨front, back, hparts, hback, hfront, hnames⟩ := hcommander
  obtain ⟨c, hc, hfirst⟩ := hbegins
  obtain ⟨rest, htext⟩ : ∃ rest, (target ++ " " ++ body).toList = c :: rest := by
    obtain ⟨tail, htail⟩ := List.head?_eq_some_iff.mp hc
    exact ⟨_, by rw [String.toList_append, String.toList_append, htail]; rfl⟩
  have hline := newline_not_mem htarget hbody
  have hchars : Line.dropNewline
      (commander ++ " " ++ toString n ++ " " ++ target ++ " " ++ body ++ "\n").toList =
        front ++ '.' :: (back ++ ' ' :: (Nat.toDigits 10 n ++ ' ' :: c :: rest)) := by
    have hwhole : (commander ++ " " ++ toString n ++ " " ++ target ++ " " ++ body ++ "\n").toList =
        (front ++ '.' :: (back ++ ' ' :: (Nat.toDigits 10 n ++ ' ' :: c :: rest))) ++ ['\n'] := by
      rw [← htext]
      simp [String.toList_append, hparts]
    rw [hwhole, Line.dropNewline, List.getLast?_concat, if_pos rfl, List.dropLast_concat]
  have hdigit : ∀ d ∈ (Nat.toDigits 10 n ++ ' ' :: c :: rest).head?, Text.isBlank d = false := by
    intro d hd
    cases hds : Nat.toDigits 10 n with
    | nil => exact absurd hds Nat.toDigits_ne_nil
    | cons e ds =>
      rw [hds] at hd
      cases hd
      have hmem : d ∈ Nat.toDigits 10 n := by rw [hds]; exact List.mem_cons_self
      exact Text.isBlank_of_isAsciiDigit (Number.isAsciiDigit_of_mem_toDigits hmem)
  have hparts? : parts? (front ++ '.' :: (back ++ ' ' :: (Nat.toDigits 10 n ++ ' ' :: c :: rest))) =
      some (some (front ++ '.' :: back), some (Nat.toDigits 10 n), c :: rest) := by
    unfold parts?
    dsimp only [Option.bind_eq_bind]
    rw [commander?_append hback hfront hnames hdigit, Option.bind_some,
      idAndBody?_append n hfirst (htext ▸ hline)]
    rfl
  have hid : (Number.readDigits? 10 (Nat.toDigits 10 n)).filter (· < idBound) = some n := by
    rw [Number.readDigits?_toDigits, Option.filter_some_pos (by simpa using hn)]
  simp only [split, Line.withoutNewline, String.toList_ofList, hchars, hparts?, hid]
  rw [htext, ← hparts]
  simp only [Option.map_some, String.ofList_toList]
  rfl

end

end CommandLine

/-! ## Sent commands -/

namespace Session

/-- The line under which a session sends a command names the commander, the message id, and then the
target and the body as they are, but for blanks at the end. -/
theorem sent_line_splits {s : Session} {target body : String} (mid : UInt32)
    (hcommander : CommandLine.IsCommander s.commander) (hbegins : CommandLine.BeginsBody target)
    (htarget : '\n' ∉ target.toList) (hbody : '\n' ∉ body.toList) :
    let line := s.commandLine mid.toNat target body
    CommandLine.split line = .ok ⟨some s.commander, mid.toNat,
      String.ofList (Text.trim (target ++ " " ++ body).toList)⟩ ∧
    ∀ sent, (s.sendAs mid.toNat target body).2 = .ok sent → sent.mid = mid.toNat ∧ sent.line = line := by
  intro line
  have hmid : mid.toNat < CommandLine.idBound := mid.toNat_lt
  refine ⟨CommandLine.split_append hcommander hbegins hmid htarget hbody, fun sent hsent => ?_⟩
  unfold sendAs at hsent
  split at hsent
  · cases hsent
  · obtain ⟨-, -, rfl⟩ := map_eq_ok_iff.mp hsent
    exact ⟨rfl, rfl⟩

/-- The largest id, and a body with a number in front and blanks at both ends. -/
theorem sent_line_splits_padded :
    let s := make "tron.tron_1" .empty true
    CommandLine.IsCommander s.commander ∧ CommandLine.BeginsBody "alerts" ∧
      '\n' ∉ "alerts".toList ∧ '\n' ∉ " 7 up ".toList ∧
      ∃ sent, (s.sendAs 4294967295 "alerts" " 7 up ").2 = .ok sent ∧
        CommandLine.split sent.line = .ok ⟨some "tron.tron_1", 4294967295, "alerts  7 up"⟩ := by
  intro s
  have hletters : ∀ c ∈ "tron".toList, Text.isAsciiLetter c = true := List.all_eq_true.mp (by decide)
  have hcommander : CommandLine.IsCommander s.commander :=
    ⟨"tron".toList, "tron_1".toList, by decide, by decide, fun c hc => .inl (hletters c hc),
      List.all_eq_true.mp (by decide)⟩
  have hbegins : CommandLine.BeginsBody "alerts" := ⟨'a', by decide, by decide⟩
  have htarget : '\n' ∉ "alerts".toList := by decide
  have hbody : '\n' ∉ " 7 up ".toList := by decide
  obtain ⟨sent, hsent, -⟩ : ∃ sent, (s.sendAs 4294967295 "alerts" " 7 up ").2 = .ok sent ∧
      sent.mid = 4294967295 := exists_of_toOption_map (by decide +kernel)
  obtain ⟨hsplit, hline⟩ := sent_line_splits (s := s) 4294967295 hcommander hbegins htarget hbody
  refine ⟨hcommander, hbegins, htarget, hbody, sent, hsent, ?_⟩
  rw [(hline sent hsent).2]
  exact hsplit

end Session

end ActorHub
