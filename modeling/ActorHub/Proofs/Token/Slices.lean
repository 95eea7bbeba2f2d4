import ActorHub.Proofs.Token.Lexer
import Mathlib.Data.List.Chain

/-!
# Slices

Lexing cuts a text into slices, one for each token, and loses none of it. `Lexeme.IsSlice` says how the
characters of a slice make up its token and `Lexeme.Stands` where such a slice may stand in a line; the
lexer takes one wherever one may stand, the longest of its class. The place where it gives up is
therefore a place where no token may stand, and what it read before does not depend on what is there.
-/

namespace ActorHub

namespace Token

def isWord : Token → Bool
  | name _ | value _ | raw _ => true
  | _ => false

def isLine : Token → Bool
  | line _ => true
  | _ => false

end Token

namespace Lexeme

/-- The characters spell the token: they are its text, or its text between quotes of one kind, or its
text behind an equals sign. -/
inductive IsSlice : Lexeme → Prop
  | name {w : List Char} : isName w = true → IsSlice ⟨.name (String.ofList w), w⟩
  | value {w : List Char} : w ≠ [] → (∀ c ∈ w, isWordChar c = true) → isName w = false →
      IsSlice ⟨.value (String.ofList w), w⟩
  | raw {w : List Char} : Text.sameName (String.ofList w) "raw" = true →
      IsSlice ⟨.raw (String.ofList w), w⟩
  | whitespace {run : List Char} : run ≠ [] → (∀ c ∈ run, c = ' ' ∨ c = '\t') →
      IsSlice ⟨.whitespace (String.ofList run), run⟩
  | delimiter (d : Delimiter) : IsSlice ⟨.delimiter d, [d.char]⟩
  | quoted {q : Char} {b : List Char} : Quoted.isQuote q = true → Quoted.Body q b →
      IsSlice ⟨.quoted (String.ofList b), q :: (b ++ [q])⟩
  | line {blanks text : List Char} : (∀ c ∈ blanks, Text.isBlank c = true) → '\n' ∉ text →
      '\r' ∉ text → IsSlice ⟨.line (String.ofList text), blanks ++ '=' :: text⟩

def EndsLine (behind : List Char) : Prop :=
  behind = [] ∨ behind.head? = some '\n' ∨ ['\r', '\n'] <+: behind

/-- Whether a line of the mode may have the token in front of a text. The rest of the line is a token
behind the word `raw` and nowhere else. -/
def Admits (mode : LexMode) (afterRaw : Bool) (behind : List Char) : Token → Prop
  | .line _ => afterRaw = true ∧ EndsLine behind
  | .raw _ => afterRaw = false ∧ mode = .command
  | .name w => afterRaw = false ∧ (mode = .command → Text.sameName w "raw" = false)
  | .delimiter d => afterRaw = false ∧ (mode = .command → d ≠ .semicolon)
  | .value _ | .quoted _ | .whitespace _ => afterRaw = false

structure Stands (mode : LexMode) (afterRaw : Bool) (l : Lexeme) (behind : List Char) : Prop where
  slice : l.IsSlice
  admitted : Admits mode afterRaw behind l.token

structure IsLongest (l : Lexeme) (behind : List Char) : Prop where
  word : l.token.isWord = true → ∀ c ∈ behind.head?, isWordChar c = false
  whitespace : l.token.isTrivia = true → ∀ c ∈ behind.head?, c ≠ ' ' ∧ c ≠ '\t'

/-! ## The rules, read backwards -/

section
variable {cs : List Char} {l : Lexeme}

theorem span_takeWhile (p : Char → Bool) (cs : List Char) : ∃ behind, cs = cs.takeWhile p ++ behind ∧
    (∀ c ∈ cs.takeWhile p, p c = true) ∧ ∀ c ∈ behind.head?, p c = false := by
  refine ⟨cs.dropWhile p, List.takeWhile_append_dropWhile.symm, fun c hc => ?_, fun c hc => ?_⟩
  · exact List.all_eq_true.mp List.all_takeWhile c hc
  · have hhead := List.head?_dropWhile_not p cs
    rw [Option.mem_def.mp hc] at hhead
    exact hhead

theorem whitespace?_eq_some (h : whitespace? cs = some l) : ∃ run behind, cs = run ++ behind ∧
    l = ⟨.whitespace (String.ofList run), run⟩ ∧ run ≠ [] ∧ (∀ c ∈ run, c = ' ' ∨ c = '\t') ∧
    ∀ c ∈ behind.head?, c ≠ ' ' ∧ c ≠ '\t' := by
  unfold whitespace? at h
  split at h
  · cases h
  · next run hne =>
    obtain ⟨behind, hcs, hrun, hstop⟩ := span_takeWhile _ cs
    exact ⟨_, behind, hcs, (Option.some.inj h).symm, hne, by simpa using hrun, by simpa using hstop⟩

theorem quoted?_eq_some (h : quoted? cs = some l) : ∃ q b behind, cs = q :: (b ++ [q]) ++ behind ∧
    l = ⟨.quoted (String.ofList b), q :: (b ++ [q])⟩ ∧ Quoted.isQuote q = true ∧ Quoted.Body q b := by
  unfold quoted? at h
  split at h
  · cases h
  · next q rest =>
    split at h
    · next hq =>
      obtain ⟨⟨b, behind⟩, hclose, rfl⟩ := Option.map_eq_some_iff.mp h
      refine ⟨q, b, behind, ?_, rfl, hq, Quoted.body_of_close hclose⟩
      simp [Quoted.close_eq_append hclose]
    · cases h

theorem delimiter?_eq_some (h : delimiter? cs = some l) : ∃ d behind, cs = [d.char] ++ behind ∧
    l = ⟨.delimiter d, [d.char]⟩ := by
  unfold delimiter? at h
  split at h
  · cases h
  · next c behind =>
    obtain ⟨d, hd, rfl⟩ := Option.map_eq_some_iff.mp h
    obtain rfl : c = d.char := by
      unfold Delimiter.ofChar? at hd
      split at hd <;> cases hd <;> rfl
    exact ⟨d, behind, rfl, rfl⟩

theorem word?_eq_some (h : word? cs = some l) : ∃ w behind, cs = w ++ behind ∧
    l = ⟨wordToken w, w⟩ ∧ w ≠ [] ∧ (∀ c ∈ w, isWordChar c = true) ∧
    ∀ c ∈ behind.head?, isWordChar c = false := by
  unfold word? at h
  split at h
  · cases h
  · next w hne =>
    obtain ⟨behind, hcs, hw, hstop⟩ := span_takeWhile isWordChar cs
    exact ⟨_, behind, hcs, (Option.some.inj h).symm, hne, hw, hstop⟩

theorem lineText_eq_some {text : List Char} (h : lineText cs = some text) :
    '\n' ∉ text ∧ '\r' ∉ text ∧ ∃ behind, cs = text ++ behind ∧ EndsLine behind := by
  induction cs generalizing text with
  | nil =>
    cases h
    exact ⟨by simp, by simp, [], rfl, .inl rfl⟩
  | cons c cs ih =>
    rw [lineText] at h
    split at h
    · next hc =>
      cases h
      exact ⟨by simp, by simp, c :: cs, rfl, .inr (.inl (congrArg some hc))⟩
    · next hn =>
      split at h
      · next hc =>
        split at h
        · next hnext =>
          cases h
          obtain ⟨cs, rfl⟩ := List.head?_eq_some_iff.mp hnext
          exact ⟨by simp, by simp, c :: '\n' :: cs, rfl, .inr (.inr ⟨cs, by rw [hc]; rfl⟩)⟩
        · cases h
      · next hr =>
        obtain ⟨t, ht, rfl⟩ := Option.map_eq_some_iff.mp h
        obtain ⟨hnewline, hreturn, behind, rfl, hends⟩ := ih ht
        exact ⟨by simp [Ne.symm hn, hnewline], by simp [Ne.symm hr, hreturn], behind, rfl, hends⟩

theorem rawLine?_eq_some (h : rawLine? cs = some l) : ∃ blanks text behind,
    cs = blanks ++ '=' :: text ++ behind ∧ l = ⟨.line (String.ofList text), blanks ++ '=' :: text⟩ ∧
    (∀ c ∈ blanks, Text.isBlank c = true) ∧ '\n' ∉ text ∧ '\r' ∉ text ∧ EndsLine behind := by
  unfold rawLine? at h
  split at h
  · next rest hrest =>
    obtain ⟨text, htext, rfl⟩ := Option.map_eq_some_iff.mp h
    obtain ⟨hnewline, hreturn, behind, rfl, hends⟩ := lineText_eq_some htext
    refine ⟨_, text, behind, ?_, rfl, fun c hc => ?_, hnewline, hreturn, hends⟩
    · rw [List.append_assoc, List.cons_append, ← hrest]
      exact List.takeWhile_append_dropWhile.symm
    · exact List.all_eq_true.mp List.all_takeWhile c hc
  · cases h

end

/-! ## Where a lexeme is taken -/

section
variable {mode : LexMode} {afterRaw : Bool} {l : Lexeme} {behind : List Char}

theorem isWordChar_of_isName {w : List Char} (h : isName w = true) : ∀ c ∈ w, isWordChar c = true :=
  fun c hc => isWordChar_of_isNameChar (isNameChar_of_mem h c hc)

theorem isName_of_sameName_raw {w : List Char} (h : Text.sameName (String.ofList w) "raw" = true) :
    isName w = true := by
  rw [← String.toList_ofList (l := w), isName_of_sameName h]
  decide

theorem ne_nil_of_isName {w : List Char} (h : isName w = true) : w ≠ [] := by
  rintro rfl
  cases h

@[simp] theorem classify_whitespace (mode : LexMode) (run : String) :
    classify mode (.whitespace run) = some (.whitespace run) := by
  cases mode <;> rfl

@[simp] theorem classify_quoted (mode : LexMode) (b : String) :
    classify mode (.quoted b) = some (.quoted b) := by
  cases mode <;> rfl

@[simp] theorem classify_line (mode : LexMode) (text : String) :
    classify mode (.line text) = some (.line text) := by
  cases mode <;> rfl

theorem classify_delimiter_eq_some_iff {d : Delimiter} {t : Token} :
    classify mode (.delimiter d) = some t ↔
      (mode = .command → d ≠ .semicolon) ∧ t = .delimiter d := by
  cases mode <;> cases d <;> simp [classify, eq_comm]

theorem next?_word {w : List Char} (hne : w ≠ []) (hw : ∀ c ∈ w, isWordChar c = true)
    (hstop : ∀ c ∈ behind.head?, isWordChar c = false) :
    next? mode false (w ++ behind) = some ⟨wordIn mode w, w⟩ := by
  simp [next?, shared?_word hne hw hstop, classify_wordToken]

theorem wordIn_cases {w : List Char} (hne : w ≠ []) (hw : ∀ c ∈ w, isWordChar c = true)
    (behind : List Char) : (⟨wordIn mode w, w⟩ : Lexeme).Stands mode false behind ∧
      (wordIn mode w).isWord = true ∧ (wordIn mode w).isTrivia = false := by
  unfold wordIn
  split
  · next h => exact ⟨⟨.raw h.2.2, rfl, h.1⟩, rfl, rfl⟩
  · next h =>
    unfold wordToken
    split
    · next hname => exact ⟨⟨.name hname, rfl, fun hm => by simpa [hm, hname] using h⟩, rfl, rfl⟩
    · next hname => exact ⟨⟨.value hne hw (by simpa using hname), rfl⟩, rfl, rfl⟩

theorem IsLongest.of_neither (hword : l.token.isWord = false) (htrivia : l.token.isTrivia = false) :
    l.IsLongest behind where
  word h := by simp [hword] at h
  whitespace h := by simp [htrivia] at h

theorem stands_of_next? {cs : List Char} (h : next? mode afterRaw cs = some l) :
    ∃ behind, cs = l.written ++ behind ∧ l.Stands mode afterRaw behind ∧ l.IsLongest behind := by
  obtain ⟨l', hl, h⟩ := Option.bind_eq_some_iff.mp h
  obtain ⟨t, ht, rfl⟩ := Option.map_eq_some_iff.mp h
  cases afterRaw with
  | true =>
    obtain ⟨blanks, text, behind, rfl, rfl, hblanks, hnewline, hreturn, hends⟩ := rawLine?_eq_some hl
    cases (classify_line ..).symm.trans ht
    exact ⟨behind, rfl, ⟨.line hblanks hnewline hreturn, rfl, hends⟩, .of_neither rfl rfl⟩
  | false =>
    simp only [Bool.false_eq_true, if_false, shared?, Option.or_eq_some_iff] at hl
    rcases hl with hl | ⟨-, hl | ⟨-, hl | ⟨-, hl⟩⟩⟩
    · obtain ⟨run, behind, rfl, rfl, hne, hrun, hstop⟩ := whitespace?_eq_some hl
      cases (classify_whitespace ..).symm.trans ht
      exact ⟨behind, rfl, ⟨.whitespace hne hrun, rfl⟩, (fun h => by cases h), fun _ => hstop⟩
    · obtain ⟨q, b, behind, rfl, rfl, hq, hb⟩ := quoted?_eq_some hl
      cases (classify_quoted ..).symm.trans ht
      exact ⟨behind, rfl, ⟨.quoted hq hb, rfl⟩, .of_neither rfl rfl⟩
    · obtain ⟨d, behind, rfl, rfl⟩ := delimiter?_eq_some hl
      obtain ⟨hd, rfl⟩ := classify_delimiter_eq_some_iff.mp ht
      exact ⟨behind, rfl, ⟨.delimiter d, rfl, hd⟩, .of_neither rfl rfl⟩
    · obtain ⟨w, behind, rfl, rfl, hne, hw, hstop⟩ := word?_eq_some hl
      rw [classify_wordToken] at ht
      obtain rfl := Option.some.inj ht
      obtain ⟨hstands, -, htrivia⟩ := wordIn_cases hne hw behind
      exact ⟨behind, rfl, hstands, fun _ => hstop, fun h => by simp [htrivia] at h⟩

theorem lineText_append {text : List Char} (hnewline : '\n' ∉ text) (hreturn : '\r' ∉ text)
    (hends : EndsLine behind) : lineText (text ++ behind) = some text := by
  induction text with
  | nil =>
    rcases hends with rfl | hhead | ⟨cs, rfl⟩
    · rfl
    · obtain ⟨cs, rfl⟩ := List.head?_eq_some_iff.mp hhead
      simp [lineText]
    · simp [lineText]
  | cons c text ih =>
    simp only [List.mem_cons, not_or] at hnewline hreturn
    rw [List.cons_append, lineText, if_neg (Ne.symm hnewline.1), if_neg (Ne.symm hreturn.1),
      ih hnewline.2 hreturn.2]
    rfl

theorem rawLine?_append {blanks text : List Char} (hblanks : ∀ c ∈ blanks, Text.isBlank c = true)
    (hnewline : '\n' ∉ text) (hreturn : '\r' ∉ text) (hends : EndsLine behind) :
    rawLine? (blanks ++ '=' :: text ++ behind) =
      some ⟨.line (String.ofList text), blanks ++ '=' :: text⟩ := by
  have hstop : ∀ c ∈ ('=' :: (text ++ behind)).head?, Text.isBlank c = false := by
    rintro c ⟨⟩
    decide
  have hdrop : Text.dropBlanks (blanks ++ '=' :: (text ++ behind)) = '=' :: (text ++ behind) :=
    dropWhile_append_of_stop hblanks hstop
  rw [List.append_assoc, List.cons_append, rawLine?, hdrop]
  simp only [lineText_append hnewline hreturn hends, takeWhile_append_of_stop hblanks hstop,
    Option.map_some]

theorem shared?_whitespace {run : List Char} (hne : run ≠ []) (hrun : ∀ c ∈ run, c = ' ' ∨ c = '\t')
    (hstop : ∀ c ∈ behind.head?, c ≠ ' ' ∧ c ≠ '\t') :
    shared? (run ++ behind) = some ⟨.whitespace (String.ofList run), run⟩ := by
  have htake : (run ++ behind).takeWhile (fun c => c = ' ' || c = '\t') = run :=
    takeWhile_append_of_stop (by simpa using hrun) (by simpa using hstop)
  have hws : whitespace? (run ++ behind) = some ⟨.whitespace (String.ofList run), run⟩ := by
    unfold whitespace?
    rw [htake]
    split
    · contradiction
    · rfl
  rw [shared?, hws]
  rfl

/-- The lexer takes a lexeme at the front of a text exactly where it may stand and is the longest. -/
theorem next?_eq_some_iff : next? mode afterRaw (l.written ++ behind) = some l ↔
    l.Stands mode afterRaw behind ∧ l.IsLongest behind := by
  constructor
  · intro h
    obtain ⟨behind', hcs, hstands, hlongest⟩ := stands_of_next? h
    rw [List.append_cancel_left hcs]
    exact ⟨hstands, hlongest⟩
  · rintro ⟨⟨hslice, hadmitted⟩, hlongest⟩
    cases hslice with
    | @name w hw =>
      obtain ⟨rfl, hraw⟩ := hadmitted
      rw [next?_word (ne_nil_of_isName hw) (isWordChar_of_isName hw) (hlongest.word rfl)]
      simpa [wordIn, wordToken, hw] using hraw
    | @value w hne hw hname =>
      obtain rfl := hadmitted
      rw [next?_word hne hw (hlongest.word rfl)]
      simp [wordIn, wordToken, hname]
    | @raw w hraw =>
      obtain ⟨rfl, rfl⟩ := hadmitted
      have hw := isName_of_sameName_raw hraw
      rw [next?_word (ne_nil_of_isName hw) (isWordChar_of_isName hw) (hlongest.word rfl)]
      simp [wordIn, hw, hraw]
    | whitespace hne hrun =>
      obtain rfl := hadmitted
      simp [next?, shared?_whitespace hne hrun (hlongest.whitespace rfl)]
    | delimiter d =>
      obtain ⟨rfl, hd⟩ := hadmitted
      simp [next?, shared?_delimiter, classify_delimiter_eq_some_iff.mpr ⟨hd, rfl⟩]
    | @quoted q b hq hb =>
      obtain rfl := hadmitted
      have hne : q ≠ '\\' := by
        rintro rfl
        exact absurd hq (by decide)
      simp [next?, shared?_quote hq, Quoted.close_append hne hb]
    | line hblanks hnewline hreturn =>
      obtain ⟨rfl, hends⟩ := hadmitted
      simp only [next?, if_true, rawLine?_append hblanks hnewline hreturn hends, Option.bind_some,
        classify_line, Option.map_some]

theorem next?_ne_none_of_word {w : List Char} (hne : w ≠ []) (hw : ∀ c ∈ w, isWordChar c = true) :
    next? mode false (w ++ behind) ≠ none := by
  obtain ⟨behind', hcs, hrun, hstop⟩ := span_takeWhile isWordChar (w ++ behind)
  have hlonger : (w ++ behind).takeWhile isWordChar ≠ [] := by
    rw [List.takeWhile_append_of_pos hw]
    simp [hne]
  rw [hcs, next?_word hlonger hrun hstop]
  exact Option.some_ne_none _

theorem next?_ne_none_of_whitespace {run : List Char} (hne : run ≠ [])
    (hrun : ∀ c ∈ run, c = ' ' ∨ c = '\t') : next? mode false (run ++ behind) ≠ none := by
  let p : Char → Bool := fun c => c = ' ' || c = '\t'
  obtain ⟨behind', hcs, hlong, hstop⟩ := span_takeWhile p (run ++ behind)
  have hlonger : (run ++ behind).takeWhile p ≠ [] := by
    rw [List.takeWhile_append_of_pos (by simpa [p] using hrun)]
    simp [hne]
  have hws := shared?_whitespace hlonger (by simpa [p] using hlong) (by simpa [p] using hstop)
  rw [hcs]
  simp [next?, hws]

theorem next?_eq_none_iff {cs : List Char} : next? mode afterRaw cs = none ↔
    ∀ (l : Lexeme) (behind : List Char), cs = l.written ++ behind →
      ¬ l.Stands mode afterRaw behind := by
  constructor
  · rintro hnone l behind rfl hstands
    revert hnone
    obtain ⟨hslice, hadmitted⟩ := hstands
    -- the word and the run may be longer than the slice; the other slices are whole in any case
    cases hslice with
    | name hw =>
      obtain ⟨rfl, -⟩ := hadmitted
      exact next?_ne_none_of_word (ne_nil_of_isName hw) (isWordChar_of_isName hw)
    | value hne hw hname =>
      obtain rfl := hadmitted
      exact next?_ne_none_of_word hne hw
    | raw hraw =>
      obtain ⟨rfl, -⟩ := hadmitted
      have hw := isName_of_sameName_raw hraw
      exact next?_ne_none_of_word (ne_nil_of_isName hw) (isWordChar_of_isName hw)
    | whitespace hne hrun =>
      obtain rfl := hadmitted
      exact next?_ne_none_of_whitespace hne hrun
    | delimiter d =>
      rw [next?_eq_some_iff.mpr ⟨⟨.delimiter d, hadmitted⟩, nofun, nofun⟩]
      exact Option.some_ne_none _
    | quoted hq hb =>
      rw [next?_eq_some_iff.mpr ⟨⟨.quoted hq hb, hadmitted⟩, nofun, nofun⟩]
      exact Option.some_ne_none _
    | line hblanks hnewline hreturn =>
      rw [next?_eq_some_iff.mpr ⟨⟨.line hblanks hnewline hreturn, hadmitted⟩, nofun, nofun⟩]
      exact Option.some_ne_none _
  · intro hnowhere
    refine Option.eq_none_iff_forall_ne_some.mpr fun l hl => ?_
    obtain ⟨behind, hcs, hstands, -⟩ := stands_of_next? hl
    exact hnowhere l behind hcs hstands

theorem IsSlice.written_ne_nil (h : l.IsSlice) : l.written ≠ [] := by
  cases h with
  | name hw => exact ne_nil_of_isName hw
  | value hne | whitespace hne => exact hne
  | raw hraw => exact ne_nil_of_isName (isName_of_sameName_raw hraw)
  | delimiter | quoted | line => simp

end

end Lexeme

/-! ## The order of tokens -/

structure Token.Precedes (t u : Token) : Prop where
  word : ¬ (t.isWord = true ∧ u.isWord = true)
  whitespace : ¬ (t.isTrivia = true ∧ u.isTrivia = true)
  line : u.isLine = t.isRaw

section
variable {mode : LexMode} {afterRaw : Bool} {cs : List Char} {ts : List Token}

theorem Lexeme.Stands.isLine {l : Lexeme} {behind : List Char} (h : l.Stands mode afterRaw behind) :
    l.token.isLine = afterRaw := by
  obtain ⟨hslice, hadmitted⟩ := h
  cases hslice with
  | name | raw | delimiter | line => exact hadmitted.1.symm
  | value | whitespace | quoted => exact Eq.symm hadmitted

theorem Lexeme.IsSlice.head {l : Lexeme} (h : l.IsSlice) (behind : List Char) :
    (l.token.isWord = true → ∃ c ∈ (l.written ++ behind).head?, Lexeme.isWordChar c = true) ∧
      (l.token.isTrivia = true → ∃ c ∈ (l.written ++ behind).head?, c = ' ' ∨ c = '\t') := by
  have hfront : ∀ {w : List Char} {p : Char → Prop}, w ≠ [] → (∀ c ∈ w, p c) →
      ∃ c ∈ (w ++ behind).head?, p c := by
    intro w p hne hw
    obtain ⟨c, w, rfl⟩ := List.exists_cons_of_ne_nil hne
    exact ⟨c, rfl, hw c (by simp)⟩
  have hne := h.written_ne_nil
  cases h with
  | name hw => exact ⟨fun _ => hfront hne (Lexeme.isWordChar_of_isName hw), nofun⟩
  | value _ hw => exact ⟨fun _ => hfront hne hw, nofun⟩
  | raw hraw =>
    have hw := Lexeme.isName_of_sameName_raw hraw
    exact ⟨fun _ => hfront hne (Lexeme.isWordChar_of_isName hw), nofun⟩
  | whitespace _ hrun => exact ⟨nofun, fun _ => hfront hne hrun⟩
  | delimiter | quoted | line => exact ⟨nofun, nofun⟩

theorem Lexes.isLine_head (h : Lexes mode afterRaw cs ts) : ∀ t ∈ ts.head?, t.isLine = afterRaw := by
  cases h with
  | done => nofun
  | step hl _ =>
    rintro t ⟨⟩
    exact (Lexeme.next?_eq_some_iff.mp hl).1.isLine

theorem Lexes.isChain (h : Lexes mode afterRaw cs ts) : ts.IsChain Token.Precedes := by
  induction h with
  | done => exact .nil
  | @step afterRaw l rest ts hl ht ih =>
    have hline := ht.isLine_head
    cases ht with
    | done => exact .singleton _
    | @step _ l' rest' ts hl' ht' =>
      refine .cons_cons ⟨?_, ?_, hline _ rfl⟩ ih
      · rintro ⟨hword, hword'⟩
        obtain ⟨c, hc, hchar⟩ := ((Lexeme.next?_eq_some_iff.mp hl').1.slice.head rest').1 hword'
        have hstop := (Lexeme.next?_eq_some_iff.mp hl).2.word hword c hc
        exact absurd hchar (by simp [hstop])
      · rintro ⟨hblank, hblank'⟩
        obtain ⟨c, hc, hspace⟩ := ((Lexeme.next?_eq_some_iff.mp hl').1.slice.head rest').2 hblank'
        obtain ⟨hne, hne'⟩ := (Lexeme.next?_eq_some_iff.mp hl).2.whitespace hblank c hc
        exact hspace.elim hne hne'

end

/-! ## What a scan has read -/

theorem utf8Size_append (as bs : List Char) : utf8Size (as ++ bs) = utf8Size as + utf8Size bs := by
  induction as with
  | nil => simp [utf8Size]
  | cons c as ih =>
    rw [List.cons_append, utf8Size, utf8Size, ih]
    omega

theorem utf8Size_eq (cs : List Char) : utf8Size cs = (String.ofList cs).utf8ByteSize := by
  induction cs with
  | nil => rfl
  | cons c cs ih =>
    rw [utf8Size, ih, String.ofList_cons, String.utf8ByteSize_append, String.utf8ByteSize_singleton]

/-- The spans cover the text from an offset on, one behind the other, each with a slice of its token. -/
inductive Tiles : Nat → List Span → List Char → Prop
  | nil {position : Nat} : Tiles position [] []
  | cons {position : Nat} {l : Lexeme} {spans : List Span} {rest : List Char} : l.written ≠ [] →
      l.IsSlice → Tiles (position + utf8Size l.written) spans rest →
      Tiles position (⟨l.token, position, position + utf8Size l.written⟩ :: spans) (l.written ++ rest)

section
variable {mode : LexMode} {afterRaw : Bool} {position : Nat} {cs : List Char} {ts : List Token}
variable {spans : List Span}

theorem Tiles.start (h : Tiles position spans cs) : ∀ s ∈ spans.head?, s.start = position := by
  cases h with
  | nil => nofun
  | cons =>
    rintro s ⟨⟩
    rfl

theorem Tiles.stop (h : Tiles position spans cs) :
    ∀ s ∈ spans.getLast?, s.stop = position + utf8Size cs := by
  induction h with
  | nil => nofun
  | @cons position l spans rest _ _ htiles ih =>
    rw [utf8Size_append, ← Nat.add_assoc]
    cases htiles with
    | nil =>
      rintro s ⟨⟩
      rfl
    | cons => simpa [List.getLast?_cons_cons] using ih

def rawBefore (afterRaw : Bool) (ts : List Token) : Bool :=
  ts.foldl (fun _ t => t.isRaw) afterRaw

theorem rawBefore_false (ts : List Token) : rawBefore false ts = ts.getLast?.any Token.isRaw := by
  have hlast : ∀ afterRaw, rawBefore afterRaw ts = (ts.getLast?.map Token.isRaw).getD afterRaw := by
    induction ts with
    | nil => exact fun _ => rfl
    | cons t ts ih =>
      intro afterRaw
      rw [rawBefore, List.foldl_cons, ← rawBefore, ih, List.getLast?_cons]
      cases ts.getLast? <;> rfl
  rw [hlast]
  cases ts.getLast? <;> rfl

theorem Lexes.eq_nil_of_endsLine {back : List Char} (h : Lexes mode false cs ts)
    (hends : Lexeme.EndsLine (cs ++ back)) : cs = [] := by
  cases h with
  | done => rfl
  | @step _ l rest ts hl _ =>
    obtain ⟨c, w, hw⟩ := List.exists_cons_of_ne_nil (Lexeme.next?_written hl).1
    rw [hw, List.cons_append] at hl
    rw [hw, List.cons_append, List.cons_append] at hends
    have hc : c = '\n' ∨ c = '\r' := by
      rcases hends with hnil | hhead | ⟨cs, hcs⟩
      · cases hnil
      · exact .inl (Option.some.inj hhead)
      · exact .inr (List.cons.inj hcs).1.symm
    simp [Lexeme.next?, Lexeme.shared?_lineEnd hc] at hl

theorem Lexeme.next?_front {l : Lexeme} {front back : List Char}
    (hl : Lexeme.next? mode afterRaw (l.written ++ (front ++ back)) = some l)
    (h : Lexes mode l.token.isRaw front ts) :
    Lexeme.next? mode afterRaw (l.written ++ front) = some l := by
  obtain ⟨⟨hslice, hadmitted⟩, hlongest⟩ := Lexeme.next?_eq_some_iff.mp hl
  have hhead : ∀ c ∈ front.head?, c ∈ (front ++ back).head? := by
    intro c hc
    rw [List.head?_append, Option.mem_def.mp hc]
    rfl
  refine Lexeme.next?_eq_some_iff.mpr ⟨⟨hslice, ?_⟩, ⟨?_, ?_⟩⟩
  · cases hslice with
    | line =>
      rw [h.eq_nil_of_endsLine hadmitted.2]
      exact ⟨hadmitted.1, .inl rfl⟩
    | name | value | raw | whitespace | delimiter | quoted => exact hadmitted
  · exact fun hword c hc => hlongest.word hword c (hhead c hc)
  · exact fun hblank c hc => hlongest.whitespace hblank c (hhead c hc)

structure Scan.Reads (mode : LexMode) (afterRaw : Bool) (position : Nat) (cs : List Char) (scan : Scan)
    (read : List Char) : Prop where
  text : cs = read ++ scan.rest
  stop : scan.position = position + utf8Size read
  tiles : Tiles position scan.spans read
  lexes : Lexes mode afterRaw read (scan.spans.map Span.token)
  stuck : Lexeme.next? mode (rawBefore afterRaw (scan.spans.map Span.token)) scan.rest = none

theorem exists_reads (mode : LexMode) (afterRaw : Bool) (position : Nat) (cs : List Char) :
    ∃ read, (Scan.run mode afterRaw position cs).Reads mode afterRaw position cs read := by
  fun_induction Scan.run mode afterRaw position cs with
  | case1 afterRaw position cs hnone => exact ⟨[], rfl, rfl, .nil, .done, hnone⟩
  | case2 afterRaw position cs l hl stop tail ih =>
    obtain ⟨rest, rfl⟩ := Lexeme.next?_prefix hl
    rw [List.drop_left] at ih
    obtain ⟨read, htext, hstop, htiles, hlexes, hstuck⟩ := ih
    have htail : tail = Scan.run mode l.token.isRaw stop rest := by simp [tail]
    rw [← htail] at htext hstop htiles hlexes hstuck
    have hslice := (Lexeme.next?_eq_some_iff.mp hl).1.slice
    refine ⟨l.written ++ read, ?_, ?_, .cons hslice.written_ne_nil hslice htiles, ?_, hstuck⟩
    · rw [List.append_assoc, ← htext]
    · rw [utf8Size_append, ← Nat.add_assoc]
      exact hstop
    · rw [htext] at hl
      exact .step (Lexeme.next?_front hl hlexes) hlexes

theorem tokenizeAt_of_lexes (h : Lexes mode false cs ts) (position : Nat) :
    ∃ spans, tokenizeAt mode position (String.ofList cs) = .ok spans ∧ spans.map Span.token = ts := by
  obtain ⟨hrest, htokens⟩ := run_of_lexes h position
  refine ⟨_, ?_, htokens⟩
  rw [tokenizeAt, String.toList_ofList]
  exact if_pos hrest

end

/-- The tokens of a text are its slices, each as long as its class allows. Where there are none, the
lexer stands behind a front of the text that it reads on its own, and no token may stand there. -/
theorem tokens_cover_text (mode : LexMode) (position : Nat) (text : String) :
    match tokenizeAt mode position text with
    | .ok spans =>
      Tiles position spans text.toList ∧
        (∀ s ∈ spans.head?, s.start = position ∧ s.token.isLine = false) ∧
        (∀ s ∈ spans.getLast?, s.stop = position + text.utf8ByteSize) ∧
        (spans.map Span.token).IsChain Token.Precedes
    | .error e =>
      ∃ front rest, text.toList = front ++ rest ∧ rest ≠ [] ∧
        e.start = position + (String.ofList front).utf8ByteSize ∧
        e.found = String.ofList (rest.take 20) ∧
        ∃ spans, tokenizeAt mode 0 (String.ofList front) = .ok spans ∧
          ∀ (l : Lexeme) (behind : List Char), rest = l.written ++ behind →
            ¬ l.Stands mode ((spans.map Span.token).getLast?.any Token.isRaw) behind := by
  obtain ⟨front, htext, hstop, htiles, hlexes, hstuck⟩ := exists_reads mode false position text.toList
  unfold tokenizeAt
  by_cases hrest : (Scan.run mode false position text.toList).rest = []
  · rw [if_pos hrest]
    rw [hrest, List.append_nil] at htext
    rw [← htext] at htiles
    refine ⟨htiles, fun s hs => ⟨htiles.start s hs, ?_⟩, fun s hs => ?_, hlexes.isChain⟩
    · exact hlexes.isLine_head s.token (by simpa using ⟨s, hs, rfl⟩)
    · rw [htiles.stop s hs, utf8Size_eq, String.ofList_toList]
  · rw [if_neg hrest]
    obtain ⟨spans, hspans, htokens⟩ := tokenizeAt_of_lexes hlexes 0
    refine ⟨front, _, htext, hrest, ?_, rfl, spans, hspans, ?_⟩
    · rw [← utf8Size_eq]
      exact hstop
    · rw [htokens, ← rawBefore_false]
      exact Lexeme.next?_eq_none_iff.mp hstuck

end ActorHub
