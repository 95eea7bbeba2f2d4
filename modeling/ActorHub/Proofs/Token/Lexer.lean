import ActorHub.Proofs.Text.Names
import ActorHub.Proofs.Token.Escape

/-!
# Lexing as a relation

`Lexes` relates a text to its tokens, white space included, one lexeme at a time. A text that starts
with the spelling of a token is lexed by that token alone, which gives one equivalence for each
kind of token: from right to left it prints a token in front of a text, and from left to right it
reads it off.
-/

namespace ActorHub

/-- The text is cut into the tokens, where the flag says that the word `raw` stands before it. -/
inductive Lexes (mode : LexMode) : Bool → List Char → List Token → Prop
  | done {afterRaw : Bool} : Lexes mode afterRaw [] []
  | step {afterRaw : Bool} {l : Lexeme} {rest : List Char} {ts : List Token} :
      Lexeme.next? mode afterRaw (l.written ++ rest) = some l →
      Lexes mode l.token.isRaw rest ts → Lexes mode afterRaw (l.written ++ rest) (l.token :: ts)

namespace Lexeme

theorem next?_nil (mode : LexMode) (afterRaw : Bool) : next? mode afterRaw [] = none := by
  cases afterRaw <;> rfl

/-! ## Lexemes are fronts of the text -/

theorem lineText_prefix {cs text : List Char} (h : lineText cs = some text) : text <+: cs := by
  induction cs generalizing text with
  | nil => simp_all [lineText]
  | cons c rest ih =>
    simp only [lineText] at h
    split at h
    · simp_all
    · split at h
      · split at h <;> simp_all
      · obtain ⟨t, ht, rfl⟩ := Option.map_eq_some_iff.mp h
        exact List.prefix_cons_inj c |>.mpr (ih ht)

theorem shared?_prefix {cs : List Char} {l : Lexeme} (h : shared? cs = some l) : l.written <+: cs := by
  simp only [shared?, Option.or_eq_some_iff] at h
  rcases h with h | ⟨-, h | ⟨-, h | ⟨-, h⟩⟩⟩
  · unfold whitespace? at h
    split at h
    · cases h
    · cases h; exact List.takeWhile_prefix _
  · cases cs with
    | nil => cases h
    | cons q cs =>
      simp only [quoted?] at h
      split at h
      · obtain ⟨⟨b, r⟩, hc, rfl⟩ := Option.map_eq_some_iff.mp h
        rw [Quoted.close_eq_append hc]
        exact ⟨r, by simp⟩
      · cases h
  · cases cs with
    | nil => cases h
    | cons c cs =>
      obtain ⟨d, _, rfl⟩ := Option.map_eq_some_iff.mp h
      exact ⟨cs, rfl⟩
  · unfold word? at h
    split at h
    · cases h
    · cases h; exact List.takeWhile_prefix _

theorem rawLine?_prefix {cs : List Char} {l : Lexeme} (h : rawLine? cs = some l) :
    l.written <+: cs := by
  unfold rawLine? at h
  split at h
  · rename_i rest hd
    obtain ⟨text, ht, rfl⟩ := Option.map_eq_some_iff.mp h
    obtain ⟨r, rfl⟩ := lineText_prefix ht
    refine ⟨r, ?_⟩
    rw [List.append_assoc, List.cons_append, ← hd]
    exact List.takeWhile_append_dropWhile
  · cases h

theorem next?_prefix {mode : LexMode} {afterRaw : Bool} {cs : List Char} {l : Lexeme}
    (h : next? mode afterRaw cs = some l) : l.written <+: cs := by
  obtain ⟨l', hl, h⟩ := Option.bind_eq_some_iff.mp h
  obtain ⟨t, _, rfl⟩ := Option.map_eq_some_iff.mp h
  show l'.written <+: cs
  split at hl
  · exact rawLine?_prefix hl
  · exact shared?_prefix hl

end Lexeme

/-! ## The lexer computes the relation -/

theorem lexes_of_run {mode : LexMode} {afterRaw : Bool} {position : Nat} {cs : List Char}
    (h : (Scan.run mode afterRaw position cs).rest = []) :
    Lexes mode afterRaw cs ((Scan.run mode afterRaw position cs).spans.map Span.token) := by
  fun_induction Scan.run mode afterRaw position cs with
  | case1 afterRaw position cs hn =>
    obtain rfl : cs = [] := h
    exact .done
  | case2 afterRaw position cs l hl stop tail ih =>
    obtain ⟨rest, rfl⟩ := Lexeme.next?_prefix hl
    have htail : tail = Scan.run mode l.token.isRaw stop rest := by simp [tail]
    show Lexes mode afterRaw _ (l.token :: tail.spans.map Span.token)
    have hrest : tail.rest = [] := h
    rw [List.drop_left] at ih
    rw [htail] at hrest ⊢
    exact .step hl (ih hrest)

theorem run_of_lexes {mode : LexMode} {afterRaw : Bool} {cs : List Char} {ts : List Token}
    (h : Lexes mode afterRaw cs ts) (position : Nat) :
    (Scan.run mode afterRaw position cs).rest = [] ∧
      (Scan.run mode afterRaw position cs).spans.map Span.token = ts := by
  induction h generalizing position with
  | done =>
    rw [Scan.run]
    split
    · exact ⟨rfl, rfl⟩
    · rename_i hn; rw [Lexeme.next?_nil] at hn; cases hn
  | @step afterRaw l rest ts hl _ ih =>
    rw [Scan.run]
    split
    · rename_i hn; rw [hl] at hn; cases hn
    · rename_i l' hl'
      obtain rfl : l = l' := Option.some.inj (hl.symm.trans hl')
      simpa using ih _

theorem significantTokens_eq_ok_iff {mode : LexMode} {s : String} {us : List Token} :
    significantTokens mode s = .ok us ↔
      ∃ ts, Lexes mode false s.toList ts ∧ ts.filter (!·.isTrivia) = us := by
  simp only [significantTokens, tokenizeAt]
  constructor
  · intro h
    split at h
    · rename_i hr
      cases h
      exact ⟨_, lexes_of_run hr, rfl⟩
    · cases h
  · intro he
    obtain ⟨ts, h, rfl⟩ := he
    obtain ⟨hr, rfl⟩ := run_of_lexes h 0
    rw [if_pos hr]
    rfl

/-! ## The token at the front of a text -/

namespace Lexeme

theorem isWordChar_iff {c : Char} : isWordChar c = true ↔
    c ≠ '"' ∧ c ≠ '\'' ∧ c ≠ '=' ∧ c ≠ ',' ∧ c ≠ ';' ∧ Text.isBlank c = false := by
  simp [isWordChar, and_assoc]

theorem isWordChar_of_isNameChar {c : Char} (h : isNameChar c = true) : isWordChar c = true := by
  rcases isNameChar_iff.mp h with h | h | rfl | rfl
  · have h := Text.isAsciiLetter_iff.mp h
    refine isWordChar_iff.mpr ⟨?_, ?_, ?_, ?_, ?_, ?_⟩
    iterate 5 rintro rfl; revert h; decide
    simp only [Text.isBlank, Bool.or_eq_false_iff, Bool.and_eq_false_iff, decide_eq_false_iff_not,
      beq_eq_false_iff_ne]
    omega
  · have h := Text.isAsciiDigit_iff.mp h
    refine isWordChar_iff.mpr ⟨?_, ?_, ?_, ?_, ?_, ?_⟩
    iterate 5 rintro rfl; revert h; decide
    simp only [Text.isBlank, Bool.or_eq_false_iff, Bool.and_eq_false_iff, decide_eq_false_iff_not,
      beq_eq_false_iff_ne]
    omega
  · decide
  · decide

theorem isQuote_iff {c : Char} : Quoted.isQuote c = true ↔ c = '"' ∨ c = '\'' := by
  simp [Quoted.isQuote]

theorem shared?_word {w rest : List Char} (hne : w ≠ []) (hw : ∀ c ∈ w, isWordChar c = true)
    (hstop : ∀ c ∈ rest.head?, isWordChar c = false) :
    shared? (w ++ rest) = some ⟨wordToken w, w⟩ := by
  have hrun := takeWhile_append_of_stop hw hstop
  obtain ⟨c, w, rfl⟩ := List.exists_cons_of_ne_nil hne
  obtain ⟨h1, h2, h3, h4, h5, h6⟩ := isWordChar_iff.mp (hw c (by simp))
  have hb : (decide (c = ' ') || decide (c = '\t')) = false := by
    simp only [Bool.or_eq_false_iff, decide_eq_false_iff_not]
    constructor <;> rintro rfl <;> exact absurd h6 (by decide)
  rw [List.cons_append] at hrun ⊢
  have hws : whitespace? (c :: (w ++ rest)) = none := by simp [whitespace?, hb]
  have hq : quoted? (c :: (w ++ rest)) = none := by simp [quoted?, Quoted.isQuote, h1, h2]
  have hd : delimiter? (c :: (w ++ rest)) = none := by
    simp only [delimiter?, Option.map_eq_none_iff]
    unfold Delimiter.ofChar?
    split <;> simp_all
  simp [shared?, hws, hq, hd, word?, hrun]

theorem shared?_quote {q : Char} (hq : Quoted.isQuote q = true) (cs : List Char) :
    shared? (q :: cs) = (Quoted.close q cs).map fun (b, _) =>
      ⟨.quoted (String.ofList b), q :: (b ++ [q])⟩ := by
  have hws : whitespace? (q :: cs) = none := by
    rcases isQuote_iff.mp hq with rfl | rfl <;> simp [whitespace?]
  have hd : delimiter? (q :: cs) = none := by
    rcases isQuote_iff.mp hq with rfl | rfl <;> simp [delimiter?, Delimiter.ofChar?]
  have hw : word? (q :: cs) = none := by
    rcases isQuote_iff.mp hq with rfl | rfl <;> simp [word?, isWordChar]
  simp [shared?, hws, quoted?, hq, hd, hw]

theorem shared?_delimiter (d : Delimiter) (cs : List Char) :
    shared? (d.char :: cs) = some ⟨.delimiter d, [d.char]⟩ := by
  cases d <;>
    simp [shared?, whitespace?, quoted?, Quoted.isQuote, delimiter?, Delimiter.ofChar?, Delimiter.char]

theorem shared?_space {cs : List Char}
    (h : ∀ c ∈ cs.head?, isWordChar c = true ∨ Quoted.isQuote c = true) :
    shared? (' ' :: cs) = some ⟨.whitespace " ", [' ']⟩ := by
  cases cs with
  | nil => rfl
  | cons c cs =>
    have hc : (decide (c = ' ') || decide (c = '\t')) = false := by
      simp only [Bool.or_eq_false_iff, decide_eq_false_iff_not]
      constructor <;> rintro rfl <;> exact absurd (h _ rfl) (by decide)
    simp [shared?, whitespace?, hc]

def wordIn (mode : LexMode) (w : List Char) : Token :=
  if mode = .command ∧ isName w ∧ Text.sameName (String.ofList w) "raw" then .raw (String.ofList w)
  else wordToken w

theorem classify_wordToken (mode : LexMode) (w : List Char) :
    classify mode (wordToken w) = some (wordIn mode w) := by
  unfold wordToken wordIn wordToken
  cases mode <;> by_cases h : isName w = true <;> simp [classify, h]

end Lexeme

section
variable {mode : LexMode} {rest : List Char} {us : List Token}

theorem lexes_nil_iff {afterRaw : Bool} : Lexes mode afterRaw [] us ↔ us = [] := by
  constructor
  · intro h
    generalize hcs : ([] : List Char) = cs at h
    cases h with
    | done => rfl
    | step hl _ => rw [← hcs, Lexeme.next?_nil] at hl; cases hl
  · rintro rfl; exact .done

theorem lexes_step_iff {afterRaw : Bool} {l : Lexeme}
    (hl : Lexeme.next? mode afterRaw (l.written ++ rest) = some l) :
    Lexes mode afterRaw (l.written ++ rest) us ↔
      ∃ ts, us = l.token :: ts ∧ Lexes mode l.token.isRaw rest ts := by
  constructor
  · intro h
    generalize hcs : l.written ++ rest = cs at h hl
    cases h with
    | done => rw [Lexeme.next?_nil] at hl; cases hl
    | @step _ l' rest' ts hl' ht =>
      obtain rfl : l = l' := Option.some.inj (hl.symm.trans hl')
      obtain rfl : rest = rest' := List.append_cancel_left hcs
      exact ⟨ts, rfl, ht⟩
  · intro he
    obtain ⟨ts, rfl, ht⟩ := he
    exact .step hl ht

theorem lexes_word_iff {w : List Char} (hne : w ≠ []) (hw : ∀ c ∈ w, Lexeme.isWordChar c = true)
    (hstop : ∀ c ∈ rest.head?, Lexeme.isWordChar c = false) :
    Lexes mode false (w ++ rest) us ↔
      ∃ ts, us = Lexeme.wordIn mode w :: ts ∧ Lexes mode (Lexeme.wordIn mode w).isRaw rest ts :=
  lexes_step_iff (l := ⟨Lexeme.wordIn mode w, w⟩) <| by
    simp [Lexeme.next?, Lexeme.shared?_word hne hw hstop, Lexeme.classify_wordToken]

theorem lexes_delimiter_iff {d : Delimiter} (hd : mode = .command → d ≠ .semicolon) :
    Lexes mode false (d.char :: rest) us ↔
      ∃ ts, us = .delimiter d :: ts ∧ Lexes mode false rest ts :=
  lexes_step_iff (l := ⟨.delimiter d, [d.char]⟩) <| by
    have hc : Lexeme.classify mode (.delimiter d) = some (.delimiter d) := by
      cases mode <;> cases d <;> simp_all [Lexeme.classify]
    simp [Lexeme.next?, Lexeme.shared?_delimiter, hc]

theorem lexes_space_iff
    (h : ∀ c ∈ rest.head?, Lexeme.isWordChar c = true ∨ Quoted.isQuote c = true) :
    Lexes mode false (' ' :: rest) us ↔
      ∃ ts, us = .whitespace " " :: ts ∧ Lexes mode false rest ts :=
  lexes_step_iff (l := ⟨.whitespace " ", [' ']⟩) <| by
    cases mode <;> simp [Lexeme.next?, Lexeme.shared?_space h, Lexeme.classify]

theorem lexes_quote_iff {q : Char} (hq : Quoted.isQuote q = true) {cs : List Char} :
    Lexes mode false (q :: cs) us ↔ ∃ b rest ts, cs = b ++ q :: rest ∧ Quoted.Body q b ∧
      us = .quoted (String.ofList b) :: ts ∧ Lexes mode false rest ts := by
  have hnext : ∀ b rest, Quoted.close q cs = some (b, rest) → Lexeme.next? mode false (q :: cs) =
      some ⟨.quoted (String.ofList b), q :: (b ++ [q])⟩ := fun b rest hc => by
    cases mode <;> simp [Lexeme.next?, Lexeme.shared?_quote hq, hc, Lexeme.classify]
  constructor
  · intro h
    cases hc : Quoted.close q cs with
    | none =>
      have hn : Lexeme.next? mode false (q :: cs) = none := by
        simp [Lexeme.next?, Lexeme.shared?_quote hq, hc]
      generalize hcs : q :: cs = cs' at h hn
      cases h with
      | done => cases hcs
      | step hl _ => rw [hn] at hl; cases hl
    | some p =>
      obtain ⟨b, rest⟩ := p
      have hcs := Quoted.close_eq_append hc
      have hl := hnext b rest hc
      have hsplit : q :: cs = q :: (b ++ [q]) ++ rest := by simp [hcs]
      rw [hsplit] at h hl
      obtain ⟨ts, rfl, ht⟩ :=
        (lexes_step_iff (l := ⟨.quoted (String.ofList b), q :: (b ++ [q])⟩) hl).mp h
      exact ⟨b, rest, ts, hcs, Quoted.body_of_close hc, rfl, ht⟩
  · intro he
    obtain ⟨b, rest, ts, rfl, hb, rfl, ht⟩ := he
    have hne : q ≠ '\\' := by rintro rfl; exact absurd hq (by decide)
    have hl := hnext b rest (Quoted.close_append hne hb rest)
    have hsplit : q :: (b ++ q :: rest) = q :: (b ++ [q]) ++ rest := by simp
    rw [hsplit] at hl ⊢
    exact (lexes_step_iff (l := ⟨.quoted (String.ofList b), q :: (b ++ [q])⟩) hl).mpr ⟨ts, rfl, ht⟩

theorem lexes_line_iff {text : List Char} (h : Lexeme.lineText text = some text) :
    Lexes mode true ('=' :: text) us ↔ us = [.line (String.ofList text)] := by
  have hl : Lexeme.next? mode true ('=' :: text ++ []) =
      some ⟨.line (String.ofList text), '=' :: text⟩ := by
    have hraw : Lexeme.rawLine? ('=' :: text) = some ⟨.line (String.ofList text), '=' :: text⟩ := by
      simp [Lexeme.rawLine?, Text.dropBlanks, Text.isBlank, h]
    cases mode <;> simp [Lexeme.next?, hraw, Lexeme.classify]
  have hstep : Lexes mode true ('=' :: text ++ []) us ↔ _ :=
    lexes_step_iff (l := ⟨.line (String.ofList text), '=' :: text⟩) hl
  simp only [List.append_nil, lexes_nil_iff] at hstep
  rw [hstep]
  exact ⟨fun ⟨_, e, e'⟩ => by rw [e, e'], fun e => ⟨[], e, rfl⟩⟩

end

/-! ## Tokens that come from a text -/

def Token.IsLexed (mode : LexMode) : Token → Prop
  | .name w => Lexeme.isName w.toList = true ∧ (mode = .command → Text.sameName w "raw" = false)
  | .value w => w.toList ≠ [] ∧ (∀ c ∈ w.toList, Lexeme.isWordChar c = true) ∧
      Lexeme.isName w.toList = false
  | .quoted b => '\n' ∉ b.toList
  | .line text => Lexeme.lineText text.toList = some text.toList
  | .raw _ => mode = .command
  | .delimiter _ | .whitespace _ => True

namespace Lexeme

theorem lineText_split {cs text : List Char} (h : lineText cs = some text) :
    lineText text = some text ∧
      ∃ rest, cs = text ++ rest ∧ ∀ c ∈ rest.head?, c = '\n' ∨ c = '\r' := by
  induction cs generalizing text with
  | nil => cases h; exact ⟨rfl, [], rfl, by simp⟩
  | cons c cs ih =>
    simp only [lineText] at h
    split at h
    · rename_i hc
      cases h
      exact ⟨rfl, c :: cs, rfl, by simp [hc]⟩
    · rename_i hn
      split at h
      · rename_i hc
        split at h
        · cases h
          exact ⟨rfl, c :: cs, rfl, by simp [hc]⟩
        · cases h
      · rename_i hr
        obtain ⟨t, ht, rfl⟩ := Option.map_eq_some_iff.mp h
        obtain ⟨h1, rest, rfl, h2⟩ := ih ht
        exact ⟨by simp [lineText, hn, hr, h1], rest, rfl, h2⟩

theorem shared?_lineEnd {c : Char} (h : c = '\n' ∨ c = '\r') (cs : List Char) :
    shared? (c :: cs) = none := by
  rcases h with rfl | rfl <;>
    simp [shared?, whitespace?, quoted?, Quoted.isQuote, delimiter?, Delimiter.ofChar?, word?,
      isWordChar, Text.isBlank]

theorem wordToken_isLexed {cs : List Char} {l : Lexeme} (h : word? cs = some l) :
    l.token.IsLexed .reply := by
  unfold word? at h
  split at h
  · cases h
  · rename_i hne
    cases h
    simp only [wordToken]
    have hw := List.all_eq_true.mp (List.all_takeWhile (p := isWordChar) (l := cs))
    split
    · rename_i hn; exact ⟨by simpa using hn, by simp⟩
    · rename_i hn
      exact ⟨by simpa using hne, by simpa using hw, by simpa using hn⟩

theorem shared?_isLexed {cs : List Char} {l : Lexeme} (h : shared? cs = some l) :
    l.token.IsLexed .reply := by
  simp only [shared?, Option.or_eq_some_iff] at h
  rcases h with h | ⟨-, h | ⟨-, h | ⟨-, h⟩⟩⟩
  · unfold whitespace? at h
    split at h
    · cases h
    · cases h; trivial
  · cases cs with
    | nil => cases h
    | cons q cs =>
      simp only [quoted?] at h
      split at h
      · obtain ⟨⟨b, r⟩, hc, rfl⟩ := Option.map_eq_some_iff.mp h
        simpa [Token.IsLexed] using (Quoted.body_of_close hc).newline_not_mem
      · cases h
  · cases cs with
    | nil => cases h
    | cons c cs =>
      obtain ⟨d, _, rfl⟩ := Option.map_eq_some_iff.mp h
      trivial
  · exact wordToken_isLexed h

theorem classify_isLexed {mode : LexMode} {t u : Token} (ht : t.IsLexed .reply)
    (h : classify mode t = some u) : u.IsLexed mode := by
  cases mode with
  | reply =>
    have : classify .reply t = some t := by unfold classify; split <;> simp_all
    obtain rfl : t = u := Option.some.inj (this.symm.trans h)
    exact ht
  | command =>
    cases t with
    | name w =>
      simp only [classify, Option.some.injEq] at h
      subst h
      split
      · rfl
      · rename_i hraw; exact ⟨ht.1, fun _ => by simpa using hraw⟩
    | delimiter d => cases d <;> cases h <;> trivial
    | raw w => cases ht
    | value w => cases h; exact ht
    | quoted b => cases h; exact ht
    | line text => cases h; exact ht
    | whitespace run => cases h; trivial

theorem rawLine?_isLexed {cs : List Char} {l : Lexeme} (h : rawLine? cs = some l) :
    l.token.IsLexed .reply := by
  unfold rawLine? at h
  split at h
  · obtain ⟨text, ht, rfl⟩ := Option.map_eq_some_iff.mp h
    simpa [Token.IsLexed] using (lineText_split ht).1
  · cases h

theorem next?_isLexed {mode : LexMode} {afterRaw : Bool} {cs : List Char} {l : Lexeme}
    (h : next? mode afterRaw cs = some l) : l.token.IsLexed mode := by
  obtain ⟨l', hl, h⟩ := Option.bind_eq_some_iff.mp h
  obtain ⟨t, ht, rfl⟩ := Option.map_eq_some_iff.mp h
  refine classify_isLexed ?_ ht
  split at hl
  · exact rawLine?_isLexed hl
  · exact shared?_isLexed hl

theorem next?_raw {mode : LexMode} {cs rest : List Char} {l : Lexeme}
    (h : next? mode true cs = some l) (hcs : cs = l.written ++ rest) :
    (∃ text, l.token = .line text) ∧ ∀ c ∈ rest.head?, c = '\n' ∨ c = '\r' := by
  obtain ⟨l', hl, h⟩ := Option.bind_eq_some_iff.mp h
  obtain ⟨t, ht, rfl⟩ := Option.map_eq_some_iff.mp h
  rw [if_pos rfl, rawLine?] at hl
  split at hl
  · rename_i r hd
    obtain ⟨text, htext, rfl⟩ := Option.map_eq_some_iff.mp hl
    obtain ⟨-, rest', rfl, hrest⟩ := lineText_split htext
    have hsplit : cs.takeWhile Text.isBlank ++ '=' :: text ++ rest' =
        cs.takeWhile Text.isBlank ++ '=' :: text ++ rest := by
      rw [← hcs, List.append_assoc, List.cons_append, ← hd]
      exact List.takeWhile_append_dropWhile
    obtain rfl := List.append_cancel_left hsplit
    refine ⟨?_, hrest⟩
    cases mode <;> cases ht <;> exact ⟨_, rfl⟩
  · cases hl

end Lexeme

theorem Lexes.isLexed {mode : LexMode} {afterRaw : Bool} {cs : List Char} {ts : List Token}
    (h : Lexes mode afterRaw cs ts) : ∀ t ∈ ts, t.IsLexed mode := by
  induction h with
  | done => simp
  | step hl _ ih =>
    intro t ht
    rcases List.mem_cons.mp ht with rfl | ht
    · exact Lexeme.next?_isLexed hl
    · exact ih t ht

theorem Lexes.afterRaw {mode : LexMode} {cs : List Char} {ts : List Token}
    (h : Lexes mode true cs ts) : ts = [] ∨ ∃ text, ts = [.line text] := by
  generalize hraw : true = afterRaw at h
  cases h with
  | done => exact .inl rfl
  | @step _ l rest ts hl ht =>
    subst hraw
    obtain ⟨⟨text, he⟩, hrest⟩ := Lexeme.next?_raw hl rfl
    rw [he, show (Token.line text).isRaw = false from rfl] at ht
    rw [he]
    refine .inr ⟨text, ?_⟩
    cases rest with
    | nil => rw [lexes_nil_iff.mp ht]
    | cons c rest =>
      have hn : Lexeme.next? mode false (c :: rest) = none := by
        simp [Lexeme.next?, Lexeme.shared?_lineEnd (hrest c rfl)]
      generalize hcs : c :: rest = cs at ht hn
      cases ht with
      | done => cases hcs
      | step hl' _ => rw [hn] at hl'; cases hl'

theorem Lexes.raw_last {mode : LexMode} {afterRaw : Bool} {cs : List Char} {ts : List Token}
    (h : Lexes mode afterRaw cs ts) {front back : List Token} {w : String}
    (e : ts = front ++ .raw w :: back) : back = [] ∨ ∃ text, back = [.line text] := by
  induction h generalizing front with
  | done => cases front <;> cases e
  | @step _ l rest ts _ ht ih =>
    cases front with
    | nil =>
      obtain ⟨he, rfl⟩ := List.cons.inj e
      rw [he] at ht
      exact ht.afterRaw
    | cons t front => exact ih (List.cons.inj e).2

end ActorHub
