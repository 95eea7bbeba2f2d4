import ActorHub.Proofs.Token.Lexer
import Mathlib.Data.List.Chain
import Mathlib.Data.List.Forall2

/-!
# Printed tokens

What canonical forms are made of: words and quoted strings with a delimiter or a space between each
two of them, and possibly a raw line at the end. A spelling determines its printed tokens as long as
no raw line is among them, and the lexer finds those tokens in it exactly when all of them are stable.
-/

namespace ActorHub

/-! ## Quotes in a spelling -/

namespace Quoted

/-- Text behind a closing quote: further quoted strings stand behind characters other than quotes and
backslashes. -/
inductive Outside : List Char → Prop
  | nil : Outside []
  | plain {c : Char} {s : List Char} : c ≠ '"' → Outside s → Outside (c :: s)
  | quoted {c : Char} {w s : List Char} : c ≠ '"' → c ≠ '\\' → Outside s →
      Outside (c :: '"' :: (escapeQuotes w ++ '"' :: s))

theorem Outside.plain_append {w s : List Char} (h : Outside s) (hw : '"' ∉ w) : Outside (w ++ s) := by
  induction w with
  | nil => exact h
  | cons c w ih =>
    simp only [List.mem_cons, not_or] at hw
    exact .plain (Ne.symm hw.1) (ih hw.2)

theorem Outside.ne_quote {s t : List Char} (h : Outside s) : s ≠ '"' :: t := by
  rintro rfl
  generalize he : '"' :: t = s at h
  cases h with
  | nil => cases he
  | plain hc => cases he; exact hc rfl
  | quoted hc => cases he; exact hc rfl

theorem spelled_quote {z t u : List Char} (e : escapeQuotes z ++ '"' :: t = '"' :: u) :
    z = [] ∧ t = u := by
  cases z with
  | nil => exact ⟨rfl, (List.cons.inj e).2⟩
  | cons d z =>
    by_cases hd : d = '"'
    · subst hd; simp at e
    · rw [escapeQuotes_cons hd] at e
      exact absurd (List.cons.inj e).1 hd

theorem Outside.ne_spelled {s t z : List Char} (hs : Outside s) (ht : Outside t) :
    s ≠ escapeQuotes z ++ '"' :: t := by
  induction hn : s.length using Nat.strongRecOn generalizing s t z with
  | ind n ih =>
    intro e
    cases hs with
    | nil => simp at e
    | @plain c s hc hs =>
      cases z with
      | nil => exact hc (List.cons.inj e).1
      | cons d z =>
        by_cases hd : d = '"'
        · subst hd
          exact hs.ne_quote (List.cons.inj e).2
        · rw [escapeQuotes_cons hd] at e
          exact ih s.length (by simp only [List.length_cons] at hn; omega) hs ht rfl (List.cons.inj e).2
    | @quoted c w s hc hb hs =>
      cases z with
      | nil => exact hc (List.cons.inj e).1
      | cons d z =>
        by_cases hd : d = '"'
        · subst hd
          exact hb (List.cons.inj e).1
        · rw [escapeQuotes_cons hd] at e
          obtain ⟨rfl, rfl⟩ := spelled_quote (List.cons.inj e).2.symm
          exact ih _ (by simp only [List.length_cons] at hn; omega) ht hs rfl rfl

/-- Where two spellings of quoted strings begin alike, the strings and what follows are the same. -/
theorem spelled_inj {w z s t : List Char} (hs : Outside s) (ht : Outside t)
    (e : escapeQuotes w ++ '"' :: s = escapeQuotes z ++ '"' :: t) : w = z ∧ s = t := by
  induction w generalizing z with
  | nil =>
    obtain ⟨rfl, rfl⟩ := spelled_quote e.symm
    exact ⟨rfl, rfl⟩
  | cons c w ih =>
    cases z with
    | nil => exact absurd (spelled_quote e).1 (List.cons_ne_nil c w)
    | cons d z =>
      -- a quote and a backslash both begin with a backslash, but then one string ends inside the other
      by_cases hc : c = '"' <;> by_cases hd : d = '"'
      · subst hc hd
        simp only [escapeQuotes_quote, List.cons_append, List.cons.injEq, true_and] at e
        exact (ih e).imp_left fun h => by rw [h]
      · subst hc
        rw [escapeQuotes_quote, escapeQuotes_cons hd] at e
        obtain ⟨rfl, rfl⟩ := spelled_quote (List.cons.inj e).2.symm
        exact absurd rfl (ht.ne_spelled hs)
      · subst hd
        rw [escapeQuotes_quote, escapeQuotes_cons hc] at e
        obtain ⟨rfl, rfl⟩ := spelled_quote (List.cons.inj e).2
        exact absurd rfl (hs.ne_spelled ht)
      · rw [escapeQuotes_cons hc, escapeQuotes_cons hd] at e
        have := List.cons.inj e
        exact (ih this.2).imp_left fun h => by rw [h, this.1]

theorem escapeQuotes_inj {w z : List Char} (e : escapeQuotes w = escapeQuotes z) : w = z :=
  (spelled_inj (s := []) (t := []) .nil .nil (by rw [e])).1

theorem getLast?_escapeQuotes (w : List Char) : (escapeQuotes w).getLast? = w.getLast? := by
  induction w with
  | nil => rfl
  | cons c w ih =>
    by_cases hc : c = '"'
    · subst hc
      simp [List.getLast?_cons, ih]
    · rw [escapeQuotes_cons hc, List.getLast?_cons, List.getLast?_cons, ih]

theorem closed_inj {w z s t : List Char} (hw : w.getLast? ≠ some '\\') (hz : z.getLast? ≠ some '\\')
    (e : escapeQuotes w ++ '"' :: s = escapeQuotes z ++ '"' :: t) : w = z ∧ s = t := by
  have htail : ∀ {c : Char} {w : List Char}, (c :: w).getLast? ≠ some '\\' → w.getLast? ≠ some '\\' := by
    intro c w h hw
    rw [List.getLast?_cons, hw] at h
    exact h rfl
  induction w generalizing z with
  | nil =>
    obtain ⟨rfl, rfl⟩ := spelled_quote e.symm
    exact ⟨rfl, rfl⟩
  | cons c w ih =>
    cases z with
    | nil => exact absurd (spelled_quote e).1 (List.cons_ne_nil c w)
    | cons d z =>
      by_cases hc : c = '"' <;> by_cases hd : d = '"'
      · subst hc hd
        simp only [escapeQuotes_quote, List.cons_append, List.cons.injEq, true_and] at e
        exact (ih (htail hw) (htail hz) e).imp_left fun h => by rw [h]
      · subst hc
        rw [escapeQuotes_quote, escapeQuotes_cons hd] at e
        obtain ⟨rfl, rfl⟩ := spelled_quote (List.cons.inj e).2.symm
        exact absurd (congrArg some (List.cons.inj e).1.symm) hz
      · subst hd
        rw [escapeQuotes_quote, escapeQuotes_cons hc] at e
        obtain ⟨rfl, rfl⟩ := spelled_quote (List.cons.inj e).2
        exact absurd (congrArg some (List.cons.inj e).1) hw
      · rw [escapeQuotes_cons hc, escapeQuotes_cons hd] at e
        have := List.cons.inj e
        exact (ih (htail hw) (htail hz) this.2).imp_left fun h => by rw [h, this.1]

end Quoted

/-! ## Spellings -/

namespace Token

def spelling : Token → List Char
  | name w | value w | raw w | whitespace w => w.toList
  | quoted b => '"' :: (b.toList ++ ['"'])
  | delimiter d => [d.char]
  | line text => '=' :: text.toList

inductive IsOperand : Token → Prop
  | word {w : List Char} : w ≠ [] → (∀ c ∈ w, Lexeme.isWordChar c = true) →
      IsOperand (Lexeme.wordToken w)
  | quoted {w : List Char} : '\n' ∉ w → IsOperand (.quoted (String.ofList (Quoted.escapeQuotes w)))

inductive IsSeparator (mode : LexMode) : Token → Prop
  | delimiter {d : Delimiter} : (mode = .command → d ≠ .semicolon) → IsSeparator mode (.delimiter d)
  | space : IsSeparator mode (.whitespace " ")

def IsStable (mode : LexMode) : Token → Prop
  | name w => mode = .command → Text.sameName w "raw" = false
  | quoted b => ∃ w, Quoted.isSettled w = true ∧ b = String.ofList (Quoted.escapeQuotes w)
  | _ => True

/-- The second token is printed for the first: a quoted string with its escapes normalized. -/
def Renders (t u : Token) : Prop :=
  t.isRaw = u.isRaw ∧
    ∀ b, u = quoted b → b = String.ofList (Quoted.escapeQuotes (Quoted.unescapeChars t.text.toList))

end Token

def spell (ts : List Token) : List Char :=
  ts.flatMap Token.spelling

theorem spell_cons (t : Token) (ts : List Token) : spell (t :: ts) = t.spelling ++ spell ts := rfl

def significant (ts : List Token) : List Token :=
  ts.filter (!·.isTrivia)

theorem significant_of_trivia {t : Token} (h : t.isTrivia = true) (ts : List Token) :
    significant (t :: ts) = significant ts := by
  simp [significant, h]

theorem significant_cons {t : Token} (h : t.isTrivia = false) (ts : List Token) :
    significant (t :: ts) = t :: significant ts := by
  simp [significant, h]

theorem significant_eq_self {ts : List Token} (h : ∀ t ∈ ts, t.isTrivia = false) :
    significant ts = ts :=
  List.filter_eq_self.mpr fun t ht => by rw [h t ht]; rfl

theorem Lexes.significant_raw_last {mode : LexMode} {afterRaw : Bool} {cs : List Char} {ts : List Token}
    (h : Lexes mode afterRaw cs ts) {front back : List Token} {w : String}
    (e : significant ts = front ++ .raw w :: back) : back = [] ∨ ∃ text, back = [.line text] := by
  obtain ⟨as, bs, rfl, -, hb⟩ := List.filter_eq_append_iff.mp e
  obtain ⟨cs, ds, rfl, -, -, rfl⟩ := List.filter_eq_cons_iff.mp hb
  rw [← List.append_assoc] at h
  rcases h.raw_last rfl with rfl | ⟨text, rfl⟩
  · exact .inl rfl
  · exact .inr ⟨text, rfl⟩

inductive Printed (mode : LexMode) : List Token → Prop
  | operand {t : Token} : t.IsOperand → Printed mode [t]
  | raw {text : String} : mode = .command → Lexeme.lineText text.toList = some text.toList →
      Printed mode [.raw "raw", .line text]
  | cons {t sep : Token} {ts : List Token} : t.IsOperand → sep.IsSeparator mode → Printed mode ts →
      Printed mode (t :: sep :: ts)

/-! ## Single tokens -/

section
variable {mode : LexMode} {t sep : Token} {ts us : List Token} {s rest : List Char}

theorem spelling_wordToken (w : List Char) : (Lexeme.wordToken w).spelling = w := by
  unfold Lexeme.wordToken
  split <;> simp [Token.spelling]

theorem isRaw_wordToken (w : List Char) : (Lexeme.wordToken w).isRaw = false := by
  unfold Lexeme.wordToken
  split <;> rfl

theorem isTrivia_wordToken (w : List Char) : (Lexeme.wordToken w).isTrivia = false := by
  unfold Lexeme.wordToken
  split <;> rfl

theorem wordIn_eq_wordToken_iff {w : List Char} :
    Lexeme.wordIn mode w = Lexeme.wordToken w ↔ (Lexeme.wordToken w).IsStable mode := by
  unfold Lexeme.wordIn Lexeme.wordToken
  by_cases h : Lexeme.isName w = true <;> cases mode <;> simp [h, Token.IsStable]

theorem Token.IsOperand.isRaw (h : t.IsOperand) : t.isRaw = false := by
  cases h with
  | word => exact isRaw_wordToken _
  | quoted => rfl

theorem Token.IsOperand.isTrivia (h : t.IsOperand) : t.isTrivia = false := by
  cases h with
  | word => exact isTrivia_wordToken _
  | quoted => rfl

theorem Token.IsOperand.head (h : t.IsOperand) :
    ∀ c ∈ (t.spelling ++ rest).head?, Lexeme.isWordChar c = true ∨ Quoted.isQuote c = true := by
  cases h with
  | @word w hne hw =>
    obtain ⟨c, w, rfl⟩ := List.exists_cons_of_ne_nil hne
    rw [spelling_wordToken]
    intro d hd
    cases hd
    exact .inl (hw c (by simp))
  | quoted => intro d hd; cases hd; exact .inr (by decide)

theorem Printed.head (h : Printed mode ts) :
    ∀ c ∈ (spell ts).head?, Lexeme.isWordChar c = true ∨ Quoted.isQuote c = true := by
  cases h with
  | operand ht | cons ht => exact ht.head
  | raw => intro c hc; cases hc; exact .inl (by decide)

theorem Token.IsSeparator.spelling (h : sep.IsSeparator mode) :
    ∃ c, sep.spelling = [c] ∧ Lexeme.isWordChar c = false ∧ c ≠ '"' ∧ c ≠ '\\' := by
  cases h with
  | @delimiter d => cases d <;> exact ⟨_, rfl, by decide⟩
  | space => exact ⟨' ', rfl, by decide⟩

theorem lexes_operand_iff (ht : t.IsOperand) (hs : t.IsStable mode)
    (hstop : ∀ c ∈ rest.head?, Lexeme.isWordChar c = false) :
    Lexes mode false (t.spelling ++ rest) us ↔ ∃ ts, us = t :: ts ∧ Lexes mode false rest ts := by
  cases ht with
  | word hne hw =>
    rw [spelling_wordToken, lexes_word_iff hne hw hstop, wordIn_eq_wordToken_iff.mpr hs,
      isRaw_wordToken]
  | @quoted w hn =>
    obtain ⟨w', hw, he⟩ := hs
    obtain rfl := Quoted.escapeQuotes_inj (String.ofList_inj.mp he)
    have hbody := Quoted.body_escapeQuotes hw hn
    simp only [Token.spelling, String.toList_ofList, List.cons_append, List.append_assoc,
      List.nil_append]
    rw [lexes_quote_iff (by decide)]
    constructor
    · intro hx
      obtain ⟨b, rest', ts, e, hb, rfl, h⟩ := hx
      obtain ⟨rfl, rfl⟩ := hbody.unique (by decide) hb e
      exact ⟨ts, rfl, h⟩
    · intro hx
      obtain ⟨ts, rfl, h⟩ := hx
      exact ⟨_, rest, ts, rfl, hbody, rfl, h⟩

theorem lexes_separator_iff (h : sep.IsSeparator mode)
    (hhead : ∀ c ∈ rest.head?, Lexeme.isWordChar c = true ∨ Quoted.isQuote c = true) :
    Lexes mode false (sep.spelling ++ rest) us ↔ ∃ ts, us = sep :: ts ∧ Lexes mode false rest ts := by
  cases h with
  | delimiter hd => exact lexes_delimiter_iff hd
  | space => exact lexes_space_iff hhead

theorem lexes_raw_iff {text : String} (h : Lexeme.lineText text.toList = some text.toList) :
    Lexes .command false (spell [.raw "raw", .line text]) us ↔ us = [.raw "raw", .line text] := by
  have hw : ∀ c ∈ ['r', 'a', 'w'], Lexeme.isWordChar c = true := List.all_eq_true.mp (by decide)
  have hspell : spell [.raw "raw", .line text] = ['r', 'a', 'w'] ++ '=' :: text.toList := by
    simp [spell, Token.spelling]
  have hword : Lexeme.wordIn .command ['r', 'a', 'w'] = .raw "raw" := by decide
  rw [hspell, lexes_word_iff (by simp) hw (by simp; decide), hword]
  simp only [Token.isRaw, lexes_line_iff h, String.ofList_toList]
  exact ⟨fun ⟨_, e, e'⟩ => by rw [e, e'], fun e => ⟨_, e, rfl⟩⟩

/-! ## Printing and lexing -/

theorem stop_separator (h : sep.IsSeparator mode) :
    ∀ c ∈ (spell (sep :: ts)).head?, Lexeme.isWordChar c = false := by
  obtain ⟨c, hc, hw, -⟩ := h.spelling
  rw [spell_cons, hc]
  intro d hd
  cases hd
  exact hw

theorem lexes_spell (h : Printed mode ts) (hs : ∀ t ∈ ts, t.IsStable mode) :
    Lexes mode false (spell ts) ts := by
  induction h with
  | @operand t ht =>
    rw [spell_cons, lexes_operand_iff ht (hs t (by simp)) (by simp [spell])]
    exact ⟨[], rfl, .done⟩
  | @raw text hm hl =>
    subst hm
    exact (lexes_raw_iff hl).mpr rfl
  | @cons t sep ts ht hsep hts ih =>
    rw [spell_cons, lexes_operand_iff ht (hs t (by simp)) (stop_separator hsep)]
    refine ⟨sep :: ts, rfl, ?_⟩
    rw [spell_cons, lexes_separator_iff hsep hts.head]
    exact ⟨ts, rfl, ih fun u hu => hs u (by simp [hu])⟩

theorem stable_of_lexes_operand (ht : t.IsOperand)
    (hstop : ∀ c ∈ rest.head?, Lexeme.isWordChar c = false)
    (h : Lexes mode false (t.spelling ++ rest) us) :
    ∃ u vs, us = u :: vs ∧ u.isTrivia = false ∧ (u.Renders t → t.IsStable mode) := by
  cases ht with
  | @word w hne hw =>
    rw [spelling_wordToken, lexes_word_iff hne hw hstop] at h
    obtain ⟨vs, rfl, -⟩ := h
    refine ⟨_, vs, rfl, ?_, fun hr => wordIn_eq_wordToken_iff.mp ?_⟩
    · unfold Lexeme.wordIn
      split
      · rfl
      · exact isTrivia_wordToken w
    · have hraw := hr.1
      rw [isRaw_wordToken] at hraw
      unfold Lexeme.wordIn at hraw ⊢
      split
      · rename_i hc; rw [if_pos hc] at hraw; cases hraw
      · rfl
  | @quoted w hn =>
    simp only [Token.spelling, String.toList_ofList, List.cons_append, List.append_assoc,
      List.nil_append] at h
    rw [lexes_quote_iff (by decide)] at h
    obtain ⟨b, rest', vs, e, hb, rfl, -⟩ := h
    refine ⟨_, vs, rfl, rfl, fun hr => ?_⟩
    have he := Quoted.escapeQuotes_inj (String.ofList_inj.mp (hr.2 _ rfl))
    simp only [Token.text, String.toList_ofList] at he
    subst he
    exact ⟨_, (Quoted.settled_of_spelled hb e).1, rfl⟩

theorem stable_of_lexes (h : Printed mode ts) (hl : Lexes mode false (spell ts) us)
    (hr : List.Forall₂ Token.Renders (significant us) (significant ts)) :
    us = ts ∧ ∀ t ∈ ts, t.IsStable mode := by
  induction h generalizing us with
  | @operand t ht =>
    have hstop : ∀ c ∈ ([] : List Char).head?, Lexeme.isWordChar c = false := by simp
    obtain ⟨u, vs, rfl, hu, hstable⟩ := stable_of_lexes_operand ht hstop hl
    rw [significant_cons hu, significant_cons ht.isTrivia, List.forall₂_cons] at hr
    have hs := hstable hr.1
    obtain ⟨ws, hws, hrest⟩ := (lexes_operand_iff ht hs hstop).mp hl
    rw [hws, lexes_nil_iff.mp hrest]
    exact ⟨rfl, by simpa using hs⟩
  | @raw text hm hl' =>
    subst hm
    exact ⟨(lexes_raw_iff hl').mp hl, by simp [Token.IsStable]⟩
  | @cons t sep ts ht hsep hts ih =>
    rw [spell_cons] at hl
    obtain ⟨u, vs, rfl, hu, hstable⟩ := stable_of_lexes_operand ht (stop_separator hsep) hl
    rw [significant_cons hu, significant_cons ht.isTrivia, List.forall₂_cons] at hr
    have hs := hstable hr.1
    -- now that `t` is stable it is lexed as itself, and the separators meet behind it
    obtain ⟨ws, hws, hrest⟩ := (lexes_operand_iff ht hs (stop_separator hsep)).mp hl
    cases hws
    rw [spell_cons, lexes_separator_iff hsep hts.head] at hrest
    obtain ⟨ws, rfl, hrest⟩ := hrest
    have hr' : List.Forall₂ Token.Renders (significant ws) (significant ts) := by
      cases hsep with
      | delimiter =>
        rw [significant_cons rfl, significant_cons rfl] at hr
        exact (List.forall₂_cons.mp hr.2).2
      | space =>
        rw [significant_of_trivia rfl, significant_of_trivia rfl] at hr
        exact hr.2
    obtain ⟨rfl, hts'⟩ := ih hrest hr'
    refine ⟨rfl, fun v hv => ?_⟩
    simp only [List.mem_cons] at hv
    rcases hv with rfl | rfl | hv
    · exact hs
    · cases hsep <;> trivial
    · exact hts' v hv

theorem Token.IsOperand.spelling_ne_nil (h : t.IsOperand) : t.spelling ≠ [] := by
  cases h with
  | word hne => rwa [spelling_wordToken]
  | quoted => simp [Token.spelling]

theorem Printed.spell_ne_nil (h : Printed mode ts) : spell ts ≠ [] := by
  cases h with
  | operand ht | cons ht =>
    rw [spell_cons]
    exact List.append_ne_nil_of_left_ne_nil ht.spelling_ne_nil _
  | raw => simp [spell, Token.spelling]

theorem newline_not_mem_lineText {text : List Char} (h : Lexeme.lineText text = some text) :
    '\n' ∉ text := by
  induction text with
  | nil => simp
  | cons c text ih =>
    simp only [Lexeme.lineText] at h
    split at h
    · cases h
    · rename_i hc
      split at h
      · split at h <;> cases h
      · obtain ⟨t, ht, e⟩ := Option.map_eq_some_iff.mp h
        cases e
        simp only [List.mem_cons, not_or]
        exact ⟨Ne.symm hc, ih ht⟩

theorem Token.IsOperand.newline_not_mem (h : t.IsOperand) : '\n' ∉ t.spelling := by
  cases h with
  | word _ hw =>
    rw [spelling_wordToken]
    exact fun hm => absurd (hw _ hm) (by decide)
  | @quoted w hn => simpa [Token.spelling, Quoted.mem_escapeQuotes] using hn

theorem Printed.newline_not_mem (h : Printed mode ts) : '\n' ∉ spell ts := by
  induction h with
  | operand ht => simpa [spell] using ht.newline_not_mem
  | raw _ hl => simpa [spell, Token.spelling] using newline_not_mem_lineText hl
  | cons ht hsep _ ih =>
    obtain ⟨c, hc, -⟩ := hsep.spelling
    have hsp : '\n' ∉ [c] := by
      rw [← hc]
      cases hsep with
      | @delimiter d => cases d <;> decide
      | space => decide
    rw [spell_cons, spell_cons, hc]
    simp only [List.mem_append, not_or]
    exact ⟨ht.newline_not_mem, hsp, ih⟩

/-! ## A spelling determines its tokens -/

theorem Token.IsSeparator.inj {sep' : Token} (h : sep.IsSeparator mode) (h' : sep'.IsSeparator mode)
    (e : sep.spelling = sep'.spelling) : sep = sep' := by
  cases h with
  | @delimiter d =>
    cases h' with
    | @delimiter d' => cases d <;> cases d' <;> first | rfl | cases e
    | space => cases d <;> cases e
  | space =>
    cases h' with
    | @delimiter d' => cases d' <;> cases e
    | space => rfl

theorem Token.IsOperand.outside (ht : t.IsOperand) (hsep : sep.IsSeparator mode)
    (h : Quoted.Outside s) : Quoted.Outside (sep.spelling ++ (t.spelling ++ s)) := by
  obtain ⟨c, hc, -, hq, hb⟩ := hsep.spelling
  rw [hc]
  cases ht with
  | @word w _ hw =>
    have hquote : '"' ∉ w := fun hm => (Lexeme.isWordChar_iff.mp (hw _ hm)).1 rfl
    rw [spelling_wordToken]
    exact .plain hq (h.plain_append hquote)
  | quoted =>
    simp only [Token.spelling, String.toList_ofList, List.cons_append, List.append_assoc,
      List.nil_append]
    exact .quoted hq hb h

theorem Printed.outside (h : Printed mode ts) (hraw : ∀ t ∈ ts, t.isRaw = false)
    (hsep : sep.IsSeparator mode) : Quoted.Outside (spell (sep :: ts)) := by
  induction h generalizing sep with
  | @operand t ht => exact ht.outside hsep .nil
  | raw => exact absurd (hraw (.raw "raw") (by simp)) (by decide)
  | @cons t sep' ts ht hsep' hts ih =>
    exact ht.outside hsep (ih (fun u hu => hraw u (by simp [hu])) hsep')

theorem Token.IsOperand.inj {t' : Token} {s' : List Char} (ht : t.IsOperand) (ht' : t'.IsOperand)
    (hquoted : ∀ w z, t = .quoted (String.ofList (Quoted.escapeQuotes w)) →
      t' = .quoted (String.ofList (Quoted.escapeQuotes z)) →
      Quoted.escapeQuotes w ++ '"' :: s = Quoted.escapeQuotes z ++ '"' :: s' → w = z ∧ s = s')
    (hstop : ∀ c ∈ s.head?, Lexeme.isWordChar c = false)
    (hstop' : ∀ c ∈ s'.head?, Lexeme.isWordChar c = false)
    (e : t.spelling ++ s = t'.spelling ++ s') : t = t' ∧ s = s' := by
  have hword : ∀ {w z r r' : List Char}, w ≠ [] → (∀ c ∈ w, Lexeme.isWordChar c = true) →
      w ++ r ≠ '"' :: z ++ r' := by
    intro w z r r' hne hw he
    obtain ⟨c, w, rfl⟩ := List.exists_cons_of_ne_nil hne
    rw [List.cons_append, List.cons_append, List.cons.injEq] at he
    exact (Lexeme.isWordChar_iff.mp (hw c (by simp))).1 he.1
  cases ht with
  | @word w hne hw =>
    rw [spelling_wordToken] at e
    cases ht' with
    | @word w' _ hw' =>
      rw [spelling_wordToken] at e
      have hrun := takeWhile_append_of_stop hw hstop
      rw [e, takeWhile_append_of_stop hw' hstop'] at hrun
      subst hrun
      exact ⟨rfl, List.append_cancel_left e⟩
    | quoted => exact absurd e (hword hne hw)
  | quoted =>
    cases ht' with
    | @word w' hne hw' => rw [spelling_wordToken] at e; exact absurd e.symm (hword hne hw')
    | quoted =>
      simp only [Token.spelling, String.toList_ofList, List.cons_append, List.append_assoc,
        List.nil_append, List.cons.injEq, true_and] at e
      obtain ⟨rfl, rfl⟩ := hquoted _ _ rfl rfl e
      exact ⟨rfl, rfl⟩

/-- No quoted text that ends with a backslash, behind which its closing quote would be hidden. -/
def Token.IsClosed : Token → Prop
  | quoted b => b.toList.getLast? ≠ some '\\'
  | _ => True

instance : DecidablePred Token.IsClosed
  | .quoted b => inferInstanceAs (Decidable (b.toList.getLast? ≠ some '\\'))
  | .name _ | .value _ | .delimiter _ | .raw _ | .line _ | .whitespace _ => .isTrue trivial

def Keyed (ts : List Token) : Prop :=
  ts.IsChain fun t u => u = .delimiter .equals → ∃ w, t = .name w ∧ Text.sameName w "raw" = false

/-- Two rows of tokens with no raw line in either, or with no quoted text in either that could reach
into a raw line. -/
inductive Apart (ts us : List Token) : Prop
  | rawless : (∀ t ∈ ts, t.isRaw = false) → (∀ t ∈ us, t.isRaw = false) → Apart ts us
  | closed : (∀ t ∈ ts, t.IsClosed) → (∀ t ∈ us, t.IsClosed) → Keyed ts → Keyed us → Apart ts us

theorem Apart.symm (h : Apart ts us) : Apart us ts := by
  cases h with
  | rawless h h' => exact .rawless h' h
  | closed h h' hk hk' => exact .closed h' h hk' hk

theorem Apart.tail {t' sep' : Token} (h : Apart (t :: sep :: ts) (t' :: sep' :: us)) : Apart ts us := by
  cases h with
  | rawless h h' => exact .rawless (fun t ht => h t (by simp [ht])) fun t ht => h' t (by simp [ht])
  | closed h h' hk hk' =>
    refine .closed (fun t ht => h t (by simp [ht])) (fun t ht => h' t (by simp [ht])) ?_ ?_
    · exact (List.isChain_cons.mp (List.isChain_cons.mp hk).2).2
    · exact (List.isChain_cons.mp (List.isChain_cons.mp hk').2).2

theorem Printed.tail_outside (h : Printed mode (t :: ts)) (hraw : ∀ u ∈ t :: ts, u.isRaw = false) :
    Quoted.Outside (spell ts) := by
  cases h with
  | operand => exact .nil
  | raw => exact absurd (hraw (.raw "raw") (by simp)) (by decide)
  | cons _ hsep hts => exact hts.outside (fun u hu => hraw u (by simp [hu])) hsep

theorem Printed.tail_stop (h : Printed mode (t :: ts)) (ht : t.IsOperand) :
    ∀ c ∈ (spell ts).head?, Lexeme.isWordChar c = false := by
  cases h with
  | operand => simp [spell]
  | raw => cases ht.isRaw
  | cons _ hsep => exact stop_separator hsep

theorem Apart.head {t' : Token} (h : Apart (t :: ts) (t' :: us)) (hts : Printed mode (t :: ts))
    (hus : Printed mode (t' :: us)) (ht : t.IsOperand) (ht' : t'.IsOperand)
    (e : spell (t :: ts) = spell (t' :: us)) : t = t' ∧ spell ts = spell us := by
  refine ht.inj ht' ?_ (hts.tail_stop ht) (hus.tail_stop ht') e
  rintro w z rfl rfl e
  cases h with
  | rawless hraw hraw' => exact Quoted.spelled_inj (hts.tail_outside hraw) (hus.tail_outside hraw') e
  | closed hc hc' =>
    have hw := hc _ (List.mem_cons_self ..)
    have hz := hc' _ (List.mem_cons_self ..)
    simp only [Token.IsClosed, String.toList_ofList, Quoted.getLast?_escapeQuotes] at hw hz
    exact Quoted.closed_inj hw hz e

/-- The spelling of a raw line reads as the word `raw` in front of an equals sign. -/
theorem Apart.eq_raw {text : String} (h : Apart ts [.raw "raw", .line text]) (hts : Printed mode ts)
    (e : spell ts = spell [.raw "raw", .line text]) : ts = [.raw "raw", .line text] := by
  cases h with
  | rawless _ hraw => exact absurd (hraw (.raw "raw") (by simp)) (by decide)
  | closed _ _ hk _ =>
    have hname : (Token.name "raw").IsOperand :=
      .word (w := ['r', 'a', 'w']) (by simp) (List.all_eq_true.mp (by decide))
    have hline : ∀ c ∈ ('=' :: text.toList).head?, Lexeme.isWordChar c = false := by simp; decide
    -- an operand in front would be the name `raw`, with an equals sign behind it
    have hhead : ∀ {t us}, t.IsOperand → Printed mode (t :: us) →
        spell (t :: us) = spell [.raw "raw", .line text] → t = .name "raw" ∧ spell us = '=' :: text.toList := by
      intro t us ht hp e
      refine ht.inj hname (fun _ _ _ h => by cases h) (hp.tail_stop ht) hline ?_
      rw [← spell_cons, e]
      simp [spell, Token.spelling]
    cases hts with
    | operand ht =>
      have := (hhead ht (.operand ht) e).2
      cases this
    | @raw text' _ _ =>
      simp only [spell, Token.spelling, List.flatMap_cons, List.flatMap_nil, List.append_nil,
        List.append_cancel_left_eq, List.cons.injEq, true_and] at e
      rw [String.toList_inj.mp e]
    | @cons t sep us ht hsep hus =>
      obtain ⟨rfl, hrest⟩ := hhead ht (.cons ht hsep hus) e
      obtain ⟨c, hc, -⟩ := hsep.spelling
      rw [spell_cons, hc] at hrest
      obtain rfl := (List.cons.inj hrest).1
      obtain rfl := hsep.inj (.delimiter (d := .equals) (by simp)) hc
      obtain ⟨w, hw, hraw⟩ := (List.isChain_cons.mp hk).1 _ rfl rfl
      cases hw
      exact absurd hraw (by decide)

theorem Apart.spell_inj (h : Apart ts us) (hts : Printed mode ts) (hus : Printed mode us)
    (e : spell ts = spell us) : ts = us := by
  have hne : ∀ {sep us}, sep.IsSeparator mode → spell (sep :: us) ≠ [] := by
    intro sep us hsep
    obtain ⟨c, hc, -⟩ := hsep.spelling
    rw [spell_cons, hc]
    exact List.cons_ne_nil _ _
  induction hts generalizing us with
  | raw => exact (h.symm.eq_raw hus e.symm).symm
  | @operand t ht =>
    have hts : Printed mode [t] := .operand ht
    cases hus with
    | raw => exact h.eq_raw hts e
    | operand ht' => rw [(h.head hts (.operand ht') ht ht' e).1]
    | cons ht' hsep' hus => exact absurd (h.head hts (.cons ht' hsep' hus) ht ht' e).2.symm (hne hsep')
  | @cons t sep ts ht hsep hts ih =>
    have hts := Printed.cons ht hsep hts
    cases hus with
    | raw => exact h.eq_raw hts e
    | operand ht' => exact absurd (h.head hts (.operand ht') ht ht' e).2 (hne hsep)
    | @cons t' sep' us ht' hsep' hus =>
      obtain ⟨rfl, hrest⟩ := h.head hts (.cons ht' hsep' hus) ht ht' e
      obtain ⟨c, hc, -⟩ := hsep.spelling
      obtain ⟨c', hc', -⟩ := hsep'.spelling
      rw [spell_cons, spell_cons, hc, hc'] at hrest
      obtain ⟨rfl, htail⟩ := List.cons.inj hrest
      obtain rfl := hsep.inj hsep' (hc.trans hc'.symm)
      rw [ih h.tail hus htail]

theorem spell_inj (hts : Printed mode ts) (hus : Printed mode us) (hraw : ∀ t ∈ ts, t.isRaw = false)
    (hraw' : ∀ t ∈ us, t.isRaw = false) (e : spell ts = spell us) : ts = us :=
  (Apart.rawless hraw hraw').spell_inj hts hus e

/-! ## Pieces with a separator between them -/

def parted (sep : Token) : List (List Token) → List Token
  | [] => []
  | piece :: pieces => piece ++ pieces.flatMap (sep :: ·)

theorem parted_cons_cons (sep : Token) (piece next : List Token) (pieces : List (List Token)) :
    parted sep (piece :: next :: pieces) = piece ++ sep :: parted sep (next :: pieces) := by
  simp [parted]

theorem parted_cons_append (sep : Token) (piece : List Token) (pieces : List (List Token))
    {more : List (List Token)} (h : more ≠ []) :
    parted sep (piece :: (pieces ++ more)) = parted sep (piece :: pieces) ++ sep :: parted sep more := by
  obtain ⟨next, more, rfl⟩ := List.exists_cons_of_ne_nil h
  simp [parted]

theorem spell_append (ts us : List Token) : spell (ts ++ us) = spell ts ++ spell us :=
  List.flatMap_append

theorem spell_parted (sep : Token) (pieces : List (List Token)) :
    spell (parted sep pieces) = sep.spelling.intercalate (pieces.map spell) := by
  match pieces with
  | [] => rfl
  | [piece] => simp [parted]
  | piece :: next :: pieces =>
    rw [parted_cons_cons, spell_append, spell_cons, spell_parted sep (next :: pieces)]
    simp [List.intercalate_cons_cons]

theorem Printed.append (h : Printed mode ts) (hraw : ∀ t ∈ ts, t.isRaw = false)
    (hsep : sep.IsSeparator mode) (hus : Printed mode us) : Printed mode (ts ++ sep :: us) := by
  induction h with
  | operand ht => exact .cons ht hsep hus
  | raw => exact absurd (hraw (.raw "raw") (by simp)) (by decide)
  | cons ht hsep' _ ih => exact .cons ht hsep' (ih fun u hu => hraw u (by simp [hu]))

theorem printed_parted (hsep : sep.IsSeparator mode) {pieces : List (List Token)} (hne : pieces ≠ [])
    (h : ∀ piece ∈ pieces, Printed mode piece)
    (hraw : ∀ piece ∈ pieces.dropLast, ∀ t ∈ piece, t.isRaw = false) :
    Printed mode (parted sep pieces) := by
  match pieces with
  | [piece] => simpa [parted] using h piece (by simp)
  | piece :: next :: pieces =>
    rw [parted_cons_cons]
    rw [List.dropLast_cons_cons] at hraw
    exact (h piece (by simp)).append (hraw piece (by simp)) hsep
      (printed_parted hsep (by simp) (fun q hq => h q (by simp [hq]))
        (fun q hq => hraw q (List.mem_cons_of_mem _ hq)))

theorem mem_parted {pieces : List (List Token)} (h : t ∈ parted sep pieces) :
    t = sep ∨ ∃ piece ∈ pieces, t ∈ piece := by
  cases pieces with
  | nil => cases h
  | cons piece pieces =>
    simp only [parted, List.mem_append, List.mem_flatMap, List.mem_cons] at h
    rcases h with h | ⟨q, hq, rfl | h⟩
    · exact .inr ⟨piece, by simp, h⟩
    · exact .inl rfl
    · exact .inr ⟨q, by simp [hq], h⟩

theorem mem_parted_of_mem {pieces : List (List Token)} {piece : List Token} (hp : piece ∈ pieces)
    (h : t ∈ piece) : t ∈ parted sep pieces := by
  cases pieces with
  | nil => cases hp
  | cons q pieces =>
    simp only [parted, List.mem_append, List.mem_flatMap, List.mem_cons]
    rcases List.mem_cons.mp hp with rfl | hp
    · exact .inl h
    · exact .inr ⟨piece, hp, .inr h⟩

theorem keyed_of_forall (h : ∀ u ∈ ts, u ≠ .delimiter .equals) : Keyed ts := by
  induction ts with
  | nil => exact .nil
  | cons t ts ih =>
    refine List.isChain_cons.mpr ⟨fun u hu e => absurd e ?_, ih fun u hu => h u (by simp [hu])⟩
    exact h u (List.mem_cons_of_mem _ (List.mem_of_mem_head? hu))

theorem Printed.head_ne_delimiter (h : Printed mode ts) : ∀ t ∈ ts.head?, ∀ d, t ≠ .delimiter d := by
  have hoperand : ∀ {t : Token}, t.IsOperand → ∀ d, t ≠ .delimiter d := by
    rintro t ht d rfl
    generalize hu : Token.delimiter d = u at ht
    cases ht with
    | word => unfold Lexeme.wordToken at hu; split at hu <;> cases hu
    | quoted => cases hu
  cases h with
  | operand ht | cons ht => rintro t ⟨⟩; exact hoperand ht
  | raw => rintro t ⟨⟩ d h; cases h

theorem keyed_parted (hsep : sep ≠ .delimiter .equals) {pieces : List (List Token)}
    (hp : ∀ piece ∈ pieces, Printed mode piece) (h : ∀ piece ∈ pieces, Keyed piece) :
    Keyed (parted sep pieces) := by
  match pieces with
  | [] => exact .nil
  | [piece] => simpa [parted] using h piece (by simp)
  | piece :: next :: pieces =>
    have hrest := keyed_parted hsep (fun q hq => hp q (List.mem_cons_of_mem _ hq))
      (fun q hq => h q (List.mem_cons_of_mem _ hq))
    have hnext : ∀ t ∈ (parted sep (next :: pieces)).head?, t ≠ .delimiter .equals := by
      have hprinted := hp next (by simp)
      obtain ⟨t, ts, rfl⟩ := List.exists_cons_of_ne_nil (l := next) (by rintro rfl; cases hprinted)
      exact fun u hu => hprinted.head_ne_delimiter u hu _
    rw [parted_cons_cons]
    refine List.isChain_append.mpr ⟨h piece (by simp), List.isChain_cons.mpr ⟨?_, hrest⟩, ?_⟩
    · exact fun u hu e => absurd e (hnext u hu)
    · rintro t - u ⟨⟩ e
      exact absurd e hsep

theorem significant_append (ts us : List Token) :
    significant (ts ++ us) = significant ts ++ significant us :=
  List.filter_append ..

theorem significant_parted (hsep : sep.isTrivia = true) {pieces : List (List Token)}
    (h : ∀ piece ∈ pieces, ∀ t ∈ piece, t.isTrivia = false) :
    significant (parted sep pieces) = pieces.flatten := by
  match pieces with
  | [] => rfl
  | [piece] => simpa [parted] using significant_eq_self (h piece (by simp))
  | piece :: next :: pieces =>
    rw [parted_cons_cons, significant_append, significant_eq_self (h piece (by simp)),
      significant_of_trivia hsep, significant_parted hsep fun q hq => h q (by simp [hq])]
    rfl

end

end ActorHub
