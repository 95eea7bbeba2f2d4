import ActorHub.Line
import ActorHub.Proofs.Token.Printed
import ActorHub.Proofs.Token.Slices

/-!
# Layouts

`LaidOut` relates the tokens of a reply to the texts they can be printed as: each token by a slice of its
own, behind any run of blanks, which may be missing except between two words. These texts, and no
others, are lexed as the tokens. What a reply line means is therefore up to its header and its tokens.
-/

namespace ActorHub

def Token.IsContent : Token → Prop
  | .name _ | .value _ | .quoted _ | .delimiter _ => True
  | .raw _ | .line _ | .whitespace _ => False

def IsGap (gap : List Char) : Prop :=
  ∀ c ∈ gap, c = ' ' ∨ c = '\t'

inductive LaidOut : List Token → List Char → Prop
  | gap {gap : List Char} : IsGap gap → LaidOut [] gap
  | cons {gap text : List Char} {l : Lexeme} {ts : List Token} : IsGap gap → l.IsSlice →
      l.token.IsContent →
      (l.token.isWord = true → ∀ t ∈ ts.head?, t.isWord = true → ∃ c ∈ text.head?, c = ' ' ∨ c = '\t') →
      LaidOut ts text → LaidOut (l.token :: ts) (gap ++ (l.written ++ text))

/-! ## The front of a layout -/

section
variable {l : Lexeme} {ts : List Token} {text : List Char} {c : Char}

theorem not_isWordChar_of_gap (h : c = ' ' ∨ c = '\t') : Lexeme.isWordChar c = false := by
  rcases h with rfl | rfl <;> decide

theorem IsGap.head {gap : List Char} (h : IsGap gap) (hne : gap ≠ []) (behind : List Char) :
    ∃ c ∈ (gap ++ behind).head?, c = ' ' ∨ c = '\t' := by
  obtain ⟨c, gap, rfl⟩ := List.exists_cons_of_ne_nil hne
  exact ⟨c, rfl, h c (by simp)⟩

theorem Lexeme.IsSlice.content_head (h : l.IsSlice) (hc : l.token.IsContent) :
    ∃ c, (∀ behind : List Char, (l.written ++ behind).head? = some c) ∧ c ≠ ' ' ∧ c ≠ '\t' ∧
      Lexeme.isWordChar c = l.token.isWord := by
  have hword : ∀ {w : List Char}, w ≠ [] → (∀ c ∈ w, Lexeme.isWordChar c = true) →
      ∃ c, (∀ behind : List Char, (w ++ behind).head? = some c) ∧ c ≠ ' ' ∧ c ≠ '\t' ∧
        Lexeme.isWordChar c = true := by
    intro w hne hw
    obtain ⟨c, w, rfl⟩ := List.exists_cons_of_ne_nil hne
    have hchar := hw c (by simp)
    refine ⟨c, fun _ => rfl, ?_, ?_, hchar⟩
    · rintro rfl
      exact absurd hchar (by decide)
    · rintro rfl
      exact absurd hchar (by decide)
  cases h with
  | name hw => exact hword (Lexeme.ne_nil_of_isName hw) (Lexeme.isWordChar_of_isName hw)
  | value hne hw => exact hword hne hw
  | delimiter d =>
    refine ⟨d.char, fun _ => rfl, ?_⟩
    cases d <;> decide
  | @quoted q b hq =>
    refine ⟨q, fun _ => rfl, ?_⟩
    rcases Lexeme.isQuote_iff.mp hq with rfl | rfl
    · exact ⟨by decide, by decide, rfl⟩
    · exact ⟨by decide, by decide, rfl⟩
  | raw | line | whitespace => cases hc

theorem LaidOut.indent {gap : List Char} (hgap : IsGap gap) (h : LaidOut ts text) :
    LaidOut ts (gap ++ text) := by
  have happend : ∀ {gap' : List Char}, IsGap gap' → IsGap (gap ++ gap') := by
    intro gap' hgap' c hc
    rcases List.mem_append.mp hc with hc | hc
    · exact hgap c hc
    · exact hgap' c hc
  cases h with
  | gap hgap' => exact .gap (happend hgap')
  | cons hgap' hslice hcontent hapart hrest =>
    rw [← List.append_assoc]
    exact .cons (happend hgap') hslice hcontent hapart hrest

theorem LaidOut.head (h : LaidOut ts text) (hc : c ∈ text.head?) : (c = ' ' ∨ c = '\t') ∨
    ∃ t ∈ ts.head?, Lexeme.isWordChar c = t.isWord := by
  cases h with
  | gap hgap => exact .inl (hgap c (List.mem_of_mem_head? hc))
  | @cons gap text l ts hgap hslice hcontent =>
    by_cases hne : gap = []
    · subst hne
      obtain ⟨d, hd, -, -, hword⟩ := hslice.content_head hcontent
      rw [List.nil_append, hd] at hc
      obtain rfl := Option.some.inj hc
      exact .inr ⟨l.token, rfl, hword⟩
    · obtain ⟨d, hd, hblank⟩ := hgap.head hne (l.written ++ text)
      rw [Option.mem_def.mp hd] at hc
      obtain rfl := Option.some.inj hc
      exact .inl hblank

end

/-! ## Layouts and lexing -/

section
variable {l : Lexeme} {ts : List Token} {text : List Char}

theorem Lexeme.IsSlice.stands (h : l.IsSlice) (hc : l.token.IsContent) (behind : List Char) :
    l.Stands .reply false behind ∧ l.token.isTrivia = false ∧ l.token.isRaw = false := by
  refine ⟨⟨h, ?_⟩, ?_⟩
  · cases h with
    | name | delimiter => exact ⟨rfl, nofun⟩
    | value | quoted => rfl
    | raw | line | whitespace => cases hc
  · cases h with
    | name | value | delimiter | quoted => exact ⟨rfl, rfl⟩
    | raw | line | whitespace => cases hc

theorem lexes_gap {gap : List Char} {us : List Token} (hgap : IsGap gap)
    (hstop : ∀ c ∈ text.head?, c ≠ ' ' ∧ c ≠ '\t') (h : Lexes .reply false text us) :
    ∃ us', Lexes .reply false (gap ++ text) us' ∧ significant us' = significant us := by
  by_cases hne : gap = []
  · exact ⟨us, by rwa [hne], rfl⟩
  · let l : Lexeme := ⟨.whitespace (String.ofList gap), gap⟩
    have hnext : Lexeme.next? .reply false (l.written ++ text) = some l :=
      Lexeme.next?_eq_some_iff.mpr ⟨⟨.whitespace hne hgap, rfl⟩, ⟨nofun, fun _ => hstop⟩⟩
    exact ⟨_, .step hnext h, significant_of_trivia rfl us⟩

theorem lexes_of_laidOut (h : LaidOut ts text) :
    ∃ us, Lexes .reply false text us ∧ significant us = ts := by
  induction h with
  | gap hgap =>
    have hdone : Lexes .reply false [] [] := .done
    obtain ⟨us, hus, hsig⟩ := lexes_gap hgap (by simp) hdone
    exact ⟨us, by simpa using hus, hsig⟩
  | @cons gap text l ts hgap hslice hcontent hapart hrest ih =>
    obtain ⟨us, hus, rfl⟩ := ih
    obtain ⟨hstands, htrivia, hraw⟩ := hslice.stands hcontent text
    obtain ⟨d, hd, hspace, htab, -⟩ := hslice.content_head hcontent
    have hnext : Lexeme.next? .reply false (l.written ++ text) = some l := by
      refine Lexeme.next?_eq_some_iff.mpr ⟨hstands, ⟨fun hword c hc => ?_, by simp [htrivia]⟩⟩
      rcases hrest.head hc with hblank | ⟨t, ht, hchar⟩
      · exact not_isWordChar_of_gap hblank
      · rw [hchar, Bool.eq_false_iff]
        intro hword'
        obtain ⟨c', hc', hblank⟩ := hapart hword t ht hword'
        rw [Option.mem_def.mp hc] at hc'
        obtain rfl := Option.some.inj hc'
        rw [← hchar, not_isWordChar_of_gap hblank] at hword'
        cases hword'
    have hlexes : Lexes .reply false (l.written ++ text) (l.token :: us) :=
      .step hnext (by rwa [hraw])
    have hstop : ∀ c ∈ (l.written ++ text).head?, c ≠ ' ' ∧ c ≠ '\t' := by
      intro c hc
      rw [hd] at hc
      obtain rfl := Option.some.inj hc
      exact ⟨hspace, htab⟩
    obtain ⟨us', hus', hsig⟩ := lexes_gap hgap hstop hlexes
    exact ⟨us', hus', by rw [hsig, significant_cons htrivia]⟩

theorem Lexeme.Stands.reply_cases {behind : List Char} (h : l.Stands .reply false behind) :
    l.token.isRaw = false ∧
      (l.token.isTrivia = true ∧ IsGap l.written ∨ l.token.isTrivia = false ∧ l.token.IsContent) := by
  obtain ⟨hslice, hadmitted⟩ := h
  cases hslice with
  | name | value | delimiter | quoted => exact ⟨rfl, .inr ⟨rfl, trivial⟩⟩
  | whitespace _ hrun => exact ⟨rfl, .inl ⟨rfl, hrun⟩⟩
  | raw => cases hadmitted.2
  | line => cases hadmitted.1

theorem laidOut_of_lexes {us : List Token} (h : Lexes .reply false text us) :
    LaidOut (significant us) text := by
  generalize hraw : false = afterRaw at h
  induction h with
  | done => exact .gap (List.forall_mem_nil _)
  | @step afterRaw l rest us hl _ ih =>
    subst hraw
    obtain ⟨hstands, hlongest⟩ := Lexeme.next?_eq_some_iff.mp hl
    obtain ⟨hraw, hcases⟩ := hstands.reply_cases
    have hrest := ih hraw.symm
    rcases hcases with ⟨htrivia, hgap⟩ | ⟨htrivia, hcontent⟩
    · rw [significant_of_trivia htrivia]
      exact hrest.indent hgap
    · rw [significant_cons htrivia]
      refine (LaidOut.cons (List.forall_mem_nil _) hstands.slice hcontent ?_ hrest :
        LaidOut _ ([] ++ (l.written ++ rest)))
      intro hword t ht hword'
      -- the word ends where the next one does not begin, so there is a blank
      cases hc : rest.head? with
      | none =>
        rw [List.head?_eq_none_iff.mp hc] at hrest
        generalize hts : significant us = ts at hrest ht
        generalize hnil : ([] : List Char) = text at hrest
        cases hrest with
        | gap => cases ht
        | cons _ hslice =>
          have hempty := (List.append_eq_nil_iff.mp (List.append_eq_nil_iff.mp hnil.symm).2).1
          exact absurd hempty hslice.written_ne_nil
      | some c =>
        refine ⟨c, rfl, ?_⟩
        rcases hrest.head hc with hblank | ⟨t', ht', hchar⟩
        · exact hblank
        · obtain rfl := Option.some.inj (ht.symm.trans ht')
          rw [hlongest.word hword c hc, hword'] at hchar
          cases hchar

theorem significantTokens_eq_ok_iff_laidOut {body : String} :
    significantTokens .reply body = .ok ts ↔ LaidOut ts body.toList := by
  rw [significantTokens_eq_ok_iff]
  constructor
  · rintro ⟨us, hus, rfl⟩
    exact laidOut_of_lexes hus
  · exact lexes_of_laidOut

end

/-! ## Replies -/

def Reply.meaning? (header : ReplyHeader) (ts : List Token) : Option (ReplyHeader × Keywords) := do
  let clauses ← (Clause.replyBody.run ts 0).toOption.map Prod.snd
  let keywords ← (clauses.mapM Line.buildKeyword).toOption
  return (header, keywords)

theorem Line.readBody_of_tokens {mode : LexMode} {α : Type} {p : Parser Token α} {ts : List Token}
    {body : String} (h : significantTokens mode body = .ok ts) (line : String) :
    (readBody mode p body line).toOption = (p.run ts 0).toOption.map Prod.snd := by
  rw [readBody, h]
  simp only [Except.mapError, bind, Except.bind, pure, Except.pure]
  cases p.run ts 0 <;> rfl

theorem Reply.read_of_tokens {line body : String} {header : ReplyHeader} {ts : List Token}
    (hh : ReplyHeader.read (Line.withoutNewline line) = .ok (header, body))
    (ht : significantTokens .reply body = .ok ts) :
    (read line).toOption.map (fun r => (r.header, r.keywords)) = meaning? header ts := by
  rw [meaning?, ← Line.readBody_of_tokens ht (Line.withoutNewline line)]
  simp only [read, hh, bind, Except.bind, pure, Except.pure]
  cases Line.readBody .reply Clause.replyBody body (Line.withoutNewline line) with
  | error e => rfl
  | ok clauses =>
    simp only [Except.toOption, Option.bind_some]
    cases clauses.mapM Line.buildKeyword <;> rfl

/-- The tokens of a reply body are read back from its layouts and from nothing else, and a reply line
means what its header and these tokens mean. -/
theorem layouts_mean_their_tokens (ts : List Token) :
    (∀ body : String, significantTokens .reply body = .ok ts ↔ LaidOut ts body.toList) ∧
      ∀ (line body : String) (header : ReplyHeader),
        ReplyHeader.read (Line.withoutNewline line) = .ok (header, body) → LaidOut ts body.toList →
        (Reply.read line).toOption.map (fun r => (r.header, r.keywords)) = Reply.meaning? header ts := by
  refine ⟨fun body => significantTokens_eq_ok_iff_laidOut, fun line body header hh hlaid => ?_⟩
  exact Reply.read_of_tokens hh (significantTokens_eq_ok_iff_laidOut.mpr hlaid)

end ActorHub
