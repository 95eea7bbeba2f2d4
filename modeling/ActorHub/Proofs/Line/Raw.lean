import ActorHub.Proofs.Line.Command
import ActorHub.Proofs.Token.Slices

/-!
# Raw lines

The word `raw` takes the rest of a command line as it is. Which word does so is said here of the
characters of the line alone: it stands outside quotes, and no such word stands before it. The lexer
cuts the line at the same word, the grammar admits what it takes as the last keyword only, and the
message keeps the name for it.
-/

namespace ActorHub

/-! ## The word in a line -/

/-- A text in which every quote that opens is closed again. -/
inductive Quoted.Closed : List Char → Prop
  | nil : Closed []
  | plain {c : Char} {cs : List Char} : isQuote c = false → Closed cs → Closed (c :: cs)
  | quoted {q : Char} {b cs : List Char} : isQuote q = true → Body q b → Closed cs →
      Closed (q :: (b ++ q :: cs))

/-- The word `raw`, in letters of either case, stands in a text outside quotes. -/
structure RawWord (cs before word after : List Char) : Prop where
  text : cs = before ++ (word ++ after)
  outside : Quoted.Closed before
  named : Text.sameName (String.ofList word) Keyword.reserved = true
  starts : ∀ c ∈ before.getLast?, Lexeme.isWordChar c = false
  stops : ∀ c ∈ after.head?, Lexeme.isWordChar c = false

structure FirstRawWord (cs before word after : List Char) : Prop
    extends RawWord cs before word after where
  first : ∀ {before' word' after' : List Char}, RawWord cs before' word' after' →
    before.length ≤ before'.length

namespace Quoted

theorem closed_cons_iff {c : Char} {cs : List Char} (hc : isQuote c = false) :
    Closed (c :: cs) ↔ Closed cs := by
  constructor
  · intro h
    cases h with
    | plain _ h => exact h
    | quoted hq => simp [hc] at hq
  · exact .plain hc

theorem closed_append_iff {w cs : List Char} (hw : ∀ c ∈ w, isQuote c = false) :
    Closed (w ++ cs) ↔ Closed cs := by
  induction w with
  | nil => rfl
  | cons c w ih =>
    rw [List.cons_append, closed_cons_iff (hw c (by simp)), ih fun d hd => hw d (by simp [hd])]

theorem Closed.exists_body {q : Char} {cs : List Char} (hq : isQuote q = true) (h : Closed (q :: cs)) :
    ∃ b rest, cs = b ++ q :: rest ∧ Body q b ∧ Closed rest := by
  cases h with
  | plain hc => simp [hq] at hc
  | quoted _ hb hrest => exact ⟨_, _, rfl, hb, hrest⟩

theorem ne_backslash {q : Char} (hq : isQuote q = true) : q ≠ '\\' := by
  rintro rfl
  exact absurd hq (by decide)

theorem closed_quoted_iff {q : Char} {b cs : List Char} (hq : isQuote q = true) (hb : Body q b) :
    Closed (q :: (b ++ q :: cs)) ↔ Closed cs := by
  constructor
  · intro h
    obtain ⟨b', rest, e, hb', hrest⟩ := h.exists_body hq
    rwa [(hb.unique (ne_backslash hq) hb' e).2]
  · exact .quoted hq hb

end Quoted

namespace Lexeme

section
variable {l : Lexeme} {cs : List Char}

theorem isQuote_of_isWordChar {c : Char} (h : isWordChar c = true) : Quoted.isQuote c = false := by
  obtain ⟨h, h', -⟩ := isWordChar_iff.mp h
  rw [← Bool.not_eq_true, isQuote_iff]
  exact fun hc => hc.elim h h'

theorem not_isWordChar_of_isQuote {c : Char} (h : Quoted.isQuote c = true) : isWordChar c = false := by
  rcases isQuote_iff.mp h with rfl | rfl <;> decide

theorem not_isWordChar_of_gap {c : Char} (h : c = ' ' ∨ c = '\t') :
    isWordChar c = false ∧ Quoted.isQuote c = false := by
  rcases h with rfl | rfl <;> decide

theorem not_isWordChar_char (d : Delimiter) :
    isWordChar d.char = false ∧ Quoted.isQuote d.char = false := by
  cases d <;> decide

inductive Made (l : Lexeme) : Prop
  | word : l.token.isWord = true → (∀ c ∈ l.written, isWordChar c = true) → Made l
  | gap : l.token.isWord = false →
      (∀ c ∈ l.written, isWordChar c = false ∧ Quoted.isQuote c = false) → Made l
  | quoted {q : Char} {b : List Char} : l.token.isWord = false → l.written = q :: (b ++ [q]) →
      Quoted.isQuote q = true → Quoted.Body q b → Made l

theorem IsSlice.made (h : l.IsSlice) (hline : l.token.isLine = false) : l.Made := by
  cases h with
  | name hw => exact .word rfl (isWordChar_of_isName hw)
  | value _ hw => exact .word rfl hw
  | raw hraw => exact .word rfl (isWordChar_of_isName (isName_of_sameName_raw hraw))
  | whitespace _ hrun => exact .gap rfl fun c hc => not_isWordChar_of_gap (hrun c hc)
  | delimiter d => exact .gap rfl fun c hc => by rw [List.mem_singleton.mp hc]; exact not_isWordChar_char d
  | quoted hq hb => exact .quoted rfl rfl hq hb
  | line => cases hline

theorem Made.closed_iff (h : l.Made) : Quoted.Closed (l.written ++ cs) ↔ Quoted.Closed cs := by
  cases h with
  | word _ hw => exact Quoted.closed_append_iff fun c hc => isQuote_of_isWordChar (hw c hc)
  | gap _ hgap => exact Quoted.closed_append_iff fun c hc => (hgap c hc).2
  | quoted _ e hq hb =>
    rw [e, List.cons_append, List.append_assoc]
    exact Quoted.closed_quoted_iff hq hb

theorem Made.last (h : l.Made) (hword : l.token.isWord = false) :
    ∀ c ∈ l.written.getLast?, isWordChar c = false := by
  intro c hc
  cases h with
  | word hw => simp [hword] at hw
  | gap _ hgap => exact (hgap c (List.mem_of_getLast? hc)).1
  | quoted _ e hq hb =>
    rw [e, ← List.cons_append, List.getLast?_concat] at hc
    obtain rfl := Option.some.inj hc
    exact not_isWordChar_of_isQuote hq

theorem IsSlice.eq_raw (h : l.IsSlice) (hraw : l.token.isRaw = true) :
    l.token = .raw (String.ofList l.written) ∧
      Text.sameName (String.ofList l.written) Keyword.reserved = true := by
  cases h with
  | raw hnamed => exact ⟨rfl, hnamed⟩
  | name | value | whitespace | delimiter | quoted | line => cases hraw

end

end Lexeme

namespace RawWord

section
variable {l : Lexeme} {cs rest before word after : List Char}

theorem isWordChar (h : RawWord cs before word after) : ∀ c ∈ word, Lexeme.isWordChar c = true :=
  Lexeme.isWordChar_of_isName (Lexeme.isName_of_sameName_raw h.named)

theorem ne_nil (h : RawWord cs before word after) : word ≠ [] :=
  Lexeme.ne_nil_of_isName (Lexeme.isName_of_sameName_raw h.named)

theorem isRaw_of_front (hl : Lexeme.next? .command false (l.written ++ rest) = some l)
    (h : RawWord (l.written ++ rest) [] word after) :
    l.token.isRaw = true ∧ word = l.written ∧ after = rest := by
  have hnext : Lexeme.next? .command false (word ++ after) = some ⟨Lexeme.wordIn .command word, word⟩ :=
    Lexeme.next?_word h.ne_nil h.isWordChar h.stops
  have htext := h.text
  rw [List.nil_append] at htext
  rw [← htext, hl] at hnext
  obtain rfl := Option.some.inj hnext
  refine ⟨?_, rfl, (List.append_cancel_left htext).symm⟩
  rw [Lexeme.wordIn, if_pos ⟨rfl, Lexeme.isName_of_sameName_raw h.named, h.named⟩]
  rfl

/-- The word does not stand inside a slice. -/
theorem exists_behind (hl : l.Made) (h : RawWord (l.written ++ rest) before word after)
    (hne : before ≠ []) : ∃ tail, before = l.written ++ tail ∧ rest = tail ++ (word ++ after) := by
  rcases List.append_eq_append_iff.mp h.text with ⟨m, hm⟩ | ⟨m, hm, he⟩
  · exact ⟨m, hm⟩
  · cases m with
    | nil => exact ⟨[], by simpa using hm.symm, by simpa using he.symm⟩
    | cons c m =>
      exfalso
      obtain ⟨d, w, hw⟩ := List.exists_cons_of_ne_nil h.ne_nil
      have hc : Lexeme.isWordChar c = true := by
        rw [hw] at he
        exact (List.cons.inj he).1 ▸ h.isWordChar d (by simp [hw])
      cases hl with
      | word _ hchars =>
        obtain ⟨init, z, rfl⟩ := (List.eq_nil_or_concat before).resolve_left hne
        have hz := hchars z (by simp [hm])
        simp [h.starts z (by simp)] at hz
      | gap _ hgap => simp [(hgap c (by simp [hm])).1] at hc
      | @quoted q b _ e hq hb =>
        obtain ⟨p, before, rfl⟩ := List.exists_cons_of_ne_nil hne
        rw [e, List.cons_append] at hm
        obtain ⟨rfl, hbody⟩ := List.cons.inj hm
        obtain ⟨b', inner, rfl, hb', -⟩ := h.outside.exists_body hq
        rw [List.append_assoc] at hbody
        simpa using (hb.unique (Quoted.ne_backslash hq) hb' hbody).2

theorem step_iff (hl : Lexeme.next? .command false (l.written ++ rest) = some l) :
    RawWord (l.written ++ rest) before word after ↔
      (l.token.isRaw = true ∧ before = [] ∧ word = l.written ∧ after = rest) ∨
        ∃ tail, before = l.written ++ tail ∧ RawWord rest tail word after := by
  obtain ⟨hstands, hlongest⟩ := Lexeme.next?_eq_some_iff.mp hl
  have hmade := hstands.slice.made hstands.isLine
  constructor
  · intro h
    by_cases hne : before = []
    · subst hne
      obtain ⟨hraw, hfront⟩ := h.isRaw_of_front hl
      exact .inl ⟨hraw, rfl, hfront⟩
    · obtain ⟨tail, rfl, hrest⟩ := h.exists_behind hmade hne
      refine .inr ⟨tail, rfl, hrest, hmade.closed_iff.mp h.outside, h.named, ?_, h.stops⟩
      intro c hc
      exact h.starts c (by rw [List.getLast?_append, Option.mem_def.mp hc]; rfl)
  · rintro (⟨hraw, rfl, rfl, rfl⟩ | ⟨tail, rfl, h⟩)
    · obtain ⟨htoken, hnamed⟩ := hstands.slice.eq_raw hraw
      exact ⟨rfl, .nil, hnamed, nofun, hlongest.word (by rw [htoken]; rfl)⟩
    · refine ⟨by rw [List.append_assoc, ← h.text], hmade.closed_iff.mpr h.outside, h.named, ?_, h.stops⟩
      intro c hc
      rw [List.getLast?_append] at hc
      cases tail with
      | nil =>
        -- no word goes on behind a slice that is one
        have hword : l.token.isWord = false := by
          by_contra hword
          obtain ⟨d, w, rfl⟩ := List.exists_cons_of_ne_nil h.ne_nil
          have hd := hlongest.word (by simpa using hword) d (by rw [h.text]; rfl)
          simp [h.isWordChar d (by simp)] at hd
        exact hmade.last hword c (by simpa using hc)
      | cons d tail => exact h.starts c (by simpa [List.getLast?_cons] using hc)

end

end RawWord

/-! ## The word among the tokens -/

section
variable {cs : List Char} {ts : List Token}

theorem Lexes.raw_cases (h : Lexes .command false cs ts) :
    ((∀ t ∈ ts, t.isRaw = false) ∧ ∀ before word after, ¬ RawWord cs before word after) ∨
      ∃ front back before word after, ts = front ++ .raw (String.ofList word) :: back ∧
        (∀ t ∈ front, t.isRaw = false) ∧ FirstRawWord cs before word after ∧
        Lexes .command true after back := by
  generalize hstart : false = afterRaw at h
  induction h with
  | done =>
    refine .inl ⟨by simp, fun before word after h => h.ne_nil ?_⟩
    exact (List.append_eq_nil_iff.mp (List.append_eq_nil_iff.mp h.text.symm).2).1
  | @step _ l rest ts hl ht ih =>
    subst hstart
    cases hraw : l.token.isRaw with
    | true =>
      rw [hraw] at ht
      refine .inr ⟨[], ts, [], l.written, rest, ?_, by simp, ⟨?_, fun _ => Nat.zero_le _⟩, ht⟩
      · rw [((Lexeme.next?_eq_some_iff.mp hl).1.slice.eq_raw hraw).1]
        rfl
      · exact (RawWord.step_iff hl).mpr (.inl ⟨hraw, rfl, rfl, rfl⟩)
    | false =>
      have hstep {before word after : List Char} (h : RawWord (l.written ++ rest) before word after) :
          ∃ tail, before = l.written ++ tail ∧ RawWord rest tail word after :=
        ((RawWord.step_iff hl).mp h).resolve_left fun hfront => by simp [hraw] at hfront
      rcases ih hraw.symm with ⟨hts, hnone⟩ |
        ⟨front, back, before, word, after, rfl, hfront, hfirst, hback⟩
      · refine .inl ⟨by simpa [hraw] using hts, fun before word after h => ?_⟩
        obtain ⟨tail, -, htail⟩ := hstep h
        exact hnone _ _ _ htail
      · refine .inr ⟨l.token :: front, back, l.written ++ before, word, after, rfl,
          by simpa [hraw] using hfront, ⟨?_, fun h => ?_⟩, hback⟩
        · exact (RawWord.step_iff hl).mpr (.inr ⟨before, rfl, hfirst.toRawWord⟩)
        · obtain ⟨tail, rfl, htail⟩ := hstep h
          rw [List.length_append, List.length_append]
          exact Nat.add_le_add_left (hfirst.first htail) _

theorem Lexes.eq_line {text : String} (h : Lexes .command true cs [.line text]) :
    ∃ gap, cs = gap ++ '=' :: text.toList ∧ '=' ∉ gap := by
  generalize hraw : true = afterRaw at h
  generalize hline : [Token.line text] = ts at h
  cases h with
  | done => cases hline
  | @step _ l rest ts hl ht =>
    obtain ⟨htoken, rfl⟩ := List.cons.inj hline
    have hrest : rest = [] := by
      generalize hnil : [] = ts at ht
      cases ht with
      | done => rfl
      | step => cases hnil
    obtain ⟨hslice, -⟩ := (Lexeme.next?_eq_some_iff.mp hl).1
    cases hslice with
    | @line blanks text' hblanks =>
      obtain rfl := Token.line.inj htoken
      refine ⟨blanks, by simp [hrest], fun hmem => ?_⟩
      exact absurd (hblanks _ hmem) (by decide)
    | name | value | raw | whitespace | delimiter | quoted => cases htoken

end

/-! ## The word in the grammar -/

namespace Command

open ActorHub.Clause ActorHub.Parser

section
variable {us : List Token} {c : KeywordClause} {cs : List KeywordClause} {k : Keyword} {ks : Keywords}

theorem isRaw_of_isMore {more : List String} (h : Sequence IsMore us more) :
    ∀ t ∈ us, t.isRaw = false := by
  induction h with
  | nil => simp
  | cons hp _ ih =>
    cases hp with
    | comma hv => cases hv <;> simpa [Token.isRaw] using ih

theorem isRaw_of_isValues {values : List String} (h : IsValues us values) :
    ∀ t ∈ us, t.isRaw = false := by
  cases h with
  | nil => simp
  | cons hv hm => cases hv <;> simpa [Token.isRaw] using isRaw_of_isMore hm

theorem isKeyword_cases (h : IsKeyword us c) (hb : Line.buildKeyword c = .ok k) :
    ((∀ t ∈ us, t.isRaw = false) ∧ k.isRaw = false) ∨
      ∃ w text, us = [.raw w, .line text] ∧ k = .raw text := by
  cases h with
  | raw w text =>
    cases hb
    exact .inr ⟨w, text, rfl, rfl⟩
  | bare n =>
    rw [(Keyword.buildKeyword_named_iff.mp hb).2]
    exact .inl ⟨by simp [Token.isRaw], rfl⟩
  | valued n hv hm =>
    rw [(Keyword.buildKeyword_named_iff.mp hb).2]
    refine .inl ⟨?_, rfl⟩
    simpa [Token.isRaw] using isRaw_of_isValues (.cons hv hm)

theorem isRaw_of_sequence (h : Sequence IsKeyword us cs) (hb : cs.mapM Line.buildKeyword = .ok ks)
    (hus : ∀ t ∈ us, t.isRaw = false) : ∀ k ∈ ks, k.isRaw = false := by
  rw [mapM_eq_ok_iff] at hb
  induction h generalizing ks with
  | nil => cases hb; simp
  | cons hp _ ih =>
    cases hb with
    | cons hk hks =>
      simp only [List.mem_append, or_imp, forall_and] at hus
      rcases isKeyword_cases hp hk with ⟨-, hkey⟩ | ⟨w, text, rfl, -⟩
      · simpa [hkey] using ih hks hus.2
      · simpa [Token.isRaw] using hus.1 (.raw w)

theorem exists_behind_of_isRaw {piece ts front back : List Token} {w : String}
    (e : piece ++ ts = front ++ .raw w :: back) (hpiece : ∀ t ∈ piece, t.isRaw = false) :
    ∃ m, front = piece ++ m ∧ ts = m ++ .raw w :: back := by
  rcases List.append_eq_append_iff.mp e with hm | ⟨m, rfl, hm⟩
  · exact hm
  · cases m with
    | nil => exact ⟨[], by simp, by simpa using hm.symm⟩
    | cons t m =>
      obtain ⟨rfl, -⟩ := List.cons.inj hm
      simpa [Token.isRaw] using hpiece (.raw w)

theorem raw_of_sequence (h : Sequence IsKeyword us cs) (hb : cs.mapM Line.buildKeyword = .ok ks)
    {front back : List Token} {w : String} (e : us = front ++ .raw w :: back)
    (hfront : ∀ t ∈ front, t.isRaw = false) (hback : back = [] ∨ ∃ text, back = [.line text]) :
    ∃ text init, back = [.line text] ∧ ks = init ++ [.raw text] ∧ ∀ k ∈ init, k.isRaw = false := by
  rw [mapM_eq_ok_iff] at hb
  induction h generalizing front ks with
  | nil => cases front <;> cases e
  | @cons piece ts _ _ hp hts ih =>
    cases hb with
    | @cons _ k _ ks hk hks =>
      rcases isKeyword_cases hp hk with ⟨hpiece, hkey⟩ | ⟨w', text, rfl, rfl⟩
      · obtain ⟨m, rfl, rfl⟩ := exists_behind_of_isRaw e hpiece
        simp only [List.mem_append, or_imp, forall_and] at hfront
        obtain ⟨text, init, hline, rfl, hinit⟩ := ih hks rfl hfront.2
        exact ⟨text, k :: init, hline, rfl, by simpa [hkey] using hinit⟩
      · cases front with
        | nil =>
          obtain ⟨-, rfl⟩ := List.cons.inj e
          have hnil : ts = [] := by
            rcases hback with hback | ⟨_, hback⟩ <;> cases hback
            rfl
          have hks : ks = [] := by
            cases hts with
            | nil => cases hks; rfl
            | cons hp' _ => cases hp' <;> cases hnil
          subst hnil hks
          exact ⟨text, [], rfl, rfl, by simp⟩
        | cons t front =>
          obtain ⟨rfl, -⟩ := List.cons.inj e
          simpa [Token.isRaw] using hfront (.raw w')

end

/-- The first word `raw` outside quotes takes what stands behind the next equals sign, as it is, and
becomes the last keyword of the command. A command without the word has no such keyword, and nothing
else in a command goes by the name. -/
theorem raw_line_verbatim {text : String} {c : Command} (h : read text = .ok c) :
    ((∃ before word after, RawWord (Line.withoutNewline text).toList before word after) →
      ∃ before word gap payload front,
        FirstRawWord (Line.withoutNewline text).toList before word (gap ++ '=' :: payload) ∧ '=' ∉ gap ∧
        c.keywords = front ++ [.raw (String.ofList payload)] ∧ ∀ k ∈ front, k.isRaw = false) ∧
    ((¬ ∃ before word after, RawWord (Line.withoutNewline text).toList before word after) →
      ∀ k ∈ c.keywords, k.isRaw = false) ∧
    '.' ∉ c.name.toList ∧ Text.sameName c.name Keyword.reserved = false ∧
    ∀ k ∈ c.keywords, k.isRaw = false → Text.sameName k.name Keyword.reserved = false := by
  have hg := grammatical_of_read h
  obtain ⟨cl, hb, hk, -⟩ := read_eq_ok_iff.mp h
  obtain ⟨ts, hts, hcl⟩ := readBody_eq_ok_iff.mp hb
  obtain ⟨vts, kts, hsplit, hv, hks⟩ := hcl.parts
  have hlead : ∀ t ∈ Token.name cl.verb :: vts, t.isRaw = false := by
    simpa [Token.isRaw] using isRaw_of_isValues hv
  rw [← List.cons_append] at hsplit
  have hsig {front : List Token} (hfront : ∀ t ∈ front, t.isRaw = false) :
      ∀ t ∈ significant front, t.isRaw = false := fun t ht => hfront t (List.mem_of_mem_filter ht)
  refine ⟨fun hword => ?_, fun hnone => ?_, hg.undotted, hg.notRaw, fun k hmem hkey => ?_⟩
  · rcases hts.raw_cases with ⟨-, hnone⟩ |
      ⟨front, back, before, word, after, rfl, hfront, hfirst, hback⟩
    · obtain ⟨before, word, after, hword⟩ := hword
      exact absurd hword (hnone _ _ _)
    · rw [significant_append, significant_cons rfl] at hsplit
      have hback' : significant back = back := by
        rcases hback.afterRaw with rfl | ⟨text, rfl⟩ <;> rfl
      obtain ⟨m, hm, rfl⟩ := exists_behind_of_isRaw hsplit.symm hlead
      have hmraw : ∀ t ∈ m, t.isRaw = false := fun t ht => hsig hfront t (by simp [hm, ht])
      rw [hback'] at hks
      obtain ⟨payload, init, rfl, hkeywords, hinit⟩ := raw_of_sequence hks hk rfl hmraw hback.afterRaw
      obtain ⟨gap, rfl, hgap⟩ := hback.eq_line
      exact ⟨before, word, gap, _, init, hfirst, hgap, by rw [hkeywords, String.ofList_toList], hinit⟩
  · rcases hts.raw_cases with ⟨hraw, -⟩ | ⟨_, _, before, word, after, -, -, hfirst, -⟩
    · exact isRaw_of_sequence hks hk fun t ht => hsig hraw t (by simp [hsplit, ht])
    · exact absurd ⟨before, word, after, hfirst.toRawWord⟩ hnone
  · have hk := hg.keywords.each k hmem
    obtain ⟨kind, values, matched⟩ := k
    cases kind with
    | raw => cases hkey
    | named name => exact hk.2.1

theorem raw_line_verbatim_quoted : ∃ c, read "move 'raw' rate RAW =\"x', y=z; " = .ok c ∧
    ∃ before word gap payload front,
      FirstRawWord "move 'raw' rate RAW =\"x', y=z; ".toList before word (gap ++ '=' :: payload) ∧
      '=' ∉ gap ∧ c.keywords = front ++ [.raw (String.ofList payload)] ∧
      ∀ k ∈ front, k.isRaw = false := by
  have hr : read "move 'raw' rate RAW =\"x', y=z; " = .ok ⟨"move", [.raw "raw"],
      [⟨.named "rate", [], false⟩, .raw "\"x', y=z; "], some "move 'raw' rate RAW =\"x', y=z; "⟩ :=
    read_eq_ok_iff.mpr ⟨⟨"move", ["raw"], [.named "rate" [], .raw "\"x', y=z; "]⟩,
      eq_ok_of_toOption (by decide +kernel), rfl, by decide, by decide, rfl, rfl, rfl⟩
  have hbody : Quoted.Body '\'' "raw".toList :=
    .plain (by decide) (by decide) (by decide) (.plain (by decide) (by decide) (by decide)
      (.plain (by decide) (by decide) (by decide) .nil))
  have hmove : ∀ c ∈ "move ".toList, Quoted.isQuote c = false := by simp [Quoted.isQuote]
  have hrate : ∀ c ∈ " rate ".toList, Quoted.isQuote c = false := by simp [Quoted.isQuote]
  have hbefore : Quoted.Closed "move 'raw' rate ".toList :=
    (Quoted.closed_append_iff hmove).mpr (.quoted rfl hbody ((Quoted.closed_append_iff hrate).mpr .nil))
  have hword : RawWord "move 'raw' rate RAW =\"x', y=z; ".toList "move 'raw' rate ".toList
      "RAW".toList " =\"x', y=z; ".toList :=
    ⟨by decide, hbefore, by decide, by rintro _ ⟨⟩; decide, by rintro _ ⟨⟩; decide⟩
  exact ⟨_, hr, (raw_line_verbatim hr).1 ⟨_, _, _, hword⟩⟩

end Command

end ActorHub
