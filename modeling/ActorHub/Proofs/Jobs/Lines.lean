import ActorHub.Proofs.Jobs.Effects
import ActorHub.Proofs.Message.Reading
import ActorHub.Proofs.Number.IntLiteral

/-!
# Line breaks in what jobs write

Values are printed in quotes where they hold white space, and only quotes and backslashes are changed in
them. So the line of a reply has the line breaks of the texts it is made of, all of them and no others: a
reply is one line if and only if the texts are.
-/

namespace ActorHub

namespace Text

def isLineBreak (c : Char) : Bool :=
  let n := c.toNat
  (0xa ≤ n && n ≤ 0xd) || n == 0x85 || n == 0x2028 || n == 0x2029

def breaks (s : String) : List Char :=
  s.toList.filter isLineBreak

def IsOneLine (s : String) : Prop :=
  breaks s = []

instance : DecidablePred IsOneLine := fun s => inferInstanceAs (Decidable (breaks s = []))

section
variable {c : Char} {s : String}

theorem isLineBreak_of_isNameChar (h : Lexeme.isNameChar c = true) : isLineBreak c = false := by
  have := Lexeme.toNat_of_isNameChar h
  have hname := Lexeme.isNameChar_iff.mp h
  rw [isAsciiLetter_iff, isAsciiDigit_iff] at hname
  simp only [isLineBreak, Bool.or_eq_false_iff, Bool.and_eq_false_iff, decide_eq_false_iff_not,
    beq_eq_false_iff_ne]
  rcases hname with h | h | rfl | rfl
  · omega
  · omega
  · decide
  · decide

theorem breaks_append (s t : String) : breaks (s ++ t) = breaks s ++ breaks t := by
  simp [breaks]

theorem breaks_of_forall (h : ∀ c ∈ s.toList, isLineBreak c = false) : breaks s = [] :=
  List.filter_eq_nil_iff.mpr fun c hc => by rw [h c hc]; decide

theorem breaks_of_isName (h : Lexeme.isName s.toList = true) : breaks s = [] :=
  breaks_of_forall fun c hc => isLineBreak_of_isNameChar (Lexeme.isNameChar_of_mem h c hc)

theorem breaks_toString (n : Nat) : breaks (toString n) = [] := by
  refine breaks_of_forall fun c hc => isLineBreak_of_isNameChar (Lexeme.isNameChar_iff.mpr ?_)
  have hdigit : c ∈ Nat.toDigits 10 n := by simpa using hc
  exact .inr (.inl (Number.isAsciiDigit_of_mem_toDigits hdigit))

theorem breaks_intercalate (h : breaks s = []) (xs : List String) :
    breaks (s.intercalate xs) = xs.flatMap breaks := by
  induction xs with
  | nil => rfl
  | cons x xs ih =>
    by_cases hxs : xs = []
    · simp [hxs]
    · rw [String.intercalate_cons_of_ne_nil hxs, breaks_append, breaks_append, h, ih, List.append_nil,
        List.flatMap_cons]

end

end Text

/-! ## Escapes -/

namespace Quoted

theorem isLineBreak_of_isEscapable {c : Char} (h : isEscapable c = true) : Text.isLineBreak c = false := by
  simp only [isEscapable, isQuote, Bool.or_eq_true, decide_eq_true_eq] at h
  rcases h with rfl | rfl | rfl <;> decide

theorem filter_unescapeChars (cs : List Char) :
    (unescapeChars cs).filter Text.isLineBreak = cs.filter Text.isLineBreak := by
  have hslash : Text.isLineBreak '\\' = false := by decide
  fun_induction unescapeChars cs with
  | case1 d rest hd ih => simp [hslash, isLineBreak_of_isEscapable hd, ih]
  | case2 d rest hd ih => simp [List.filter_cons, hslash, ih]
  | case3 d rest hd ih => simp [List.filter_cons, ih]
  | case4 => rfl

theorem filter_escapeQuotes (cs : List Char) :
    (escapeQuotes cs).filter Text.isLineBreak = cs.filter Text.isLineBreak := by
  have hslash : Text.isLineBreak '\\' = false := by decide
  have hquote : Text.isLineBreak '"' = false := by decide
  induction cs with
  | nil => rfl
  | cons d cs ih =>
    by_cases hd : d = '"'
    · subst hd; simp [escapeQuotes, hslash, hquote, ih]
    · simp [escapeQuotes, hd, List.filter_cons, ih]

end Quoted

/-! ## Values and keywords -/

namespace Value

theorem filter_quotedForm (cs : List Char) :
    (quotedForm cs).filter Text.isLineBreak = cs.filter Text.isLineBreak := by
  have hquote : Text.isLineBreak '"' = false := by decide
  simp [quotedForm, hquote, Quoted.filter_escapeQuotes, Quoted.filter_unescapeChars]

theorem breaks_loneForm (v : Value) : Text.breaks v.loneForm = Text.breaks v.display := by
  rw [loneForm, Text.breaks, String.toList_ofList, filter_quotedForm, Text.breaks]

theorem breaks_canonicalForm (v : Value) : Text.breaks v.canonicalForm = Text.breaks v.display := by
  unfold canonicalForm
  split
  · rfl
  · exact v.breaks_loneForm

end Value

theorem Values.breaks_canonical (vs : Values) :
    Text.breaks (canonical vs) = vs.flatMap fun v => Text.breaks v.display := by
  unfold canonical
  split
  · next v => rw [v.breaks_loneForm, List.flatMap_singleton]
  · rw [Text.breaks_intercalate (by decide), List.flatMap_map]
    simp only [Value.breaks_canonicalForm]

namespace Keyword

def texts (k : Keyword) : List String :=
  match k.kind with
  | .raw => k.rawLine?.toList
  | .named _ => k.values.map Value.display

def IsCalled (k : Keyword) : Prop :=
  Lexeme.isName k.name.toList = true

theorem breaks_canonical {k : Keyword} (h : k.IsCalled) :
    Text.breaks k.canonical = k.texts.flatMap Text.breaks := by
  obtain ⟨kind, values, matched⟩ := k
  cases kind with
  | raw =>
    have hraw : Text.breaks "raw=" = [] := by decide
    simp only [canonical, texts, Text.breaks_append, hraw, List.nil_append]
    cases rawLine? ⟨.raw, values, matched⟩ with
    | none => rfl
    | some line => simp
  | named name =>
    have hname := Text.breaks_of_isName (Lexeme.isName_lowercase h)
    change Text.breaks (Text.lowercase name) = [] at hname
    cases values with
    | nil => exact hname
    | cons v vs =>
      have hequals : Text.breaks "=" = [] := by decide
      simp only [canonical, texts, Text.breaks_append, hname, hequals, List.nil_append,
        Values.breaks_canonical, List.flatMap_map]

end Keyword

def Keywords.texts (ks : Keywords) : List String :=
  ks.flatMap Keyword.texts

theorem Keywords.breaks_canonical {ks : Keywords} (h : ∀ k ∈ ks, k.IsCalled) :
    Text.breaks (canonical ks ";") = (texts ks).flatMap Text.breaks := by
  rw [canonical, Text.breaks_intercalate (by decide), List.flatMap_map, texts, List.flatMap_assoc]
  exact List.flatMap_congr fun k hk => Keyword.breaks_canonical (h k hk)

/-! ## Replies -/

theorem OutgoingReply.breaks_line {r : OutgoingReply} (h : ∀ k ∈ r.keywords, k.IsCalled) :
    Text.breaks r.line = Text.breaks r.commander ++ Text.breaks (String.singleton r.code) ++
      (Keywords.texts r.keywords).flatMap Text.breaks := by
  have hspace : Text.breaks " " = [] := by decide
  have hkeywords : Text.breaks (if r.keywords.isEmpty then "" else " " ++ Keywords.canonical r.keywords ";") =
      (Keywords.texts r.keywords).flatMap Text.breaks := by
    cases hk : r.keywords with
    | nil => rfl
    | cons k ks =>
      rw [← hk, ← Keywords.breaks_canonical h, hk]
      simp [Text.breaks_append, hspace]
  rw [line]
  simp only [Text.breaks_append, hspace, hkeywords, Text.breaks_toString, List.append_nil]

namespace Content

def texts : Content → List String
  | empty => []
  | text s => [s]
  | keywords ks => ks.texts

def IsCalled : Content → Prop
  | empty | text _ => True
  | keywords ks => ∀ k ∈ ks, k.IsCalled

theorem texts_toKeywords {content : Content} {name : String} {code : Char} {ks : Keywords}
    (h : content.toKeywords name code = .ok ks) (hname : Lexeme.isName name.toList = true)
    (hcalled : content.IsCalled) : ks.texts = content.texts ∧ ∀ k ∈ ks, k.IsCalled := by
  cases content with
  | empty => cases h; exact ⟨rfl, List.forall_mem_nil _⟩
  | keywords ls => cases h; exact ⟨rfl, hcalled⟩
  | text s =>
    obtain ⟨k, hk, rfl⟩ := map_eq_ok_iff.mp h
    obtain ⟨-, rfl⟩ := Keyword.make_eq_ok_iff.mp hk
    refine ⟨rfl, List.forall_mem_singleton.mpr ?_⟩
    show Lexeme.isName (keywordName name code).toList = true
    unfold keywordName
    split
    · decide
    · exact hname

end Content

theorem isLineBreak_childCode {code c : Char} {ks : Keywords} (h : childCode? code ks = some c) :
    Text.isLineBreak c = Text.isLineBreak code := by
  unfold childCode? at h
  split at h
  · cases h
  · split at h
    · next hcode =>
      split at h
      · cases h
      · cases h; subst hcode; decide
    · split at h
      · next hcode => cases h; subst hcode; decide
      · cases h; rfl

namespace Jobs

section
variable {w w' : Jobs} {id : JobId} {job : Job} {code : Char} {content : Content}

theorem reply_of_job {keywords : Keywords} {reply : OutgoingReply}
    (h : w.reply? job code keywords = some reply) : reply.keywords = keywords ∧
      Text.isLineBreak reply.code = Text.isLineBreak code := by
  unfold reply? at h
  split at h
  · cases h; exact ⟨rfl, rfl⟩
  · obtain ⟨parent, -, h⟩ := Option.bind_eq_some_iff.mp h
    obtain ⟨c, hc, h⟩ := Option.bind_eq_some_iff.mp h
    cases h
    exact ⟨rfl, isLineBreak_childCode hc⟩

/-- What a job writes has all the line breaks of the texts that it is given, in their order, and no
others: it is one line if and only if the id of the commander, the code and every text are. Only a job
with a parent may write nothing. -/
theorem written_line_breaks (hj : w.job? id = some job)
    (hname : Lexeme.isName job.defaultKeyword.toList = true) (hcalled : content.IsCalled)
    (hw : w.write id code content = .ok w') :
    w' = w ∧ job.parent ≠ none ∨ ∃ writer reply, w'.journal = w.journal ++ [.wrote id writer reply] ∧
      Text.breaks reply.line = Text.breaks reply.commander ++ Text.breaks (String.singleton reply.code) ++
        content.texts.flatMap Text.breaks ∧
      (Text.IsOneLine reply.line ↔ Text.IsOneLine reply.commander ∧ Text.isLineBreak code = false ∧
        ∀ text ∈ content.texts, Text.IsOneLine text) := by
  obtain ⟨writer, -, keywords, hkeywords, hw⟩ := (write_eq_ok_iff hj).mp hw
  cases hreply : w.reply? job code keywords with
  | none =>
    rw [hreply] at hw
    refine .inl ⟨hw, fun hparent => ?_⟩
    rw [reply?, hparent] at hreply
    cases hreply
  | some reply =>
    rw [hreply] at hw
    obtain ⟨state, -, state', -, rfl⟩ := hw
    obtain ⟨hsame, hcode⟩ := reply_of_job hreply
    obtain ⟨htexts, hcalled⟩ := Content.texts_toKeywords hkeywords hname hcalled
    have hcodes : ∀ c, Text.breaks (String.singleton c) = if Text.isLineBreak c then [c] else [] := by
      intro c
      simp [Text.breaks, List.filter_cons]
    have hline := OutgoingReply.breaks_line (r := reply) (hsame ▸ hcalled)
    rw [hsame, htexts] at hline
    refine .inr ⟨writer, reply, rfl, hline, ?_⟩
    rw [Text.IsOneLine, hline]
    simp [Text.IsOneLine, hcodes, hcode]

end

/-- A child that fails with two lines of text writes both of them. -/
theorem written_line_breaks_failed : ∃ w w' writer reply,
    Jobs.write w 1 'f' (.text "say \"go\"\r\nor = stop") = .ok w' ∧
      w'.journal = [.wrote 1 writer reply] ∧ Text.breaks reply.line = ['\r', '\n'] := by
  obtain ⟨w, w', job, hj, hname, hw, hnew, hwrote⟩ : ∃ (w w' : Jobs) (job : Job), w.job? 1 = some job ∧
      Lexeme.isName job.defaultKeyword.toList = true ∧
      w.write 1 'f' (.text "say \"go\"\r\nor = stop") = .ok w' ∧ w.journal = [] ∧
      w'.journal = [.wrote 1 0 ⟨"a.b", 7, 'e',
        [⟨.named "error", [.raw "say \"go\"\r\nor = stop"], false⟩]⟩] := by
    refine ⟨((empty true).add
      ⟨⟨"a.b", 7, "act", "", "text", none⟩, some (.log none), [], false, none⟩).add
      ⟨⟨"act.x", 0, "act", "", "note", some 0⟩, none, [], false, none⟩, _, _, rfl, ?_, rfl, ?_, ?_⟩
    · decide
    · rfl
    · rfl
  refine ⟨w, w', 0, _, hw, hwrote, ?_⟩
  have hcalled : Content.IsCalled (.text "say \"go\"\r\nor = stop") := trivial
  obtain ⟨rfl, -⟩ | ⟨writer, reply, hjournal, hbreaks, -⟩ := written_line_breaks hj hname hcalled hw
  · rw [hnew] at hwrote; cases hwrote
  · rw [hwrote, hnew] at hjournal
    cases hjournal
    rw [hbreaks]
    decide

/-- The second line of a text is read as a reply that ends the command. -/
theorem text_forges_reply :
    let b : Blueprint := ⟨⟨"a.b", 7, "act", "", "text", none⟩, some (.log none), [], false, none⟩
    let w := (empty true).add b
    Lexeme.isName b.order.defaultKeyword.toList = true ∧
    ∃ w' reply, w.write 0 'i' (.text "moved\na.b 7 :\nx") = .ok w' ∧ w'.journal = [.wrote 0 0 reply] ∧
      ¬Text.IsOneLine reply.line ∧ reply.line.toList = "a.b 7 i text=\"moved".toList ++
        '\n' :: ((OutgoingReply.mk "a.b" 7 ':' []).line.toList ++ '\n' :: "x\"".toList) := by
  refine ⟨by decide, _, _, rfl, rfl, ?_, ?_⟩
  · decide
  · decide

end Jobs

end ActorHub
