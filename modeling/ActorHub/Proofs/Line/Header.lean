import ActorHub.Line
import ActorHub.Proofs.Number.Radix

/-!
# Reply headers

A header whose parts have the shapes that reading asks for is read back from its canonical form,
with the text behind it, and every header that is read has parts of these shapes.
-/

namespace ActorHub.ReplyHeader

/-! ## Shapes of the parts -/

def isIdentifier : List Char → Bool
  | [] => false
  | c :: rest => Text.isAsciiLetter c && rest.all isIdentifierChar

def isStack : List Char → Bool
  | [] => true
  | c :: rest => c == '.' && Lexeme.isName rest

structure Grammatical (h : ReplyHeader) : Prop where
  program : h.program = "" ∨ isIdentifier h.program.toList = true
  user : isIdentifier h.user.toList = true
  actorStack : isStack h.actorStack.toList = true
  commandId : h.commandId < idBound
  actor : isIdentifier h.actor.toList = true

/-! ## Reading the parts -/

section
variable {first p : Char → Bool} {cs w rest : List Char}

theorem word?_append {c : Char} (hc : first c = true) (hw : ∀ d ∈ w, p d = true)
    (hstop : ∀ d ∈ rest.head?, p d = false) :
    word? first p (c :: w ++ rest) = some (c :: w, rest) := by
  simp [word?, hc, takeWhile_append_of_stop hw hstop, dropWhile_append_of_stop hw hstop]

theorem word?_eq_some (h : word? first p cs = some (w, rest)) :
    ∃ c v, w = c :: v ∧ first c = true ∧ ∀ d ∈ v, p d = true := by
  cases cs with
  | nil => cases h
  | cons c cs =>
    simp only [word?, Option.ite_none_right_eq_some, Option.some.injEq, Prod.mk.injEq] at h
    obtain ⟨hc, rfl, _⟩ := h
    exact ⟨c, _, rfl, hc, List.all_eq_true.mp (List.all_takeWhile ..)⟩

theorem identifier?_append (h : isIdentifier w = true)
    (hstop : ∀ d ∈ rest.head?, isIdentifierChar d = false) :
    identifier? (w ++ rest) = some (w, rest) := by
  cases w with
  | nil => cases h
  | cons c w =>
    simp only [isIdentifier, Bool.and_eq_true, List.all_eq_true] at h
    exact word?_append h.1 h.2 hstop

theorem isIdentifier_of_identifier? (h : identifier? cs = some (w, rest)) : isIdentifier w = true := by
  obtain ⟨c, v, rfl, hc, hv⟩ := word?_eq_some h
  simp only [isIdentifier, Bool.and_eq_true, List.all_eq_true]
  exact ⟨hc, hv⟩

theorem stack?_append (h : isStack w = true) (hstop : ∀ d ∈ rest.head?, Lexeme.isNameChar d = false) :
    stack? (w ++ rest) = some (w, rest) := by
  cases w with
  | nil =>
    rw [List.nil_append, stack?.eq_2]
    rintro cs rfl
    exact absurd (hstop '.' rfl) (by decide)
  | cons c w =>
    simp only [isStack, Bool.and_eq_true, beq_iff_eq] at h
    obtain ⟨rfl, hw⟩ := h
    cases w with
    | nil => cases hw
    | cons d w =>
      simp only [Lexeme.isName, Bool.and_eq_true, List.all_eq_true] at hw
      have hword : word? Text.isAsciiLetter Lexeme.isNameChar (d :: w ++ rest) = some (d :: w, rest) :=
        word?_append hw.1 hw.2 hstop
      rw [List.cons_append, stack?, hword]
      rfl

theorem isStack_of_stack? (h : stack? cs = some (w, rest)) : isStack w = true := by
  unfold stack? at h
  split at h
  · obtain ⟨⟨v, _⟩, hv, he⟩ := Option.map_eq_some_iff.mp h
    cases he
    obtain ⟨c, v, rfl, hc, hv⟩ := word?_eq_some hv
    simp only [isStack, Lexeme.isName, Lexeme.isNameStart, hc, beq_self_eq_true, Bool.true_and,
      List.all_eq_true]
    exact hv
  · cases h; rfl

theorem number?_append {n : Nat} (hstop : ∀ d ∈ rest.head?, Text.isAsciiDigit d = false) :
    number? (Nat.toDigits 10 n ++ rest) = some (Nat.toDigits 10 n, rest) := by
  cases hd : Nat.toDigits 10 n with
  | nil => exact absurd hd Nat.toDigits_ne_nil
  | cons c ds =>
    have hdigit : ∀ d ∈ c :: ds, Text.isAsciiDigit d = true := fun d h =>
      Number.isAsciiDigit_of_mem_toDigits (hd ▸ h)
    by_cases hc : c = '0'
    · subst hc
      rw [(Number.toDigits_zero_cons hd).2]
      rfl
    · rw [List.cons_append, number?.eq_2 _ (by simpa using hc)]
      exact word?_append (hdigit c (by simp)) (fun d h => hdigit d (by simp [h])) hstop

theorem dropGap?_space (h : ∀ d ∈ cs.head?, isGap d = false) : dropGap? (' ' :: cs) = some cs := by
  simpa [dropGap?, isGap] using dropWhile_eq_self h

theorem code?_append {c : Char} (hc : isGap c = false) (hn : c ≠ '\n')
    (h : ∀ d ∈ cs.head?, isGap d = false) : code? (' ' :: c :: ' ' :: cs) = some (c, cs) := by
  have hgap : isGap ' ' = true := by decide
  simp [code?, codeAfter?, hgap, hc, hn, dropWhile_eq_self h, List.range_succ]

end

/-! ## Reading headers -/

theorem isGap_iff {c : Char} : isGap c = true ↔ c = ' ' ∨ c = '\t' := by
  simp [isGap]

theorem isGap_of_isAsciiLetter {c : Char} (h : Text.isAsciiLetter c = true) : isGap c = false := by
  rw [← Bool.not_eq_true, isGap_iff]
  rintro (rfl | rfl) <;> exact absurd h (by decide)

theorem isGap_of_isAsciiDigit {c : Char} (h : Text.isAsciiDigit c = true) : isGap c = false := by
  rw [← Bool.not_eq_true, isGap_iff]
  rintro (rfl | rfl) <;> exact absurd h (by decide)

theorem program_append {program : List Char} (h : program = [] ∨ isIdentifier program = true)
    (rest : List Char) :
    (identifier? (program ++ '.' :: rest)).getD ([], program ++ '.' :: rest) =
      (program, '.' :: rest) := by
  rcases h with rfl | h
  · rfl
  · rw [identifier?_append h (by simp; decide)]
    rfl

theorem parts?_append {program user stack actor body : List Char} {c : Char} (n : Nat)
    (hprogram : program = [] ∨ isIdentifier program = true) (huser : isIdentifier user = true)
    (hstack : isStack stack = true) (hactor : isIdentifier actor = true)
    (hc : isGap c = false) (hn : c ≠ '\n') (hbody : ∀ d ∈ body.head?, isGap d = false) :
    parts? (program ++ '.' :: (user ++ (stack ++ ' ' :: (Nat.toDigits 10 n ++
      ' ' :: (actor ++ ' ' :: c :: ' ' :: body))))) =
      some ⟨program, user, stack, Nat.toDigits 10 n, actor, c, body⟩ := by
  have huserStop : ∀ rest, ∀ d ∈ (stack ++ ' ' :: rest).head?, isIdentifierChar d = false := by
    cases stack with
    | nil => intro rest d hd; cases hd; decide
    | cons e stack =>
      simp only [isStack, Bool.and_eq_true, beq_iff_eq] at hstack
      intro rest d hd; cases hd; rw [hstack.1]; decide
  have hdigits : ∀ rest, ∀ d ∈ (Nat.toDigits 10 n ++ rest).head?, isGap d = false := by
    intro rest d hd
    cases hds : Nat.toDigits 10 n with
    | nil => exact absurd hds Nat.toDigits_ne_nil
    | cons e ds =>
      rw [hds] at hd
      cases hd
      have : d ∈ Nat.toDigits 10 n := by rw [hds]; exact List.mem_cons_self
      exact isGap_of_isAsciiDigit (Number.isAsciiDigit_of_mem_toDigits this)
  have hactorGap : ∀ rest, ∀ d ∈ (actor ++ rest).head?, isGap d = false := by
    cases actor with
    | nil => cases hactor
    | cons e actor =>
      simp only [isIdentifier, Bool.and_eq_true] at hactor
      intro rest d hd; cases hd; exact isGap_of_isAsciiLetter hactor.1
  unfold parts?
  rw [program_append hprogram]
  simp only [Option.bind_eq_bind, Option.bind_some]
  rw [identifier?_append huser (huserStop _), Option.bind_some, stack?_append hstack (by simp; decide),
    Option.bind_some, dropGap?_space (hdigits _), Option.bind_some, number?_append (by simp; decide),
    Option.bind_some, dropGap?_space (hactorGap _), Option.bind_some,
    identifier?_append hactor (by simp; decide), Option.bind_some, code?_append hc hn hbody]
  rfl

theorem read_code (c : MessageCode) : MessageCode.read (String.singleton c.char) = .ok c := by
  cases c <;> rfl

theorem code_char (c : MessageCode) : isGap c.char = false ∧ c.char ≠ '\n' := by
  cases c <;> decide

theorem canonical_append (h : ReplyHeader) (body : String) : (h.canonical ++ " " ++ body).toList =
    h.program.toList ++ '.' :: (h.user.toList ++ (h.actorStack.toList ++ ' ' ::
      (Nat.toDigits 10 h.commandId ++ ' ' :: (h.actor.toList ++ ' ' :: h.code.char :: ' ' ::
        body.toList)))) := by
  simp [canonical, commander, MessageCode.text, String.toList_append]

theorem read_canonical {h : ReplyHeader} (hg : h.Grammatical) {body : String}
    (hbody : ∀ d ∈ body.toList.head?, isGap d = false) :
    read (h.canonical ++ " " ++ body) = .ok (h, body) := by
  have hcode := code_char h.code
  have hparts := parts?_append h.commandId (hg.program.imp (by simp) id) hg.user hg.actorStack
    hg.actor hcode.1 hcode.2 hbody
  rw [← canonical_append] at hparts
  have hid : (Number.readDigits? 10 (Nat.toDigits 10 h.commandId)).filter (· < idBound) =
      some h.commandId := by
    rw [Number.readDigits?_toDigits, Option.filter_some_pos (by simpa using hg.commandId)]
  simp only [read, hparts, hid, read_code]
  simp only [String.ofList_toList]
  rfl

theorem parts?_shapes {cs : List Char} {p : Parts} (h : parts? cs = some p) :
    (p.program = [] ∨ isIdentifier p.program = true) ∧ isIdentifier p.user = true ∧
      isStack p.stack = true ∧ isIdentifier p.actor = true := by
  have hprogram : ((identifier? cs).getD ([], cs)).1 = [] ∨
      isIdentifier ((identifier? cs).getD ([], cs)).1 = true := by
    cases hi : identifier? cs with
    | none => exact .inl rfl
    | some r => exact .inr (isIdentifier_of_identifier? hi)
  unfold parts? at h
  simp only [Option.bind_eq_bind] at h
  split at h
  · simp only [Option.bind_some, Option.bind_eq_some_iff, Prod.exists] at h
    obtain ⟨user, _, huser, stack, _, hstack, _, -, _, _, -, _, -, actor, _, hactor, _, _, -, he⟩ := h
    cases he
    exact ⟨hprogram, isIdentifier_of_identifier? huser, isStack_of_stack? hstack,
      isIdentifier_of_identifier? hactor⟩
  · cases h

theorem grammatical_of_read {h : ReplyHeader} {line body : String} (hr : read line = .ok (h, body)) :
    h.Grammatical := by
  unfold read at hr
  cases hp : parts? line.toList with
  | none => simp only [hp] at hr; cases hr
  | some p =>
    simp only [hp] at hr
    cases hid : (Number.readDigits? 10 p.commandId).filter (· < idBound) with
    | none => simp only [hid] at hr; cases hr
    | some id =>
      simp only [hid] at hr
      cases hc : MessageCode.read (String.singleton p.code) with
      | error e => rw [hc] at hr; cases hr
      | ok code =>
        rw [hc] at hr
        cases hr
        obtain ⟨h1, h2, h3, h4⟩ := parts?_shapes hp
        refine ⟨?_, ?_, ?_, ?_, ?_⟩
        · exact h1.imp (fun e => by rw [e]) (by simp)
        · simpa using h2
        · simpa using h3
        · simpa using (Option.filter_eq_some_iff.mp hid).2
        · simpa using h4

end ActorHub.ReplyHeader
