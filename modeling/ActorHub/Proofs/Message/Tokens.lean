import ActorHub.Message.Command
import ActorHub.Message.Reply
import ActorHub.Proofs.Token.Printed

/-!
# Canonical forms as tokens

The canonical form of a message is the spelling of its tokens. A value alone stands in quotes, and so
does one among others that is not bare. Printing normalizes the escapes of what stands in quotes, which
is harmless only where the normalized text is settled.
-/

namespace ActorHub

/-! ## Values -/

namespace Value

/-- Whether the value is printed in quotes, alone or among others. -/
def isQuoted (alone : Bool) (v : Value) : Bool :=
  alone || !isBare v.display.toList

def token (alone : Bool) (v : Value) : Token :=
  if v.isQuoted alone then
    .quoted (String.ofList (Quoted.escapeQuotes (Quoted.unescapeChars v.display.toList)))
  else Lexeme.wordToken v.display.toList

/-- Printing keeps the text: its escapes are settled where it stands in quotes, and it is not taken
for the word `raw` where it does not. -/
def Settled (mode : LexMode) (alone : Bool) (v : Value) : Prop :=
  if v.isQuoted alone then Quoted.isSettled (Quoted.unescapeChars v.display.toList) = true
  else mode = .command → Text.sameName v.display Keyword.reserved = false

theorem isBare_iff {cs : List Char} :
    isBare cs = true ↔ cs ≠ [] ∧ ∀ c ∈ cs, Lexeme.isWordChar c = true := by
  have : isBareChar = Lexeme.isWordChar := rfl
  simp [isBare, this]

theorem isBare_of_isName {cs : List Char} (h : Lexeme.isName cs = true) : isBare cs = true := by
  refine isBare_iff.mpr ⟨?_, fun c hc =>
    Lexeme.isWordChar_of_isNameChar (Lexeme.isNameChar_of_mem h c hc)⟩
  rintro rfl
  cases h

theorem isBare_of_not_isQuoted {alone : Bool} {v : Value} (h : ¬v.isQuoted alone = true) :
    isBare v.display.toList = true := by
  simp only [isQuoted, Bool.or_eq_true, Bool.not_eq_true', not_or, Bool.not_eq_false] at h
  exact h.2

theorem isRaw_token (alone : Bool) (v : Value) : (v.token alone).isRaw = false := by
  unfold token
  split
  · rfl
  · exact isRaw_wordToken _

theorem isTrivia_token (alone : Bool) (v : Value) : (v.token alone).isTrivia = false := by
  unfold token
  split
  · rfl
  · exact isTrivia_wordToken _

theorem isOperand_token (alone : Bool) {v : Value} (h : '\n' ∉ v.display.toList) :
    (v.token alone).IsOperand := by
  by_cases hq : v.isQuoted alone = true
  · rw [token, if_pos hq]
    exact .quoted (fun hm => h ((Quoted.mem_unescapeChars (by decide) _).mp hm))
  · rw [token, if_neg hq]
    have hbare := isBare_iff.mp (isBare_of_not_isQuoted hq)
    exact .word hbare.1 hbare.2

theorem spelling_token (v : Value) (alone : Bool) : (v.token alone).spelling =
    if v.isQuoted alone then quotedForm v.display.toList else v.display.toList := by
  unfold token
  split
  · simp [Token.spelling, quotedForm]
  · exact spelling_wordToken _

theorem isStable_token {mode : LexMode} {alone : Bool} {v : Value} :
    (v.token alone).IsStable mode ↔ v.Settled mode alone := by
  unfold token Settled
  split
  · constructor
    · intro he
      obtain ⟨w, hw, e⟩ := he
      rwa [Quoted.escapeQuotes_inj (String.ofList_inj.mp e)]
    · exact fun h => ⟨_, h, rfl⟩
  · unfold Lexeme.wordToken
    split
    · rw [String.ofList_toList]; rfl
    · rename_i hn
      refine iff_of_true trivial fun _ => ?_
      rw [← Bool.not_eq_true]
      exact fun h => hn ((Lexeme.isName_of_sameName h).trans (by decide))

end Value

namespace Values

def tokens (vs : Values) : List Token :=
  parted (.delimiter .comma) (vs.map fun v => [v.token (vs.length == 1)])

def Settled (mode : LexMode) (vs : Values) : Prop :=
  ∀ v ∈ vs, v.Settled mode (vs.length == 1)

theorem tokens_cons (v : Value) (vs : Values) : tokens (v :: vs) =
    v.token ((v :: vs).length == 1) ::
      vs.flatMap fun w => [.delimiter .comma, w.token ((v :: vs).length == 1)] := by
  simp [tokens, parted, List.flatMap_map]

theorem spell_tokens (vs : Values) : spell (tokens vs) = (canonical vs).toList := by
  have hform : ∀ v : Value, (v.token false).spelling = v.canonicalForm.toList := by
    intro v
    rw [v.spelling_token, Value.canonicalForm, Value.isQuoted, Bool.false_or]
    cases Value.isBare v.display.toList <;> simp
  match vs with
  | [] => rfl
  | [v] => simp [tokens, parted, spell, Value.spelling_token, Value.isQuoted, canonical, Value.loneForm]
  | v :: w :: vs =>
    have hmap : ((v :: w :: vs).map fun v => [v.token false]).map spell =
        ((v :: w :: vs).map Value.canonicalForm).map String.toList := by
      simp [spell, hform]
    have halone : ((v :: w :: vs).length == 1) = false := by simp
    rw [tokens, halone, spell_parted, hmap, canonical, String.toList_intercalate]
    · rfl
    · simp

theorem isRaw_tokens (vs : Values) : ∀ t ∈ tokens vs, t.isRaw = false := by
  intro t ht
  rcases mem_parted ht with rfl | ⟨piece, hp, ht⟩
  · rfl
  · obtain ⟨v, hv, rfl⟩ := List.mem_map.mp hp
    rw [List.mem_singleton] at ht
    rw [ht]
    exact v.isRaw_token _

theorem isTrivia_tokens (vs : Values) : ∀ t ∈ tokens vs, t.isTrivia = false := by
  intro t ht
  rcases mem_parted ht with rfl | ⟨piece, hp, ht⟩
  · rfl
  · obtain ⟨v, hv, rfl⟩ := List.mem_map.mp hp
    rw [List.mem_singleton] at ht
    rw [ht]
    exact v.isTrivia_token _

theorem keyed_tokens (vs : Values) : Keyed (tokens vs) := by
  refine keyed_of_forall fun t ht => ?_
  rcases mem_parted ht with rfl | ⟨piece, hp, ht⟩
  · simp
  · obtain ⟨v, hv, rfl⟩ := List.mem_map.mp hp
    rw [List.mem_singleton.mp ht, Value.token, Lexeme.wordToken]
    split
    · simp
    · split <;> simp

theorem printed_tokens {mode : LexMode} {vs : Values} (hne : vs ≠ [])
    (h : ∀ v ∈ vs, '\n' ∉ v.display.toList) : Printed mode (tokens vs) := by
  refine printed_parted (.delimiter (by simp)) (by simpa) ?_ ?_
  · intro piece hp
    obtain ⟨v, hv, rfl⟩ := List.mem_map.mp hp
    exact .operand (v.isOperand_token _ (h v hv))
  · intro piece hp
    obtain ⟨v, _, rfl⟩ := List.mem_map.mp (List.dropLast_subset _ hp)
    simpa using v.isRaw_token _

theorem isStable_tokens {mode : LexMode} {vs : Values} :
    (∀ t ∈ tokens vs, t.IsStable mode) ↔ Settled mode vs := by
  constructor
  · intro h v hv
    exact Value.isStable_token.mp (h _ (mem_parted_of_mem (List.mem_map_of_mem hv) (by simp)))
  · intro h t ht
    rcases mem_parted ht with rfl | ⟨piece, hp, ht⟩
    · trivial
    · obtain ⟨v, hv, rfl⟩ := List.mem_map.mp hp
      rw [List.mem_singleton] at ht
      rw [ht]
      exact Value.isStable_token.mpr (h v hv)

end Values

/-! ## Keywords -/

namespace Keyword

def tokens (k : Keyword) : List Token :=
  match k.kind, k.values with
  | .raw, _ => [.raw reserved, .line (k.rawLine?.getD "")]
  | .named name, [] => [.name (Text.lowercase name)]
  | .named name, values => .name (Text.lowercase name) :: .delimiter .equals :: Values.tokens values

/-- A keyword that can stand in a line of the mode: its name is a name and no value holds a newline,
or it is the raw line of a command. -/
def Grammatical (mode : LexMode) (k : Keyword) : Prop :=
  match k.kind with
  | .raw => mode = .command ∧
      ∃ text, k.values = [.raw text] ∧ Lexeme.lineText text.toList = some text.toList
  | .named name => Lexeme.isName name.toList = true ∧ Text.sameName name reserved = false ∧
      ∀ v ∈ k.values, '\n' ∉ v.display.toList

def Settled (mode : LexMode) (k : Keyword) : Prop :=
  match k.kind with
  | .raw => True
  | .named _ => Values.Settled mode k.values

section
variable {mode : LexMode} {k : Keyword}

theorem spell_tokens (k : Keyword) : spell k.tokens = k.canonical.toList := by
  obtain ⟨kind, values, matched⟩ := k
  cases kind with
  | raw => simp [tokens, canonical, spell, Token.spelling, reserved]
  | named name =>
    cases values with
    | nil => simp [tokens, canonical, spell, Token.spelling]
    | cons v vs =>
      have := Values.spell_tokens (v :: vs)
      simp only [tokens, canonical, spell_cons, this, Token.spelling, String.toList_append]
      simp [Delimiter.char]

theorem isOperand_name {n : String} (h : Lexeme.isName n.toList = true) : (Token.name n).IsOperand := by
  have hw := Value.isBare_iff.mp (Value.isBare_of_isName h)
  have := Token.IsOperand.word hw.1 hw.2
  rwa [Lexeme.wordToken, if_pos h, String.ofList_toList] at this

theorem printed_tokens (h : k.Grammatical mode) : Printed mode k.tokens := by
  obtain ⟨kind, values, matched⟩ := k
  cases kind with
  | raw =>
    obtain ⟨hm, text, rfl, ht⟩ := h
    exact .raw hm ht
  | named name =>
    obtain ⟨hn, -, hv⟩ := h
    have hname := isOperand_name (Lexeme.isName_lowercase hn)
    cases values with
    | nil => exact .operand hname
    | cons v vs => exact .cons hname (.delimiter (by simp)) (Values.printed_tokens (by simp) hv)

theorem keyed_tokens (h : k.Grammatical mode) : Keyed k.tokens := by
  have hprinted := printed_tokens h
  obtain ⟨kind, values, matched⟩ := k
  cases kind with
  | raw => exact keyed_of_forall (by simp [tokens])
  | named name =>
    obtain ⟨hn, hr, -⟩ := h
    cases values with
    | nil => exact .singleton _
    | cons v vs =>
      have hvalues := Values.keyed_tokens (v :: vs)
      have hname : Text.sameName (Text.lowercase name) "raw" = false := by
        rw [Lexeme.sameName_lowercase hn]
        exact hr
      refine List.isChain_cons.mpr ⟨fun u _ _ => ⟨_, rfl, hname⟩, List.isChain_cons.mpr ⟨?_, hvalues⟩⟩
      intro u hu e
      cases hprinted with
      | cons _ _ hts => exact absurd e (hts.head_ne_delimiter u hu _)

theorem isStable_tokens (h : k.Grammatical mode) :
    (∀ t ∈ k.tokens, t.IsStable mode) ↔ k.Settled mode := by
  obtain ⟨kind, values, matched⟩ := k
  cases kind with
  | raw => simp [tokens, Settled, Token.IsStable]
  | named name =>
    obtain ⟨hn, hr, hv⟩ := h
    have hname : (Token.name (Text.lowercase name)).IsStable mode := fun _ => by
      rw [Lexeme.sameName_lowercase hn]; exact hr
    cases values with
    | nil => simpa [tokens, Settled, Values.Settled] using hname
    | cons v vs =>
      rw [Settled, ← Values.isStable_tokens]
      simp only [tokens, List.mem_cons, forall_eq_or_imp]
      exact ⟨fun h => h.2.2, fun h => ⟨hname, trivial, h⟩⟩

theorem isTrivia_tokens (k : Keyword) : ∀ t ∈ k.tokens, t.isTrivia = false := by
  obtain ⟨kind, values, matched⟩ := k
  cases kind with
  | raw => simp [tokens, Token.isTrivia]
  | named name =>
    cases values with
    | nil => simp [tokens, Token.isTrivia]
    | cons v vs =>
      simp only [tokens, List.mem_cons, forall_eq_or_imp]
      exact ⟨rfl, rfl, Values.isTrivia_tokens _⟩

theorem isRaw_tokens (h : k.isRaw = false) : ∀ t ∈ k.tokens, t.isRaw = false := by
  obtain ⟨kind, values, matched⟩ := k
  cases kind with
  | raw => cases h
  | named name =>
    cases values with
    | nil => simp [tokens, Token.isRaw]
    | cons v vs =>
      simp only [tokens, List.mem_cons, forall_eq_or_imp]
      exact ⟨rfl, rfl, Values.isRaw_tokens _⟩

end

end Keyword

namespace Keywords

def tokens (sep : Token) (ks : Keywords) : List Token :=
  parted sep (ks.map Keyword.tokens)

/-- Keywords that can stand in a row: a raw line takes what follows it, so it has to be the last. -/
structure Grammatical (mode : LexMode) (ks : Keywords) : Prop where
  each : ∀ k ∈ ks, k.Grammatical mode
  rawLast : ∀ k ∈ ks.dropLast, k.isRaw = false

def Settled (mode : LexMode) (ks : Keywords) : Prop :=
  ∀ k ∈ ks, k.Settled mode

theorem spell_tokens {sep : Token} {separator : String} (h : sep.spelling = separator.toList)
    (ks : Keywords) : spell (tokens sep ks) = (canonical ks separator).toList := by
  rw [tokens, spell_parted, canonical, String.toList_intercalate, h]
  simp only [List.map_map]
  congr 1
  exact List.map_congr_left fun k _ => k.spell_tokens

end Keywords

/-! ## Commands -/

namespace Command

def pieces (c : Command) : List (List Token) :=
  [.name (Text.lowercase c.name)] :: ((if c.values.isEmpty then [] else [Values.tokens c.values]) ++
    c.keywords.map Keyword.tokens)

def tokens (c : Command) : List Token :=
  parted (.whitespace " ") c.pieces

structure Grammatical (c : Command) : Prop where
  name : Lexeme.isName c.name.toList = true
  undotted : '.' ∉ c.name.toList
  notRaw : Text.sameName c.name Keyword.reserved = false
  values : ∀ v ∈ c.values, '\n' ∉ v.display.toList
  keywords : Keywords.Grammatical .command c.keywords

theorem spell_tokens (c : Command) : spell c.tokens = c.canonical.toList := by
  have hspace : (Token.whitespace " ").spelling = " ".toList := rfl
  have hvalues : spell (parted (.whitespace " ") ([.name (Text.lowercase c.name)] ::
      (if c.values.isEmpty then [] else [Values.tokens c.values]))) =
      (Text.lowercase c.name ++
        (if c.values.isEmpty then "" else " " ++ Values.canonical c.values)).toList := by
    split
    · simp [parted, spell, Token.spelling]
    · simp only [parted, List.flatMap_cons, List.flatMap_nil, List.append_nil, spell_append,
        spell_cons, Values.spell_tokens, hspace, String.toList_append]
      simp [Token.spelling, spell]
  rw [tokens, pieces, canonical]
  cases hk : c.keywords with
  | nil => simpa using hvalues
  | cons k ks =>
    rw [parted_cons_append _ _ _ (by simp), spell_append, hvalues, spell_cons]
    have := Keywords.spell_tokens hspace (k :: ks)
    rw [Keywords.tokens] at this
    rw [this, hspace]
    simp [String.toList_append]

theorem isRaw_dropLast_pieces {c : Command} (h : c.Grammatical) :
    ∀ piece ∈ c.pieces.dropLast, ∀ t ∈ piece, t.isRaw = false := by
  intro piece hp
  have hp : piece = [.name (Text.lowercase c.name)] ∨
      piece ∈ (if c.values.isEmpty then [] else [Values.tokens c.values]) ∨
      piece ∈ (c.keywords.dropLast.map Keyword.tokens) := by
    rw [← List.mem_append, ← List.mem_cons]
    by_cases hk : c.keywords = []
    · have := List.dropLast_subset _ hp
      rw [pieces, hk] at this
      simpa [hk] using this
    · rwa [pieces, ← List.cons_append, List.dropLast_append_of_ne_nil (by simpa using hk),
        ← List.map_dropLast, List.cons_append] at hp
  rcases hp with rfl | hp | hp
  · simp [Token.isRaw]
  · split at hp
    · cases hp
    · rw [List.mem_singleton] at hp
      rw [hp]
      exact Values.isRaw_tokens _
  · obtain ⟨k, hk, rfl⟩ := List.mem_map.mp hp
    exact Keyword.isRaw_tokens (h.keywords.rawLast k hk)

theorem printed_pieces {c : Command} (h : c.Grammatical) :
    ∀ piece ∈ c.pieces, Printed .command piece := by
  intro piece hp
  simp only [pieces, List.mem_cons, List.mem_append, List.mem_map] at hp
  rcases hp with rfl | hp | ⟨k, hk, rfl⟩
  · exact .operand (Keyword.isOperand_name (Lexeme.isName_lowercase h.name))
  · split at hp
    · cases hp
    · rename_i hne
      rw [List.mem_singleton] at hp
      rw [hp]
      exact Values.printed_tokens (by simpa using hne) h.values
  · exact Keyword.printed_tokens (h.keywords.each k hk)

theorem printed_tokens {c : Command} (h : c.Grammatical) : Printed .command c.tokens :=
  printed_parted .space (by simp [pieces]) (printed_pieces h) (isRaw_dropLast_pieces h)

theorem keyed_tokens {c : Command} (h : c.Grammatical) : Keyed c.tokens := by
  refine keyed_parted (by simp) (printed_pieces h) fun piece hp => ?_
  simp only [pieces, List.mem_cons, List.mem_append, List.mem_map] at hp
  rcases hp with rfl | hp | ⟨k, hk, rfl⟩
  · exact .singleton _
  · split at hp
    · cases hp
    · rw [List.mem_singleton] at hp
      rw [hp]
      exact Values.keyed_tokens _
  · exact Keyword.keyed_tokens (h.keywords.each k hk)

/-- The first of several values is taken for a value: it is no bare name, or a bare name follows. -/
def Leads (vs : Values) : Prop :=
  ∀ v w more, vs = v :: w :: more → Lexeme.isName v.display.toList = true →
    Lexeme.isName w.display.toList = true

structure Settled (c : Command) : Prop where
  values : Values.Settled .command c.values
  leads : Leads c.values
  keywords : Keywords.Settled .command c.keywords

theorem isStable_tokens {c : Command} (h : c.Grammatical) : (∀ t ∈ c.tokens, t.IsStable .command) ↔
    Values.Settled .command c.values ∧ Keywords.Settled .command c.keywords := by
  constructor
  · intro hs
    have hpiece : ∀ piece ∈ c.pieces, ∀ t ∈ piece, t.IsStable .command :=
      fun piece hp t ht => hs t (mem_parted_of_mem hp ht)
    refine ⟨Values.isStable_tokens.mp ?_, fun k hk => ?_⟩
    · cases hv : c.values with
      | nil => simp [Values.tokens, parted]
      | cons v vs => exact hpiece _ (by simp [pieces, hv])
    · have hk' : k.tokens ∈ c.pieces := by
        simp only [pieces, List.mem_cons, List.mem_append, List.mem_map]
        exact .inr (.inr ⟨k, hk, rfl⟩)
      exact (Keyword.isStable_tokens (h.keywords.each k hk)).mp (hpiece _ hk')
  · rintro ⟨hv, hk⟩ t ht
    rcases mem_parted ht with rfl | ⟨piece, hp, ht⟩
    · trivial
    · simp only [pieces, List.mem_cons, List.mem_append, List.mem_map] at hp
      rcases hp with rfl | hp | ⟨k, hk', rfl⟩
      · rw [List.mem_singleton] at ht
        rw [ht]
        intro _
        rw [Lexeme.sameName_lowercase h.name]
        exact h.notRaw
      · split at hp
        · cases hp
        · rw [List.mem_singleton] at hp
          exact Values.isStable_tokens.mpr hv t (hp ▸ ht)
      · exact (Keyword.isStable_tokens (h.keywords.each k hk')).mpr (hk k hk') t ht

end Command

end ActorHub
