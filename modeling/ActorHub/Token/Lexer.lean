import ActorHub.Text.Blank
import ActorHub.Text.Case
import ActorHub.Token
import ActorHub.Token.Escape

/-!
# Lexer

Lines are cut into tokens from left to right. Each rule takes the longest lexeme of its class at
the front of the text and says which characters it took; the rules start with different
characters, so at most one applies. Commands and replies share the rules, but only commands know
the word `raw` and only replies the semicolon.
-/

namespace ActorHub

/-- The grammar a line is read for. -/
inductive LexMode where
  | reply
  | command
deriving DecidableEq, Repr

/-- A token with the characters it was written with. -/
structure Lexeme where
  token : Token
  written : List Char

namespace Lexeme

/-! ## Rules -/

def isWordChar (c : Char) : Bool :=
  c != '"' && c != '\'' && c != '=' && c != ',' && c != ';' && !Text.isBlank c

def isNameStart (c : Char) : Bool :=
  Text.isAsciiLetter c

def isNameChar (c : Char) : Bool :=
  Text.isAsciiLetter c || Text.isAsciiDigit c || c = '_' || c = '.'

/-- An ASCII letter, then letters, digits, underscores and dots. -/
def isName : List Char → Bool
  | [] => false
  | c :: rest => isNameStart c && rest.all isNameChar

/-- A run of spaces and tabs. -/
def whitespace? (cs : List Char) : Option Lexeme :=
  match cs.takeWhile (fun c => c = ' ' || c = '\t') with
  | [] => none
  | run => some ⟨.whitespace (String.ofList run), run⟩

/-- A string between two equal quotes. -/
def quoted? : List Char → Option Lexeme
  | [] => none
  | q :: rest =>
    if Quoted.isQuote q then
      (Quoted.close q rest).map fun (body, _) => ⟨.quoted (String.ofList body), q :: (body ++ [q])⟩
    else none

def delimiter? : List Char → Option Lexeme
  | [] => none
  | c :: _ => (Delimiter.ofChar? c).map fun d => ⟨.delimiter d, [c]⟩

def wordToken (word : List Char) : Token :=
  if isName word then .name (String.ofList word) else .value (String.ofList word)

/-- A run of word characters, which is a name when it is shaped like one. -/
def word? (cs : List Char) : Option Lexeme :=
  match cs.takeWhile isWordChar with
  | [] => none
  | word => some ⟨wordToken word, word⟩

/-- Splits at the end of the line. A carriage return counts as its end only before a newline, and
makes the text unreadable anywhere else. -/
def lineText : List Char → Option (List Char)
  | [] => some []
  | c :: rest =>
    if c = '\n' then some []
    else if c = '\r' then (if rest.head? = some '\n' then some [] else none)
    else (lineText rest).map (c :: ·)

/-- An equals sign, possibly behind white space, and the rest of the line. -/
def rawLine? (cs : List Char) : Option Lexeme :=
  match Text.dropBlanks cs with
  | '=' :: rest =>
    (lineText rest).map fun text =>
      ⟨.line (String.ofList text), cs.takeWhile Text.isBlank ++ '=' :: text⟩
  | _ => none

/-! ## Tokens of a line -/

/-- What a mode makes of a token of the shared rules; `none` where it does not admit the token. -/
def classify (mode : LexMode) (t : Token) : Option Token :=
  match mode, t with
  | .command, .name word => some (if Text.sameName word "raw" then .raw word else .name word)
  | .command, .delimiter .semicolon => none
  | _, t => some t

/-- The lexeme of the shared rules at the front of the text. -/
def shared? (cs : List Char) : Option Lexeme :=
  (whitespace? cs).or ((quoted? cs).or ((delimiter? cs).or (word? cs)))

/-- The token at the front of the text. Behind the word `raw` only the rest of the line will do. -/
def next? (mode : LexMode) (afterRaw : Bool) (cs : List Char) : Option Lexeme :=
  (if afterRaw then rawLine? cs else shared? cs).bind fun lexeme =>
    (classify mode lexeme.token).map fun token => ⟨token, lexeme.written⟩

theorem length_lineText_le {cs text : List Char} (h : lineText cs = some text) :
    text.length ≤ cs.length := by
  induction cs generalizing text with
  | nil => simp_all [lineText]
  | cons c rest ih =>
    simp only [lineText] at h
    split at h
    · simp_all
    · split at h
      · split at h <;> simp_all
      · obtain ⟨t, ht, rfl⟩ := Option.map_eq_some_iff.1 h
        simpa using ih ht

theorem whitespace?_written {cs : List Char} {l : Lexeme} (h : whitespace? cs = some l) :
    l.written ≠ [] ∧ l.written.length ≤ cs.length := by
  unfold whitespace? at h
  split at h
  · simp at h
  · rename_i run hne
    simp only [Option.some.injEq] at h
    subst h
    exact ⟨fun e => hne e, (List.takeWhile_prefix _).length_le⟩

theorem quoted?_written {cs : List Char} {l : Lexeme} (h : quoted? cs = some l) :
    l.written ≠ [] ∧ l.written.length ≤ cs.length := by
  cases cs with
  | nil => simp [quoted?] at h
  | cons q rest =>
    simp only [quoted?] at h
    split at h
    · obtain ⟨⟨body, tail⟩, hc, rfl⟩ := Option.map_eq_some_iff.1 h
      have := Quoted.close_eq_append hc
      subst this
      simp
    · simp at h

theorem delimiter?_written {cs : List Char} {l : Lexeme} (h : delimiter? cs = some l) :
    l.written ≠ [] ∧ l.written.length ≤ cs.length := by
  cases cs with
  | nil => simp [delimiter?] at h
  | cons c rest =>
    obtain ⟨d, _, rfl⟩ := Option.map_eq_some_iff.1 h
    simp

theorem word?_written {cs : List Char} {l : Lexeme} (h : word? cs = some l) :
    l.written ≠ [] ∧ l.written.length ≤ cs.length := by
  unfold word? at h
  split at h
  · simp at h
  · rename_i run hne
    simp only [Option.some.injEq] at h
    subst h
    exact ⟨fun e => hne e, (List.takeWhile_prefix _).length_le⟩

theorem rawLine?_written {cs : List Char} {l : Lexeme} (h : rawLine? cs = some l) :
    l.written ≠ [] ∧ l.written.length ≤ cs.length := by
  unfold rawLine? at h
  split at h
  · rename_i rest hd
    obtain ⟨text, ht, rfl⟩ := Option.map_eq_some_iff.1 h
    have h1 := length_lineText_le ht
    have h2 : (cs.takeWhile Text.isBlank).length + (Text.dropBlanks cs).length = cs.length := by
      rw [← List.length_append]
      exact congrArg List.length (List.takeWhile_append_dropWhile ..)
    rw [hd] at h2
    simp only [List.length_cons] at h2
    refine ⟨by simp, ?_⟩
    simp only [List.length_append, List.length_cons]
    omega
  · simp at h

/-- Every token takes at least one character, and only characters that are there. -/
theorem next?_written {mode : LexMode} {afterRaw : Bool} {cs : List Char} {l : Lexeme}
    (h : next? mode afterRaw cs = some l) : l.written ≠ [] ∧ l.written.length ≤ cs.length := by
  obtain ⟨lexeme, hl, h⟩ := Option.bind_eq_some_iff.1 h
  obtain ⟨token, _, rfl⟩ := Option.map_eq_some_iff.1 h
  show lexeme.written ≠ [] ∧ lexeme.written.length ≤ cs.length
  split at hl
  · exact rawLine?_written hl
  · simp only [shared?, Option.or_eq_some_iff] at hl
    rcases hl with h | ⟨_, h | ⟨_, h | ⟨_, h⟩⟩⟩
    · exact whitespace?_written h
    · exact quoted?_written h
    · exact delimiter?_written h
    · exact word?_written h

end Lexeme

/-- A token and the bytes of the UTF-8 text that it covers. -/
structure Span where
  token : Token
  start : Nat
  stop : Nat

/-- How far the lexer came: the tokens read, the position behind them and the text not read. -/
structure Scan where
  spans : List Span
  position : Nat
  rest : List Char

def utf8Size : List Char → Nat
  | [] => 0
  | c :: rest => c.utf8Size + utf8Size rest

/-- Reads tokens as long as one applies. -/
def Scan.run (mode : LexMode) (afterRaw : Bool) (position : Nat) (cs : List Char) : Scan :=
  match _ : Lexeme.next? mode afterRaw cs with
  | none => ⟨[], position, cs⟩
  | some lexeme =>
    let stop := position + utf8Size lexeme.written
    let tail := Scan.run mode lexeme.token.isRaw stop (cs.drop lexeme.written.length)
    { tail with spans := ⟨lexeme.token, position, stop⟩ :: tail.spans }
termination_by cs.length
decreasing_by
  obtain ⟨h1, h2⟩ := Lexeme.next?_written ‹Lexeme.next? mode afterRaw cs = some _›
  have := List.length_pos_iff.mpr h1
  simp only [List.length_drop]
  omega

/-- No token applies at a point of the text. -/
structure LexError where
  /-- The next characters, twenty at most. -/
  found : String
  /-- The byte offset of the point. -/
  start : Nat
deriving DecidableEq, Repr

namespace LexError

def text (e : LexError) : String :=
  "Lexical analysis error at '" ++ e.found ++ "'"

/-- What every lexical error says of its cause. -/
def detail : String :=
  "no token matches"

/-- An error covers one byte. -/
def stop (e : LexError) : Nat :=
  e.start + 1

def span (e : LexError) : String :=
  "start: " ++ toString e.start ++ ", end: " ++ toString e.stop

/-- The number of characters an error quotes. -/
def foundLength : Nat := 20

end LexError

/-- The tokens of a text whose first byte has the given offset. -/
def tokenizeAt (mode : LexMode) (position : Nat) (text : String) : Except LexError (List Span) :=
  let scan := Scan.run mode false position text.toList
  if scan.rest = [] then .ok scan.spans
  else .error ⟨String.ofList (scan.rest.take LexError.foundLength), scan.position⟩

/-- The tokens of several texts in a row. Each begins where the one before ended, or failed. -/
def tokenizeEach (mode : LexMode) : Nat → List String → List (Except LexError (List Span))
  | _, [] => []
  | position, text :: rest =>
    tokenizeAt mode position text
      :: tokenizeEach mode (Scan.run mode false position text.toList).position rest

/-- The tokens that mean something. -/
def significantTokens (mode : LexMode) (text : String) : Except LexError (List Token) :=
  (tokenizeAt mode 0 text).map fun spans => (spans.map Span.token).filter (!·.isTrivia)

end ActorHub
