/-!
# Tokens

The units of a command or reply line. A token keeps the text that was written, so the escapes of
a quoted string stand in its body until they are undone.
-/

namespace ActorHub

/-- The characters that stand for themselves between words. -/
inductive Delimiter where
  /-- Separates a keyword from its values. -/
  | equals
  /-- Separates values. -/
  | comma
  /-- Separates the keywords of a reply. -/
  | semicolon
deriving DecidableEq, Repr

namespace Delimiter

def char : Delimiter → Char
  | equals => '='
  | comma => ','
  | semicolon => ';'

def ofChar? : Char → Option Delimiter
  | '=' => some equals
  | ',' => some comma
  | ';' => some semicolon
  | _ => none

def text (d : Delimiter) : String :=
  String.singleton d.char

def ofText? (s : String) : Option Delimiter :=
  match s.toList with
  | [c] => ofChar? c
  | _ => none

end Delimiter

inductive Token where
  /-- A word shaped like an identifier, usable as a name or a value. -/
  | name (word : String)
  /-- Any other unquoted word. -/
  | value (word : String)
  /-- The text between quotes, with its escapes. -/
  | quoted (body : String)
  | delimiter (d : Delimiter)
  /-- The word `raw` of a command, as written. -/
  | raw (word : String)
  /-- Everything behind `raw =` up to the end of the line. -/
  | line (rest : String)
  | whitespace (run : String)
deriving DecidableEq, Repr

namespace Token

/-- The grammatical class, as named in error messages. -/
def kind : Token → String
  | name _ => "NAME_OR_VALUE"
  | value _ => "VALUE"
  | quoted _ => "QUOTED"
  | delimiter .equals => "EQUALS"
  | delimiter .comma => "COMMA"
  | delimiter .semicolon => "SEMICOLON"
  | raw _ => "RAW"
  | line _ => "LINE"
  | whitespace _ => "WHITESPACE"

def text : Token → String
  | name s | value s | quoted s | raw s | line s | whitespace s => s
  | delimiter d => d.text

/-- White space separates tokens and means nothing itself. -/
def isTrivia : Token → Bool
  | whitespace _ => true
  | _ => false

def isRaw : Token → Bool
  | raw _ => true
  | _ => false

def display (t : Token) : String :=
  t.kind ++ "(" ++ t.text ++ ")"

end Token

end ActorHub
