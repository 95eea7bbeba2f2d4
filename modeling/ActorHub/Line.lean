import ActorHub.Clause
import ActorHub.Message.Command
import ActorHub.Message.Reply
import ActorHub.Text.Digit
import ActorHub.Token.Lexer

/-!
# Lines

Reading the lines of the protocol: a command body, a reply with its header, and a command line as
an actor receives it, with its optional commander and id.
-/

namespace ActorHub

/-- Why a line is not read. -/
inductive LineError where
  | lexical (e : LexError)
  | unexpectedToken (kind token line : String)
  | unexpectedEnd
  | badHeader (line : String)
  | badCommandHeader (line : String)
  | message (e : MessageError)
deriving DecidableEq, Repr

def LineError.text : LineError → String
  | lexical e => e.text
  | unexpectedToken kind token line =>
    "Unexpected " ++ kind ++ " parse token ('" ++ token ++ "') in:\n" ++ line
  | unexpectedEnd => "Unexpected end of input"
  | badHeader line => "Badly formed reply header in: " ++ line
  | badCommandHeader line => "Could not parse command '" ++ line ++ "'"
  | message e => e.text

namespace Line

/-- Drops one newline at the end. -/
def dropNewline (cs : List Char) : List Char :=
  if cs.getLast? = some '\n' then cs.dropLast else cs

def withoutNewline (line : String) : String :=
  String.ofList (dropNewline line.toList)

/-- The number of characters of a token that an error shows. -/
def shownLength : Nat := 20

/-- A failure of the grammar names the token at its place, or the end of the input. -/
def grammarError (tokens : List Token) (line : String) (e : Failure) : LineError :=
  let token? := match e.place with
    | some (.item i) => tokens[i]?
    | _ => none
  match token? with
  | some t => .unexpectedToken t.kind (String.ofList (t.text.toList.take shownLength)) line
  | none => .unexpectedEnd

/-- Applies a grammar to the tokens of a text that is part of the line. -/
def readBody {α : Type} (mode : LexMode) (p : Parser Token α) (body line : String) :
    Except LineError α := do
  let tokens ← (significantTokens mode body).mapError .lexical
  match p.run tokens 0 with
  | .ok (_, x) => return x
  | .error e => throw (grammarError tokens line e)

def buildKeyword : KeywordClause → Except LineError Keyword
  | .raw line => .ok (.raw line)
  | .named name values => (Keyword.make name (values.map .raw)).mapError .message

end Line

/-! ## Commands -/

/-- Reads the body of a command. -/
def Command.read (text : String) : Except LineError Command := do
  let line := Line.withoutNewline text
  let clause ← Line.readBody .command Clause.command line line
  let keywords ← clause.keywords.mapM Line.buildKeyword
  let command ← (Command.make clause.verb).mapError .message
  return { command with values := clause.values.map .raw, keywords, source := some line }

/-! ## Replies -/

namespace ReplyHeader

def isGap (c : Char) : Bool :=
  c = ' ' || c = '\t'

/-- Splits a word off whose first character satisfies one test and whose others another. -/
def word? (first rest : Char → Bool) : List Char → Option (List Char × List Char)
  | [] => none
  | c :: cs => if first c then some (c :: cs.takeWhile rest, cs.dropWhile rest) else none

def isIdentifierChar (c : Char) : Bool :=
  Text.isAsciiLetter c || Text.isAsciiDigit c || c = '_'

def identifier? (cs : List Char) : Option (List Char × List Char) :=
  word? Text.isAsciiLetter isIdentifierChar cs

/-- Drops a run of spaces and tabs that holds at least one. -/
def dropGap? : List Char → Option (List Char)
  | [] => none
  | c :: cs => if isGap c then some (cs.dropWhile isGap) else none

/-- Further components behind a dot, or nothing. -/
def stack? : List Char → Option (List Char × List Char)
  | '.' :: cs => (word? Text.isAsciiLetter Lexeme.isNameChar cs).map fun (w, r) => ('.' :: w, r)
  | cs => some ([], cs)

/-- Decimal digits without a leading zero. -/
def number? (cs : List Char) : Option (List Char × List Char) :=
  match cs with
  | '0' :: rest => some (['0'], rest)
  | cs => word? Text.isAsciiDigit Text.isAsciiDigit cs

/-- The code after a given number of gap characters, if it is followed by a gap or the end. -/
def codeAfter? (cs : List Char) (gap : Nat) : Option (Char × List Char) :=
  match cs.drop gap with
  | [] => none
  | c :: rest =>
    if c = '\n' then none
    else match rest with
      | [] => some (c, [])
      | d :: rest => if isGap d then some (c, rest.dropWhile isGap) else none

/-- A gap, the code, and a gap or the end. The gap is as long as the rest allows, so a gap
character is itself the code only where no other will do. -/
def code? (cs : List Char) : Option (Char × List Char) :=
  let gap := (cs.takeWhile isGap).length
  (List.range gap).findSome? fun i => codeAfter? cs (gap - i)

/-- The parts of a header, before its id and code are read. -/
structure Parts where
  program : List Char
  user : List Char
  stack : List Char
  commandId : List Char
  actor : List Char
  code : Char
  rest : List Char

def parts? (cs : List Char) : Option Parts := do
  let (program, cs) := (identifier? cs).getD ([], cs)
  let cs ← match cs with
    | '.' :: cs => some cs
    | _ => none
  let (user, cs) ← identifier? cs
  let (stack, cs) ← stack? cs
  let cs ← dropGap? cs
  let (commandId, cs) ← number? cs
  let cs ← dropGap? cs
  let (actor, cs) ← identifier? cs
  let (code, rest) ← code? cs
  return ⟨program, user, stack, commandId, actor, code, rest⟩

/-- Command ids lie below this bound. -/
def idBound : Nat := UInt64.size

/-- The header of a reply line, and the body behind it. -/
def read (line : String) : Except LineError (ReplyHeader × String) := do
  let some p := parts? line.toList | throw (.badHeader line)
  let some id := (Number.readDigits? 10 p.commandId).filter (· < idBound)
    | throw (.badHeader line)
  let code ← (MessageCode.read (String.singleton p.code)).mapError .message
  let header := ⟨String.ofList p.program, String.ofList p.user, String.ofList p.stack, id,
    String.ofList p.actor, code⟩
  return (header, String.ofList p.rest)

end ReplyHeader

/-- Reads a reply line, header included. -/
def Reply.read (text : String) : Except LineError Reply := do
  let line := Line.withoutNewline text
  let (header, body) ← ReplyHeader.read line
  let clauses ← Line.readBody .reply Clause.replyBody body line
  let keywords ← clauses.mapM Line.buildKeyword
  return ⟨header, keywords, some line⟩

/-! ## Command lines -/

/-- A command line as an actor receives it. -/
structure CommandLine where
  commander : Option String
  /-- Zero where the line names none. -/
  commandId : Nat
  body : String
deriving DecidableEq, Repr

namespace CommandLine

/-- ASCII letters, and the two other characters that are letters `s` and `k` ignoring case. -/
def isLetter (c : Char) : Bool :=
  Text.isAsciiLetter c || c.toNat = 0x17f || c.toNat = 0x212a

def isWordChar (c : Char) : Bool :=
  isLetter c || Text.isAsciiDigit c

/-- Drops a run of white space that holds at least one character. -/
def dropBlanks? : List Char → Option (List Char)
  | [] => none
  | c :: cs => if Text.isBlank c then some (Text.dropBlanks cs) else none

/-- A dotted name and white space behind it. -/
def commander? (cs : List Char) : Option (List Char × List Char) :=
  match cs.dropWhile isWordChar with
  | '.' :: rest =>
    let isTail (c : Char) := isWordChar c || c = '_' || c = '.'
    match rest.takeWhile isTail with
    | [] => none
    | tail =>
      (dropBlanks? (rest.dropWhile isTail)).map fun r =>
        (cs.takeWhile isWordChar ++ '.' :: tail, r)
  | _ => none

/-- Digits with white space behind them. -/
def number? (cs : List Char) : Option (List Char × List Char) :=
  match cs.takeWhile Text.isDecimalDigit with
  | [] => none
  | ds => (dropBlanks? (cs.dropWhile Text.isDecimalDigit)).map fun r => (ds, r)

/-- A body starts with a letter or underscore and ends with the line; it may be the word `--help`
or missing. -/
def body? (cs : List Char) : Option (List Char) :=
  match cs with
  | [] => some []
  | c :: _ =>
    if (isLetter c || c = '_') && !cs.contains '\n' then some cs
    else if Text.foldAscii (String.ofList cs) = "--help" then some cs
    else none

/-- The id, of which a second number may stand behind the first and is ignored, and the body. -/
def numbered? (cs : List Char) : Option (List Char × List Char) := do
  let (id, cs) ← number? cs
  let cs := match number? cs with
    | some (_, cs) => cs
    | none => cs
  return (id, ← body? cs)

/-- The digits of the id, if any, and the body. -/
def idAndBody? (cs : List Char) : Option (Option (List Char) × List Char) :=
  ((numbered? cs).map fun (id, body) => (some id, body)).or
    ((body? cs).map fun body => (none, body))

def parts? (cs : List Char) : Option (Option (List Char) × Option (List Char) × List Char) :=
  let withCommander := do
    let (commander, cs) ← commander? cs
    let (id, body) ← idAndBody? cs
    return (some commander, id, body)
  withCommander.or ((idAndBody? cs).map fun (id, body) => (none, id, body))

/-- Ids of commands lie below this bound. -/
def idBound : Nat := UInt32.size

/-- Splits a command line at its header. -/
def split (text : String) : Except LineError CommandLine := do
  let line := Line.withoutNewline text
  let some (commander, id, body) := parts? line.toList | throw (.badCommandHeader line)
  let id ← match id with
    | none => pure 0
    | some ds =>
      match (Number.readDigits? 10 ds).filter (· < idBound) with
      | some n => pure n
      | none => throw (.badCommandHeader line)
  return ⟨commander.map String.ofList, id, String.ofList (Text.trim body)⟩

end CommandLine

end ActorHub
