import ActorHub.Parser
import ActorHub.Token

/-!
# Clauses

The grammar of command and reply bodies over tokens. A reply body is a list of keyword clauses
separated by semicolons. A command is a verb, values that cannot be mistaken for a keyword, and
keyword clauses; its alternatives are tried in order and each has to account for every token.
-/

namespace ActorHub

/-- A keyword as it stands in a line, before its name is checked. -/
inductive KeywordClause where
  | raw (line : String)
  | named (name : String) (values : List String)
deriving DecidableEq, Repr

structure CommandClause where
  verb : String
  values : List String
  keywords : List KeywordClause
deriving DecidableEq, Repr

namespace Clause

open ActorHub.Parser

/-! ## Tokens -/

def name : Parser Token String :=
  inContext "name" <| satisfy fun
    | .name s => some s
    | _ => none

def bareValue : Parser Token String :=
  satisfy fun
    | .value s => some s
    | _ => none

def quoted : Parser Token String :=
  satisfy fun
    | .quoted s => some s
    | _ => none

/-- A name, a bare value or a quoted string. -/
def value : Parser Token String :=
  inContext "value" <| satisfy fun
    | .name s | .value s | .quoted s => some s
    | _ => none

def equals : Parser Token Unit :=
  asUnit (equal (.delimiter .equals))

def comma : Parser Token Unit :=
  asUnit (equal (.delimiter .comma))

def semicolon : Parser Token Unit :=
  asUnit (equal (.delimiter .semicolon))

def raw : Parser Token Unit :=
  satisfy fun
    | .raw _ => some ()
    | _ => none

def line : Parser Token String :=
  satisfy fun
    | .line s => some s
    | _ => none

/-! ## Keywords -/

/-- Further values, each behind a comma. -/
def moreValues : Parser Token (List String) :=
  many (preceded comma value)

/-- An equals sign and one value or more. -/
def values : Parser Token (List String) :=
  inContext "values" <|
    preceded equals (map (fun (first, rest) => first :: rest) (tuple2 value moreValues))

def keyword : Parser Token KeywordClause :=
  inContext "keyword" <| choice [
    map (fun (_, line) => .raw line) (tuple2 raw line),
    map (fun (name, values) => .named name values) (tuple2 name values),
    map (fun name => .named name []) name]

def keywords : Parser Token (List KeywordClause) :=
  many keyword

/-- The keywords of a reply, possibly none. -/
def replyBody : Parser Token (List KeywordClause) :=
  inContext "reply" <| allConsuming <| sepBy keyword semicolon

/-! ## Commands -/

/-- A verb and values of which the first cannot be the name of a keyword. -/
def verbWithValues : Parser Token (String × List String) :=
  let head := choice [
    map (fun (verb, first, _, second) => (verb, [first, second])) (tuple4 name name comma name),
    map (fun (verb, value) => (verb, [value])) (tuple2 name bareValue),
    map (fun (verb, value) => (verb, [value])) (tuple2 name quoted)]
  map (fun ((verb, values), more) => (verb, values ++ more)) (tuple2 head moreValues)

def command : Parser Token CommandClause :=
  inContext "command" <| choice [
    allConsuming <| map (fun ((verb, values), keywords) => ⟨verb, values, keywords⟩)
      (tuple2 verbWithValues keywords),
    allConsuming <| map (fun (verb, name, values, rest) => ⟨verb, [], .named name values :: rest⟩)
      (tuple4 name name values keywords),
    allConsuming <| map (fun (verb, _, line) => ⟨verb, [], [.raw line]⟩)
      (tuple3 name raw line),
    allConsuming <| map (fun (verb, name, rest) => ⟨verb, [], .named name [] :: rest⟩)
      (tuple3 name name keywords),
    allConsuming <| map (fun verb => ⟨verb, [], []⟩) name]

end Clause

end ActorHub
