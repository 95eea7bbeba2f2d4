import ActorHub.Text.Blank
import ActorHub.Token.Escape
import ActorHub.Value.Typed

/-!
# Values

The values of a command or keyword: a text as it was written, or what a declared type made of it.
In canonical form a value stands in quotes when its bare text could be read as something else.
-/

namespace ActorHub

inductive Value where
  | raw (text : String)
  | typed (value : TypedValue)
deriving Repr

namespace Value

def display : Value → String
  | raw text => text
  | typed value => value.display

def raw? : Value → Option String
  | raw text => some text
  | typed _ => none

def typed? : Value → Option TypedValue
  | raw _ => none
  | typed value => some value

/-- Characters that may stand in an unquoted value. -/
def isBareChar (c : Char) : Bool :=
  c != '"' && c != '\'' && c != '=' && c != ',' && c != ';' && !Text.isBlank c

/-- Whether a text may stand unquoted beside other values. -/
def isBare (cs : List Char) : Bool :=
  !cs.isEmpty && cs.all isBareChar

def quotedForm (cs : List Char) : List Char :=
  '"' :: (Quoted.escapeQuotes (Quoted.unescapeChars cs) ++ ['"'])

/-- A value among others. -/
def canonicalForm (v : Value) : String :=
  if isBare v.display.toList then v.display else String.ofList (quotedForm v.display.toList)

/-- A value on its own, which is quoted lest it be taken for the name of a keyword. -/
def loneForm (v : Value) : String :=
  String.ofList (quotedForm v.display.toList)

end Value

/-- The values of a command or keyword, in order. -/
abbrev Values := List Value

namespace Values

def canonical : Values → String
  | [v] => v.loneForm
  | vs => ",".intercalate (vs.map Value.canonicalForm)

/-- The shape of the values: their number. -/
def tokenized (vs : Values) : String :=
  ",".intercalate (vs.map fun _ => "123")

/-- The typed values, if all values are typed. -/
def typed? (vs : Values) : Option (List TypedValue) :=
  vs.mapM Value.typed?

end Values

end ActorHub
