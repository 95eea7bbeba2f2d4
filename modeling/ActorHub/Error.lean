import ActorHub.Config
import ActorHub.Job.Error
import ActorHub.Line
import ActorHub.Number.Error

/-!
# Errors

Whatever can go wrong, in one type. An error has a text for people, which says which part it comes
from, and a kind by which programs can tell errors apart.
-/

namespace ActorHub

inductive HubError where
  | lexical (e : LexError)
  | parse (e : Failure)
  | line (e : LineError)
  | message (e : MessageError)
  | valueType (e : ValueTypeError)
  | value (e : ValueError)
  | dictionary (e : DictionaryError)
  | job (e : JobError)
  | config (e : ConfigError)

/-! ## Kinds -/

def Failure.kind : Failure → String
  | unexpected _ => "Parse.Unexpected"
  | endOfInput => "Parse.UnexpectedEOF"
  | noAlternative => "Parse.NoAlternative"
  | refused _ => "Parse.Fail"
  | inContext .. => "Parse.WithContext"

def MessageError.kind : MessageError → String
  | reservedKeyword _ => "Message.ReservedKeyword"
  | dottedVerb _ => "Message.DottedVerb"
  | rawVerb _ => "Message.RawVerb"
  | invalidCode _ => "Message.InvalidCode"

def LineError.kind : LineError → String
  | lexical _ => "Grammar.Lexical"
  | unexpectedToken .. => "Grammar.UnexpectedToken"
  | unexpectedEnd => "Grammar.UnexpectedEnd"
  | badHeader _ => "Grammar.BadHeader"
  | badCommandHeader _ => "Grammar.BadCommandHeader"
  | message e => "Grammar." ++ e.kind

def ValueTypeError.kind : ValueTypeError → String
  | invalidName _ => "Type.InvalidName"
  | circularFormat _ => "Type.CircularFormat"
  | unsupportedFormat _ => "Type.UnsupportedFormat"
  | missingLabels => "Type.MissingLabels"
  | invalidMetadata .. => "Type.InvalidMetadata"
  | labelHelpCount => "Type.LabelHelpCount"
  | missingBitfields => "Type.MissingBitfields"
  | invalidBitfieldSpec _ => "Type.InvalidBitfieldSpec"
  | nativeBitfield => "Type.NativeBitfield"
  | bitfieldTooWide => "Type.BitfieldTooWide"
  | repeatRange => "Type.RepeatRange"

/-- All texts that are no value of their type are of one kind. -/
def ValueError.kind : ValueError → String
  | invalid => "Value.Invalid"
  | overflow .. => "Value.Overflow"
  | noSuchField _ => "Value.NoSuchField"
  | malformed .. | unknownLabel _ | indexOutOfRange _ | notEnumeration _ | notBool _ => "Value.Value"

def DictionaryError.kind : DictionaryError → String
  | repetitionRange => "Dictionary.RepetitionRange"
  | notUnique _ => "Dictionary.NotUnique"
  | unresolved _ => "Dictionary.Unresolved"
  | valueMismatch .. => "Dictionary.ValueMismatch"
  | invalidName _ => "Dictionary.InvalidName"
  | noSuchKey _ => "Dictionary.NoSuchKey"
  | notFound .. | notReadable .. => "Dictionary.NotFound"
  | nameMismatch .. => "Dictionary.NameMismatch"
  | unreadable _ => "Dictionary.BadFormat.Json"
  | badFormat .. => "Dictionary.BadFormat"
  | namelessReference | memberlessGroup | groupMember _ | repeatedKind _ => "Dictionary.Definition"
  | type e => "Dictionary." ++ e.kind
  | message e => "Dictionary." ++ e.kind

def JobError.kind : JobError → String
  | alreadyDone .. => "Command.AlreadyDone"
  | invalidStatus _ => "Command.InvalidStatus"
  | noWriter => "Command.NoWriter"
  | writer _ => "Command.Writer"
  | noClock _ => "Command.NoRuntime"
  | message e => "Command." ++ e.kind

def ConfigError.kind : ConfigError → String
  | unreadableFile => "Config.Io"
  | malformed => "Config.Format"

namespace HubError

def kind : HubError → String
  | lexical _ => "Tokenizer.ParseError"
  | parse e => e.kind
  | line e => e.kind
  | message e => e.kind
  | valueType e => e.kind
  | value e => e.kind
  | dictionary e => e.kind
  | job e => e.kind
  | config e => e.kind

/-! ## Texts -/

/-- The part that an error comes from. -/
def origin : HubError → String
  | lexical _ => "Tokenizer error: "
  | parse _ => "Parse error: "
  | line _ => "Grammar error: "
  | message _ => "Message error: "
  | valueType _ => "Value type error: "
  | value _ => "Value error: "
  | dictionary _ => "Dictionary error: "
  | job _ => "Command error: "
  | config _ => "Config error: "

/-- The text of the part itself. What is wrong with the form of a document is not told. -/
def cause? : HubError → Option String
  | lexical e => some e.text
  | parse e => some e.text
  | line e => some e.text
  | message e => some e.text
  | valueType e => some e.text
  | value e => some e.text
  | dictionary (.unreadable _) => none
  | dictionary e => some e.text
  | job e => some e.text
  | config _ => none

def text? (e : HubError) : Option String :=
  e.cause?.map (e.origin ++ ·)

end HubError

end ActorHub
