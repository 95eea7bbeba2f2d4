/-!
# Malformed type declarations

Raised only while types are declared.
-/

namespace ActorHub

inductive ValueTypeError where
  | invalidName (name : String)
  /-- The metadata field whose format would show the value through itself. -/
  | circularFormat (field : String)
  | unsupportedFormat (source : String)
  | missingLabels
  | invalidMetadata (key typeName : String)
  | labelHelpCount
  | missingBitfields
  | invalidBitfieldSpec (spec : String)
  | nativeBitfield
  | bitfieldTooWide
  | repeatRange
deriving DecidableEq, Repr

namespace ValueTypeError

def text : ValueTypeError → String
  | invalidName name => "invalid type name: " ++ name
  | circularFormat field => field ++ " cannot contain %r or %s"
  | unsupportedFormat source => "unsupported format string: " ++ source
  | missingLabels => "missing enum labels in ctor"
  | invalidMetadata key typeName => "invalid metadata key \"" ++ key ++ "\" for " ++ typeName
  | labelHelpCount => "wrong number of enum label help strings provided"
  | missingBitfields => "missing bitfield specs in ctor"
  | invalidBitfieldSpec spec => "invalid bitfield spec: " ++ spec
  | nativeBitfield => "'native' is not an allowed bitfield name"
  | bitfieldTooWide => "total bitfield length > 32"
  | repeatRange => "Expected min <= max for RepeatedValueType"

end ValueTypeError

end ActorHub
