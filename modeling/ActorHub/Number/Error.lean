/-!
# Faults of values

Why a text is no value of a declared type.
-/

namespace ActorHub

inductive ValueError where
  /-- The text is the declared invalid sentinel. -/
  | invalid
  /-- The number is out of the range of the type. -/
  | overflow (typeName literal : String)
  /-- The text is no number of the kind. -/
  | malformed (kind literal : String)
  | unknownLabel (lowered : String)
  | indexOutOfRange (index : Nat)
  | notEnumeration (typeName : String)
  | notBool (text : String)
  | noSuchField (name : String)
deriving DecidableEq, Repr

namespace ValueError

def text : ValueError → String
  | invalid => "invalid value"
  | overflow typeName literal => "Invalid literal for " ++ typeName ++ ": '" ++ literal ++ "'"
  | malformed kind literal => "invalid literal for " ++ kind ++ ": '" ++ literal ++ "'"
  | unknownLabel lowered => "Invalid label for Enum: \"" ++ lowered ++ "\""
  | indexOutOfRange index => "Invalid index for Enum: " ++ toString index
  | notEnumeration typeName => typeName ++ " is not an enumeration"
  | notBool text => "Invalid Bool value: '" ++ text ++ "'"
  | noSuchField name => "no such bitfield \"" ++ name ++ "\""

end ValueError

end ActorHub
