/-!
# Malformed messages

Names and codes that a message may not carry.
-/

namespace ActorHub

inductive MessageError where
  | reservedKeyword (name : String)
  | dottedVerb (name : String)
  | rawVerb (name : String)
  | invalidCode (code : String)
deriving DecidableEq, Repr

namespace MessageError

def text : MessageError → String
  | reservedKeyword name => "keyword \"" ++ name ++ "\" is reserved"
  | dottedVerb name => "name '" ++ name ++ "' contains an illegal dot (.) character."
  | rawVerb name => "name cannot be \"" ++ name ++ "\""
  | invalidCode code => "Invalid reply header code: " ++ code

end MessageError

end ActorHub
