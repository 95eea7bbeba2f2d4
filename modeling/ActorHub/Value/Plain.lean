import ActorHub.Value.Typed

/-!
# Plain values

Typed values without their types, as an archive keeps them: numbers, texts and lists. What is not
a finite number is no number there.
-/

namespace ActorHub

inductive PlainValue where
  | null
  | bool (b : Bool)
  | int (n : Int)
  /-- A finite number. -/
  | float (x : Binary64)
  | text (s : String)
  | list (items : List PlainValue)
deriving Repr

namespace PlainValue

def ofBinary64 (x : Binary64) : PlainValue :=
  if x.isFinite then float x else null

mutual

def ofTyped : TypedValue → PlainValue
  | .float x | .double x => ofBinary64 x
  | .int n | .long n => int n
  | .uint w | .bits w => int w.toNat
  | .string s | .enum s _ => text s
  | .bool b _ => bool b
  | .compound values => list (ofEach values)
  | .pvt p => list [ofBinary64 p.position, ofBinary64 p.velocity, ofBinary64 p.time]
  | .invalid => null

def ofEach : List TypedValue → List PlainValue
  | [] => []
  | v :: rest => ofTyped v :: ofEach rest

end

end PlainValue

end ActorHub
