/-!
# Failures of parsers

A failure says where parsing stopped. Of two failures the one further into the input is kept,
where the end of the input lies behind every item and a failure without a place before all.
-/

namespace ActorHub

inductive Failure where
  | unexpected (position : Nat)
  | endOfInput
  | noAlternative
  | refused (message : String)
  | inContext (message : String) (inner : Failure)
deriving DecidableEq, Repr

/-- A place in the input. -/
inductive Place where
  | item (index : Nat)
  | inputEnd
deriving DecidableEq, Repr

/-- Whether the second place lies strictly behind the first. -/
def Place.before : Place → Place → Bool
  | item i, item j => i < j
  | item _, inputEnd => true
  | inputEnd, _ => false

namespace Failure

def place : Failure → Option Place
  | unexpected i => some (.item i)
  | endOfInput => some .inputEnd
  | noAlternative | refused _ => none
  | inContext _ inner => inner.place

/-- Whether the second failure got strictly further than the first. -/
def isBehind (a b : Failure) : Bool :=
  match a.place, b.place with
  | none, some _ => true
  | some p, some q => p.before q
  | _, none => false

/-- The failure that got further; the first of two that got equally far. -/
def furthest (a b : Failure) : Failure :=
  if a.isBehind b then b else a

/-- The failure without the contexts around it. -/
def root : Failure → Failure
  | inContext _ inner => inner.root
  | e => e

def text : Failure → String
  | unexpected i => "Unexpected token at " ++ toString i
  | endOfInput => "Unexpected EOF"
  | noAlternative => "No alternative"
  | refused m => "Fail: " ++ m
  | inContext m inner => "WithContext: " ++ m ++ ", " ++ inner.text

end Failure

end ActorHub
