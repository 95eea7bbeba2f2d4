import ActorHub.Message.Error
import ActorHub.Value

/-!
# Keywords

A keyword is a name with values. The reserved keyword `raw` carries one unparsed line instead.
Every message has two derived forms: the canonical form is the same for equivalent messages, and
the tokenized form shows the shape alone.
-/

namespace ActorHub

/-- The reserved keyword, or one with a name of its own. -/
inductive KeywordKind where
  | raw
  | named (name : String)
deriving DecidableEq, Repr

structure Keyword where
  kind : KeywordKind
  values : Values
  /-- Set once a declared key has accepted and typed the values. -/
  matched : Bool
deriving Repr

namespace Keyword

/-- The reserved name. -/
def reserved : String := "raw"

/-- A keyword with a name of its own and values no key has seen. -/
def make (name : String) (values : Values) : Except MessageError Keyword :=
  if Text.sameName name reserved then .error (.reservedKeyword name)
  else .ok ⟨.named name, values, false⟩

def raw (line : String) : Keyword :=
  ⟨.raw, [.raw line], false⟩

def name (k : Keyword) : String :=
  match k.kind with
  | .raw => reserved
  | .named name => name

def isRaw (k : Keyword) : Bool :=
  k.kind == .raw

/-- The unparsed line of the reserved keyword, as long as no key has typed it. -/
def rawLine? (k : Keyword) : Option String :=
  match k.kind with
  | .raw => k.values.head?.bind Value.raw?
  | .named _ => none

def canonical (k : Keyword) : String :=
  match k.kind, k.values with
  | .raw, _ => "raw=" ++ k.rawLine?.getD ""
  | .named name, [] => Text.lowercase name
  | .named name, values => Text.lowercase name ++ "=" ++ Values.canonical values

def tokenized (k : Keyword) : String :=
  match k.kind, k.values with
  | .raw, _ => "RAW=LINE"
  | .named _, [] => "KEY"
  | .named _, values => "KEY=" ++ Values.tokenized values

/-- Equivalence of keywords. -/
def equals (a b : Keyword) : Bool :=
  a.canonical == b.canonical

end Keyword

/-- Keywords in order; a name may occur more than once. -/
abbrev Keywords := List Keyword

namespace Keywords

/-- The first keyword with a name, ignoring case. -/
def get? (ks : Keywords) (name : String) : Option Keyword :=
  ks.find? fun k => Text.sameName k.name name

def contains (ks : Keywords) (name : String) : Bool :=
  (get? ks name).isSome

def canonical (ks : Keywords) (separator : String) : String :=
  separator.intercalate (ks.map Keyword.canonical)

def tokenized (ks : Keywords) (separator : String) : String :=
  separator.intercalate (ks.map Keyword.tokenized)

end Keywords

end ActorHub
