import ActorHub.Text.LowercaseTable
import ActorHub.Text.CasedTable

/-!
# Letter case

Two foldings are in use. Names on the wire are compared ignoring the case of ASCII letters only
(`sameName`). Names and sentinels are stored in the full lower case of Unicode (`lowercase`), in
which a capital sigma depends on its neighbours.
-/

namespace ActorHub.Text

/-! ## ASCII -/

def isAsciiLetter (c : Char) : Bool :=
  ('a' ≤ c && c ≤ 'z') || ('A' ≤ c && c ≤ 'Z')

def isAsciiDigit (c : Char) : Bool :=
  '0' ≤ c && c ≤ '9'

def lowerAscii (c : Char) : Char :=
  if 'A' ≤ c && c ≤ 'Z' then Char.ofNat (c.toNat + 32) else c

def upperAscii (c : Char) : Char :=
  if 'a' ≤ c && c ≤ 'z' then Char.ofNat (c.toNat - 32) else c

/-- The text with its ASCII letters in lower case. -/
def foldAscii (s : String) : String :=
  String.ofList (s.toList.map lowerAscii)

/-- Equality ignoring the case of ASCII letters. -/
def sameName (a b : String) : Bool :=
  foldAscii a == foldAscii b

/-! ## Unicode -/

def isCased (c : Char) : Bool :=
  isAsciiLetter c || casedTable.contains c

def isCaseIgnorable (c : Char) : Bool :=
  ['\'', '.', ':', '^', '\x60'].contains c || caseIgnorableTable.contains c

/-- The lower case of a character on its own. -/
def lowerChar (c : Char) : List Char :=
  if c.toNat < 0x80 then [lowerAscii c]
  else if c.toNat = 0x130 then ['i', Char.ofNat 0x307]
  else match lowercaseTable.find? (·.covers c.toNat) with
    | some run => [Char.ofNat (c.toNat + run.shift).toNat]
    | none => [c]

/-- Whether the first character that is not case-ignorable is cased. -/
def meetsCased (cs : List Char) : Bool :=
  ((cs.dropWhile isCaseIgnorable).head?.map isCased).getD false

/-- Lower case of the second argument, where the first holds what stands before it, reversed. A
capital sigma that ends a word becomes a final sigma. -/
def lowerAfter (before : List Char) : List Char → List Char
  | [] => []
  | c :: rest =>
    let lowered :=
      if c = 'Σ' then [if meetsCased before && !meetsCased rest then 'ς' else 'σ']
      else lowerChar c
    lowered ++ lowerAfter (c :: before) rest

def lowercase (s : String) : String :=
  String.ofList (lowerAfter [] s.toList)

end ActorHub.Text
