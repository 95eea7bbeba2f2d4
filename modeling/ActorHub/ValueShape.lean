import ActorHub.Dictionary.Error
import ActorHub.Value
import ActorHub.ValueSpec

/-!
# Value shapes

The ordered entries a key expects its values to fill. `take` types a list of texts against the
entries from the front and never goes back, which loses nothing since only the last entry may
repeat a varying number of times; `consume` accepts a list when nothing is left over.
-/

namespace ActorHub

/-! ## Taking texts -/

namespace ValueType

/-- Types the first text. -/
def take (t : ValueType) : List String → Option (TypedValue × List String)
  | [] => none
  | text :: rest => (t.accept? text).map fun v => (v, rest)

/-- Types as many texts as asked for. -/
def takeExactly (t : ValueType) : Nat → List String → Option (List TypedValue × List String)
  | 0, texts => some ([], texts)
  | _ + 1, [] => none
  | n + 1, text :: rest => do
    let v ← t.accept? text
    let (vs, rest) ← t.takeExactly n rest
    return (v :: vs, rest)

/-- Whether a bound on a count allows one more. -/
def hasRoom : Option Nat → Bool
  | some n => n != 0
  | none => true

/-- Types texts up to the first that does not fit, at most as many as the bound. -/
def takeUpTo (t : ValueType) (bound : Option Nat) : List String → List TypedValue × List String
  | [] => ([], [])
  | text :: rest =>
    if hasRoom bound then
      match t.accept? text with
      | some v =>
        let (vs, rest) := t.takeUpTo (bound.map (· - 1)) rest
        (v :: vs, rest)
      | none => ([], text :: rest)
    else ([], text :: rest)

/-- Types one text by each type. -/
def takeEach : List ValueType → List String → Option (List TypedValue × List String)
  | [], texts => some ([], texts)
  | t :: ts, texts => do
    let (v, texts) ← t.take texts
    let (vs, texts) ← takeEach ts texts
    return (v :: vs, texts)

end ValueType

/-- Types the leading texts by the entry, as many of them as fit. -/
def ValueSpec.take (s : ValueSpec) (texts : List String) :
    Option (List TypedValue × List String) :=
  match s with
  | .single t => (t.take texts).map fun (v, rest) => ([v], rest)
  | .repeated r => do
    let (least, rest) ← r.type.takeExactly r.min texts
    let (more, rest) := r.type.takeUpTo (r.max.map (· - r.min)) rest
    return (least ++ more, rest)
  | .compound c => (ValueType.takeEach c.types texts).map fun (group, rest) => ([c.wrap group], rest)
  | .byName _ => none

/-- Types the leading texts by entry after entry. -/
def ValueSpec.takeAll : List ValueSpec → List String → Option (List TypedValue × List String)
  | [], texts => some ([], texts)
  | s :: rest, texts => do
    let (vs, texts) ← s.take texts
    let (more, texts) ← takeAll rest texts
    return (vs ++ more, texts)

/-! ## Counts -/

/-- The least number of texts an entry takes. -/
def ValueSpec.least : ValueSpec → Nat
  | single _ => 1
  | repeated r => r.min
  | compound c => c.size
  | byName _ => 0

/-- The largest number of texts an entry takes, if there is one. -/
def ValueSpec.most : ValueSpec → Option Nat
  | single _ => some 1
  | repeated r => r.max
  | compound c => some c.size
  | byName _ => some 0

/-- How many texts entries take together, the least number and the largest if there is one, as words
of 64 bits. -/
structure Counts where
  least : UInt64
  most : Option UInt64
deriving DecidableEq

namespace Counts

/-- The counts with one more entry. A sum that does not fit in a word wraps around. -/
def add (c : Counts) (s : ValueSpec) : Counts where
  least := c.least + .ofNat s.least
  most := do return (← c.most) + .ofNat (← s.most)

def ofSpecs (specs : List ValueSpec) : Counts :=
  specs.foldl add ⟨0, some 0⟩

end Counts

/-! ## Shapes -/

/-- Every entry but the last takes a fixed number of values. -/
def onlyLastVaries (specs : List ValueSpec) : Bool :=
  specs.dropLast.all ValueSpec.isFixed

/-- The entries, and the counts kept beside them. -/
structure ValueShape where
  specs : List ValueSpec
  counts : Counts
  only_last_varies : onlyLastVaries specs = true

namespace ValueShape

/-- The shape of the entries with their counts. -/
def counted (specs : List ValueSpec) (h : onlyLastVaries specs = true) : ValueShape :=
  ⟨specs, .ofSpecs specs, h⟩

def ofSpecs (specs : List ValueSpec) : Except DictionaryError ValueShape :=
  if h : onlyLastVaries specs = true then .ok (counted specs h) else .error .repetitionRange

/-- How many values are expected. -/
def countText (s : ValueShape) : String :=
  match s.counts.most with
  | some most =>
    if most = 0 then "none"
    else if most = s.counts.least then toString most
    else toString s.counts.least ++ "-" ++ toString most
  | none => toString s.counts.least ++ " or more"

def display (s : ValueShape) : String :=
  "Types[" ++ ", ".intercalate (s.specs.map ValueSpec.display) ++ "]"

def describeEntry (s : ValueSpec) : String :=
  "\n    " ++ "\n    ".intercalate (s.describe.splitOn "\n") ++ "\n"

def describe (s : ValueShape) : String :=
  Descriptor.alignLabel "Values" ++ s.countText ++ "\n" ++ String.join (s.specs.map describeEntry)

/-- The typed values that a list of texts denotes. -/
def typed? (s : ValueShape) (texts : List String) : Option (List TypedValue) :=
  match ValueSpec.takeAll s.specs texts with
  | some (vs, []) => some vs
  | _ => none

/-- The values typed by their texts, if they fit the entries and none is left over. -/
def consume (s : ValueShape) (values : Values) : Option Values :=
  (s.typed? (values.map Value.display)).map fun vs => vs.map .typed

/-! ## References -/

/-- The types declared by name, those declared last first. -/
abbrev NamedTypes := List (String × NamedType)

/-- The entry that stands for another, where a reference stands for what was declared last under
its name. -/
def resolveSpec (types : NamedTypes) : ValueSpec → Except DictionaryError ValueSpec
  | .byName name =>
    match types.lookup name with
    | some t => .ok t.toSpec
    | none => .error (.unresolved name)
  | s => .ok s

def resolveSpecs (types : NamedTypes) (specs : List ValueSpec) :
    Except DictionaryError (List ValueSpec) :=
  specs.mapM (resolveSpec types)

theorem isFixed_of_resolveSpec {types : NamedTypes} {s r : ValueSpec}
    (h : resolveSpec types s = .ok r) (hs : s.isFixed = true) : r.isFixed = true := by
  unfold resolveSpec at h
  split at h
  · split at h
    · cases h
      exact NamedType.isFixed_toSpec _
    · cases h
  · cases h
    exact hs

theorem onlyLastVaries_of_resolveSpecs {types : NamedTypes} : ∀ {specs rs : List ValueSpec},
    resolveSpecs types specs = .ok rs → onlyLastVaries specs = true → onlyLastVaries rs = true
  | [], rs, h, _ => by
    simp only [resolveSpecs, List.mapM_nil, pure, Except.pure] at h
    cases h
    rfl
  | [s], rs, h, _ => by
    simp only [resolveSpecs, List.mapM_cons, List.mapM_nil, bind, Except.bind, pure,
      Except.pure] at h
    split at h <;> cases h
    rfl
  | s :: t :: specs, rs, h, hs => by
    simp only [resolveSpecs] at h
    rw [List.mapM_cons] at h
    simp only [bind, Except.bind, pure, Except.pure] at h
    split at h
    · cases h
    rename_i r hr
    split at h
    · cases h
    rename_i rest hrest
    cases h
    simp only [onlyLastVaries, List.dropLast_cons_cons, List.all_cons, Bool.and_eq_true] at hs
    have hlast := onlyLastVaries_of_resolveSpecs hrest hs.2
    cases rest with
    | nil => rfl
    | cons r' rest =>
      simp only [onlyLastVaries, List.dropLast_cons_cons, List.all_cons, Bool.and_eq_true]
      exact ⟨isFixed_of_resolveSpec hr hs.1, hlast⟩

/-- The shape with every reference replaced, and the counts of the entries in place; the first name
that is not declared is the fault. -/
def resolve (types : NamedTypes) (s : ValueShape) : Except DictionaryError ValueShape :=
  match h : resolveSpecs types s.specs with
  | .ok specs => .ok (counted specs (onlyLastVaries_of_resolveSpecs h s.only_last_varies))
  | .error e => .error e

/-- The types the entries declare by name, the last one first. -/
def declared (s : ValueShape) : NamedTypes :=
  (s.specs.filterMap ValueSpec.declared?).reverse

end ValueShape

end ActorHub
