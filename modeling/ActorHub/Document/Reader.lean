import ActorHub.Document
import ActorHub.Number.Radix

/-!
# Reading documents

A text is cut into tokens, and the tokens are folded over a stack of open arrays and objects. The
grammar is that of the JSON standard, without extensions.
-/

namespace ActorHub.Document

inductive Token where
  | openArray
  | closeArray
  | openObject
  | closeObject
  | comma
  | colon
  | text (s : Option String)
  | value (d : Document)

/-! ## Texts -/

def isHighSurrogate (n : Nat) : Bool :=
  0xd800 ≤ n && n < 0xdc00

def isLowSurrogate (n : Nat) : Bool :=
  0xdc00 ≤ n && n < 0xe000

/-- The characters of a sequence of code points in which surrogates stand in pairs. -/
def pairUp : List Nat → Option (List Char)
  | [] => some []
  | a :: rest =>
    if isHighSurrogate a then
      match rest with
      | b :: rest =>
        if isLowSurrogate b then
          (pairUp rest).map (Char.ofNat (0x10000 + (a - 0xd800) * 0x400 + (b - 0xdc00)) :: ·)
        else none
      | [] => none
    else if isLowSurrogate a then none
    else (pairUp rest).map (Char.ofNat a :: ·)

/-- The code point that a letter behind a backslash stands for. -/
def escape? : Char → Option Nat
  | '"' => some 0x22
  | '\\' => some 0x5c
  | '/' => some 0x2f
  | 'b' => some 0x8
  | 'f' => some 0xc
  | 'n' => some 0xa
  | 'r' => some 0xd
  | 't' => some 0x9
  | _ => none

/-- The code points up to the closing quote, and what stands behind it. Control characters are
escaped in a text. -/
def scanText : List Char → Option (List Nat × List Char)
  | [] => none
  | '"' :: rest => some ([], rest)
  | '\\' :: 'u' :: a :: b :: c :: d :: rest => do
    let n ← Number.readDigits? 16 [a, b, c, d]
    let (ns, rest) ← scanText rest
    return (n :: ns, rest)
  | '\\' :: c :: rest => do
    let n ← escape? c
    let (ns, rest) ← scanText rest
    return (n :: ns, rest)
  | c :: rest =>
    if c.toNat < 0x20 then none
    else (scanText rest).map fun (ns, rest) => (c.toNat :: ns, rest)

theorem length_of_scanText {cs rest : List Char} {ns : List Nat}
    (h : scanText cs = some (ns, rest)) : rest.length < cs.length := by
  fun_induction scanText cs generalizing ns rest with
  | case1 => cases h
  | case2 => cases h; simp
  | case3 a b c d tail ih =>
    simp only [Option.bind_eq_bind, Option.bind_eq_some_iff] at h
    obtain ⟨n, _, ⟨_, _⟩, h, e⟩ := h
    cases e
    have := ih h
    simp only [List.length_cons]
    omega
  | case4 c tail _ ih =>
    simp only [Option.bind_eq_bind, Option.bind_eq_some_iff] at h
    obtain ⟨n, _, ⟨_, _⟩, h, e⟩ := h
    cases e
    have := ih h
    simp only [List.length_cons]
    omega
  | case5 => cases h
  | case6 c tail _ _ _ _ ih =>
    simp only [Option.map_eq_some_iff] at h
    obtain ⟨⟨_, _⟩, h, e⟩ := h
    cases e
    have := ih h
    simp only [List.length_cons]
    omega

/-! ## Numbers -/

def isDigit (c : Char) : Bool :=
  '0' ≤ c && c ≤ '9'

/-- The digits of a whole number, without leading zeros, and the rest. -/
def scanWhole : List Char → Option (List Char × List Char)
  | '0' :: rest => if (rest.head?.map isDigit).getD false then none else some (['0'], rest)
  | cs =>
    match cs.takeWhile isDigit with
    | [] => none
    | ds => some (ds, cs.dropWhile isDigit)

/-- Drops the digits at the front, of which there is at least one. -/
def dropDigits? (cs : List Char) : Option (List Char) :=
  if (cs.head?.map isDigit).getD false then some (cs.dropWhile isDigit) else none

def dropFraction? : List Char → Option (List Char)
  | '.' :: rest => dropDigits? rest
  | cs => some cs

def dropSign : List Char → List Char
  | '+' :: rest | '-' :: rest => rest
  | cs => cs

def dropExponent? : List Char → Option (List Char)
  | 'e' :: rest | 'E' :: rest => dropDigits? (dropSign rest)
  | cs => some cs

/-- Whole numbers are kept below this bound. -/
def naturalBound : Nat := UInt64.size

def scanNumber (cs : List Char) : Option (Document × List Char) :=
  match cs with
  | '-' :: rest => do
    let (_, rest) ← scanWhole rest
    return (number, ← dropExponent? (← dropFraction? rest))
  | cs => do
    let (ds, behind) ← scanWhole cs
    let rest ← dropExponent? (← dropFraction? behind)
    match Number.readDigits? 10 ds with
    | some n =>
      if n < naturalBound && rest.length = behind.length then return (natural n, rest)
      else return (number, rest)
    | none => none

theorem length_dropWhile_lt {p : Char → Bool} {cs : List Char} (h : cs.takeWhile p ≠ []) :
    (cs.dropWhile p).length < cs.length := by
  cases cs with
  | nil => exact absurd rfl h
  | cons c cs =>
    by_cases hc : p c = true
    · rw [List.dropWhile_cons_of_pos hc]
      have := (List.dropWhile_suffix (l := cs) p).length_le
      simp only [List.length_cons]
      omega
    · exact absurd (List.takeWhile_cons_of_neg hc) h

theorem length_of_scanWhole {cs ds rest : List Char} (h : scanWhole cs = some (ds, rest)) :
    rest.length < cs.length := by
  unfold scanWhole at h
  split at h
  · split at h
    · cases h
    · cases h; simp
  · split at h
    · cases h
    · rename_i hne
      cases h
      exact length_dropWhile_lt fun e => hne e

theorem length_of_dropDigits {cs rest : List Char} (h : dropDigits? cs = some rest) :
    rest.length ≤ cs.length := by
  unfold dropDigits? at h
  split at h
  · cases h
    exact (List.dropWhile_suffix isDigit).length_le
  · cases h

theorem length_dropSign (cs : List Char) : (dropSign cs).length ≤ cs.length := by
  unfold dropSign
  split <;> simp

theorem length_of_dropFraction {cs rest : List Char} (h : dropFraction? cs = some rest) :
    rest.length ≤ cs.length := by
  unfold dropFraction? at h
  split at h
  · have := length_of_dropDigits h
    simp only [List.length_cons]
    omega
  · cases h
    exact Nat.le_refl _

theorem length_of_dropExponent {cs rest : List Char} (h : dropExponent? cs = some rest) :
    rest.length ≤ cs.length := by
  unfold dropExponent? at h
  split at h
  case h_3 => cases h; exact Nat.le_refl _
  all_goals
    rename_i tail
    have h1 := length_of_dropDigits h
    have h2 := length_dropSign tail
    simp only [List.length_cons]
    omega

theorem length_of_scanNumber {cs rest : List Char} {d : Document}
    (h : scanNumber cs = some (d, rest)) : rest.length < cs.length := by
  unfold scanNumber at h
  split at h
  · simp only [Option.bind_eq_bind, Option.bind_eq_some_iff] at h
    obtain ⟨⟨_, a⟩, ha, b, hb, c, hc, e⟩ := h
    cases e
    have h1 := length_of_scanWhole ha
    have h2 := length_of_dropFraction hb
    have h3 := length_of_dropExponent hc
    simp only [List.length_cons] at h2 ⊢
    omega
  · simp only [Option.bind_eq_bind, Option.bind_eq_some_iff] at h
    obtain ⟨⟨ds, a⟩, ha, b, hb, c, hc, e⟩ := h
    have h1 := length_of_scanWhole ha
    have h2 := length_of_dropFraction hb
    have h3 := length_of_dropExponent hc
    simp only at h2 h3 e
    split at e
    · split at e <;> cases e <;> omega
    · cases e

/-! ## Tokens -/

def isGap (c : Char) : Bool :=
  c = ' ' || c = '\t' || c = '\n' || c = '\r'

/-- The token at the front, and what stands behind it. -/
def nextToken? (cs : List Char) : Option (Token × List Char) :=
  match cs with
  | '[' :: rest => some (.openArray, rest)
  | ']' :: rest => some (.closeArray, rest)
  | '\x7b' :: rest => some (.openObject, rest)
  | '\x7d' :: rest => some (.closeObject, rest)
  | ',' :: rest => some (.comma, rest)
  | ':' :: rest => some (.colon, rest)
  | '"' :: rest => (scanText rest).map fun (ns, rest) => (.text ((pairUp ns).map String.ofList), rest)
  | 't' :: 'r' :: 'u' :: 'e' :: rest => some (.value (.bool true), rest)
  | 'f' :: 'a' :: 'l' :: 's' :: 'e' :: rest => some (.value (.bool false), rest)
  | 'n' :: 'u' :: 'l' :: 'l' :: rest => some (.value .null, rest)
  | cs => (scanNumber cs).map fun (d, rest) => (.value d, rest)

theorem length_of_nextToken {cs rest : List Char} {t : Token}
    (h : nextToken? cs = some (t, rest)) : rest.length < cs.length := by
  unfold nextToken? at h
  split at h
  case h_7 tail =>
    simp only [Option.map_eq_some_iff] at h
    obtain ⟨⟨_, _⟩, h, e⟩ := h
    cases e
    have := length_of_scanText h
    simp only [List.length_cons]
    omega
  case h_11 =>
    simp only [Option.map_eq_some_iff] at h
    obtain ⟨⟨_, _⟩, h, e⟩ := h
    cases e
    exact length_of_scanNumber h
  all_goals
    cases h
    simp only [List.length_cons]
    omega

def tokens? (cs : List Char) : Option (List Token) :=
  match _ : cs.dropWhile isGap with
  | [] => some []
  | c :: rest =>
    match _ : nextToken? (c :: rest) with
    | none => none
    | some (t, behind) => (tokens? behind).map (t :: ·)
termination_by cs.length
decreasing_by
  have h1 := length_of_nextToken ‹nextToken? (c :: rest) = some (t, behind)›
  have h2 := (List.dropWhile_suffix (l := cs) isGap).length_le
  rw [‹cs.dropWhile isGap = c :: rest›] at h2
  omega

/-! ## Structure -/

/-- An array or object that is still open; what it holds so far is kept last first. -/
inductive Frame where
  | items (done : List Document)
  | members (done : List (Option String × Document)) (name : Option String)

/-- What may stand next. -/
inductive Awaited where
  | value
  | firstItem
  | firstName (done : List (Option String × Document))
  | name (done : List (Option String × Document))
  | colon (done : List (Option String × Document)) (name : Option String)
  /-- A value is complete. -/
  | separator (d : Document)

structure Building where
  stack : List Frame
  awaited : Awaited

namespace Building

def start : Building := ⟨[], .value⟩

/-- The value that a text denotes. -/
def ofText : Option String → Document
  | some s => .text s
  | none => .brokenText

/-- The token where a value is expected. -/
def beginValue (stack : List Frame) : Token → Option Building
  | .openArray => some ⟨.items [] :: stack, .firstItem⟩
  | .openObject => some ⟨stack, .firstName []⟩
  | .text s => some ⟨stack, .separator (ofText s)⟩
  | .value d => some ⟨stack, .separator d⟩
  | _ => none

/-- The token behind a complete value. -/
def endValue (d : Document) : List Frame → Token → Option Building
  | .items done :: stack, .comma => some ⟨.items (d :: done) :: stack, .value⟩
  | .items done :: stack, .closeArray => some ⟨stack, .separator (.array (d :: done).reverse)⟩
  | .members done name :: stack, .comma => some ⟨stack, .name ((name, d) :: done)⟩
  | .members done name :: stack, .closeObject =>
    some ⟨stack, .separator (.object ((name, d) :: done).reverse)⟩
  | _, _ => none

def step (b : Building) (t : Token) : Option Building :=
  match b.awaited, b.stack, t with
  | .value, stack, t => beginValue stack t
  | .firstItem, .items _ :: stack, .closeArray => some ⟨stack, .separator (.array [])⟩
  | .firstItem, stack, t => beginValue stack t
  | .firstName _, stack, .closeObject => some ⟨stack, .separator (.object [])⟩
  | .firstName done, stack, .text s | .name done, stack, .text s => some ⟨stack, .colon done s⟩
  | .firstName _, _, _ | .name _, _, _ => none
  | .colon done name, stack, .colon => some ⟨.members done name :: stack, .value⟩
  | .colon .., _, _ => none
  | .separator d, stack, t => endValue d stack t

/-- The document, if nothing is open. -/
def finish : Building → Option Document
  | ⟨[], .separator d⟩ => some d
  | _ => none

end Building

/-- The document that a text denotes. -/
def read (source : String) : Option Document := do
  let ts ← tokens? source.toList
  (← ts.foldlM Building.step Building.start).finish

end ActorHub.Document
