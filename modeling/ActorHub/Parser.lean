import ActorHub.Parser.Failure

/-!
# Parsers

Parsers over lists of items are terms: `Parser ι α` is the type of expressions built from the
combinators, and `Parser.run` gives each its meaning. A run starts at a position of the input and
ends either behind the items it took or with a failure.
-/

namespace ActorHub

/-- Expressions for parsers that read items of type `ι` and yield a value. -/
inductive Parser (ι : Type) : Type → Type 1 where
  /-- One item that the function maps to a value. -/
  | satisfy {α : Type} (f : ι → Option α) : Parser ι α
  | noAlternative {α : Type} : Parser ι α
  | refuse {α : Type} (message : String) : Parser ι α
  /-- The first parser, or the second where the first fails. -/
  | orElse {α : Type} (p q : Parser ι α) : Parser ι α
  /-- One parser behind the other. -/
  | seq {α β : Type} (p : Parser ι α) (q : Parser ι β) : Parser ι (α × β)
  | map {α β : Type} (f : α → β) (p : Parser ι α) : Parser ι β
  /-- As many repetitions as succeed and take at least one item. -/
  | many {α : Type} (p : Parser ι α) : Parser ι (List α)
  /-- Items with separators between them, possibly none. A separator that no item follows is
  left unread. -/
  | sepBy {α : Type} (p : Parser ι α) (separator : Parser ι Unit) : Parser ι (List α)
  /-- A parser that has to stop at the end of the input. -/
  | allConsuming {α : Type} (p : Parser ι α) : Parser ι α
  /-- A parser whose failures are named after their context. -/
  | inContext {α : Type} (message : String) (p : Parser ι α) : Parser ι α

namespace Parser

/-! ## Derived combinators -/

section

variable {ι α β γ δ : Type}

def equal [DecidableEq ι] (x : ι) : Parser ι ι :=
  satisfy fun y => if y = x then some y else none

/-- The first alternative that succeeds; where none does, the failure that got furthest. -/
def choice (ps : List (Parser ι α)) : Parser ι α :=
  ps.foldl orElse noAlternative

def preceded (p : Parser ι Unit) (q : Parser ι α) : Parser ι α :=
  map Prod.snd (seq p q)

def asUnit (p : Parser ι α) : Parser ι Unit :=
  map (fun _ => ()) p

def tuple2 (p : Parser ι α) (q : Parser ι β) : Parser ι (α × β) :=
  seq p q

def tuple3 (p : Parser ι α) (q : Parser ι β) (r : Parser ι γ) : Parser ι (α × β × γ) :=
  seq p (seq q r)

def tuple4 (p : Parser ι α) (q : Parser ι β) (r : Parser ι γ) (s : Parser ι δ) :
    Parser ι (α × β × γ × δ) :=
  seq p (seq q (seq r s))

end

/-! ## Meaning -/

/-- Where a successful run stopped, and what it yields; or why there is none. -/
abbrev Result (α : Type) := Except Failure (Nat × α)

/-- The failure at a position where the item does not fit or is missing. -/
def missing (length position : Nat) : Failure :=
  if length ≤ position then .endOfInput else .unexpected position

section

variable {α : Type}

/-- Runs a step again and again until it fails or takes nothing. Each round takes an item, so as
many rounds as there are items left always suffice. -/
def repeatRun (step : Nat → Result α) : Nat → Nat → Nat × List α
  | 0, position => (position, [])
  | rounds + 1, position =>
    match step position with
    | .error _ => (position, [])
    | .ok (next, x) =>
      if next = position then (position, [])
      else
        let (stop, xs) := repeatRun step rounds next
        (stop, x :: xs)

/-- Runs separator and item again and again until one of them fails. -/
def repeatSeparated (item : Nat → Result α) (separator : Nat → Result Unit) :
    Nat → Nat → Nat × List α
  | 0, position => (position, [])
  | rounds + 1, position =>
    match separator position with
    | .error _ => (position, [])
    | .ok (behind, _) =>
      match item behind with
      | .error _ => (position, [])
      | .ok (next, x) =>
        let (stop, xs) := repeatSeparated item separator rounds next
        (stop, x :: xs)

end

def run {ι α : Type} (input : List ι) (p : Parser ι α) (position : Nat) : Result α :=
  match p with
  | satisfy f =>
    match input[position]?.bind f with
    | some x => .ok (position + 1, x)
    | none => .error (missing input.length position)
  | noAlternative => .error .noAlternative
  | refuse message => .error (.refused message)
  | orElse p q =>
    match run input p position with
    | .ok r => .ok r
    | .error e =>
      match run input q position with
      | .ok r => .ok r
      | .error e' => .error (e.furthest e')
  | seq p q =>
    match run input p position with
    | .error e => .error e
    | .ok (position, x) =>
      match run input q position with
      | .error e => .error e
      | .ok (position, y) => .ok (position, (x, y))
  | map f p =>
    match run input p position with
    | .error e => .error e
    | .ok (position, x) => .ok (position, f x)
  | many p => .ok (repeatRun (run input p) (input.length - position) position)
  | sepBy p separator =>
    match run input p position with
    | .error _ => .ok (position, [])
    | .ok (next, x) =>
      let (stop, xs) :=
        repeatSeparated (run input p) (run input separator) (input.length - next) next
      .ok (stop, x :: xs)
  | allConsuming p =>
    match run input p position with
    | .error e => .error e
    | .ok (stop, x) =>
      if stop < input.length then .error (.unexpected stop) else .ok (stop, x)
  | inContext message p =>
    match run input p position with
    | .error e => .error (.inContext message e)
    | .ok r => .ok r

end Parser

end ActorHub
