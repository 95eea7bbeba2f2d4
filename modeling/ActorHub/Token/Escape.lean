/-!
# Quoted strings

A quoted string ends at the first quote of its own kind that no backslash precedes, and holds no
newline, escaped or not. `unescape` undoes the escapes of quotes and backslashes and leaves every
other escape as it is written.
-/

namespace ActorHub

namespace Quoted

/-- Splits the text behind an opening quote at the closing one: the body, and what follows. -/
def close (quote : Char) : List Char → Option (List Char × List Char)
  | [] => none
  | c :: rest =>
    if c = quote then some ([], rest)
    else if c = '\\' then
      match rest with
      | [] => none
      | d :: rest => if d = '\n' then none else (close quote rest).map fun (b, r) => (c :: d :: b, r)
    else if c = '\n' then none
    else (close quote rest).map fun (b, r) => (c :: b, r)

def isQuote (c : Char) : Bool :=
  c = '"' || c = '\''

/-- The characters whose escape is undone. -/
def isEscapable (c : Char) : Bool :=
  c = '\\' || isQuote c

def unescapeChars : List Char → List Char
  | '\\' :: c :: rest => if isEscapable c then c :: unescapeChars rest else '\\' :: c :: unescapeChars rest
  | c :: rest => c :: unescapeChars rest
  | [] => []

def unescape (s : String) : String :=
  String.ofList (unescapeChars s.toList)

/-- Writes a backslash before every double quote, and before nothing else. -/
def escapeQuotes : List Char → List Char
  | [] => []
  | c :: rest => if c = '"' then '\\' :: '"' :: escapeQuotes rest else c :: escapeQuotes rest

theorem close_eq_append {quote : Char} {cs body rest : List Char}
    (h : close quote cs = some (body, rest)) : cs = body ++ quote :: rest := by
  fun_induction close quote cs generalizing body rest with
  | case1 | case3 | case4 | case6 => simp at h
  | case2 r => simp_all
  | case5 d r _ _ ih =>
    obtain ⟨⟨b, t⟩, hc, he⟩ := Option.map_eq_some_iff.1 h
    simp only [Prod.mk.injEq] at he
    obtain ⟨rfl, rfl⟩ := he
    simp [ih hc]
  | case7 c r _ _ _ ih =>
    obtain ⟨⟨b, t⟩, hc, he⟩ := Option.map_eq_some_iff.1 h
    simp only [Prod.mk.injEq] at he
    obtain ⟨rfl, rfl⟩ := he
    simp [ih hc]

end Quoted

end ActorHub
