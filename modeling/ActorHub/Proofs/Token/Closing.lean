import ActorHub.Proofs.Token.Lexer
import Mathlib.Data.List.TakeWhile

/-!
# Closing quotes

A quoted string may be read in two ways. A repetition takes runs of plain characters and escapes as long as
it can, and then wants the closing quote. A scan looks at one character after another, passes over the
character behind each backslash, and stops at the first quote it looks at. Both end at the same place, and
both fail where a newline comes first.
-/

namespace ActorHub

namespace Quoted

variable {quote c : Char} {p cs b rest : List Char} {i k : Nat}

/-! ## Scanning -/

/-- A backslash is passed over together with the character behind it. -/
def stride (c : Char) : Nat :=
  if c = '\\' then 2 else 1

/-- The places at which a scan of the text looks. -/
inductive Looks (cs : List Char) : Nat → Prop
  | start : Looks cs 0
  | next {i : Nat} {c : Char} : Looks cs i → cs[i]? = some c → Looks cs (i + stride c)

/-- The scan looks at the quote here, for the first time, and no newline stands before it. -/
structure ClosesAt (quote : Char) (cs : List Char) (i : Nat) : Prop where
  looks : Looks cs i
  here : cs[i]? = some quote
  first : ∀ j < i, Looks cs j → cs[j]? ≠ some quote
  line : '\n' ∉ cs.take i

theorem getElem?_behind (p cs : List Char) (i : Nat) : (p ++ cs)[p.length + i]? = cs[i]? := by
  rw [List.getElem?_append_right (Nat.le_add_right _ _), Nat.add_sub_cancel_left]

theorem looks_append_iff (hp : (c :: p).length = stride c) : Looks (c :: p ++ cs) k ↔
    k = 0 ∨ ∃ i, k = (c :: p).length + i ∧ Looks cs i := by
  constructor
  · intro h
    induction h with
    | start => exact .inl rfl
    | @next k d _ hd ih =>
      right
      rcases ih with rfl | ⟨i, rfl, hi⟩
      · obtain rfl : c = d := by simpa using hd
        exact ⟨0, by omega, .start⟩
      · rw [getElem?_behind] at hd
        exact ⟨i + stride d, by omega, .next hi hd⟩
  · intro h
    rcases h with rfl | ⟨i, rfl, hi⟩
    · exact .start
    · induction hi with
      | start =>
        have hstep : Looks (c :: p ++ cs) (0 + stride c) := .next .start rfl
        rwa [Nat.zero_add, ← hp] at hstep
      | @next i d _ hd ih =>
        rw [← Nat.add_assoc]
        exact .next ih ((getElem?_behind _ _ i).trans hd)

theorem closesAt_quote_iff : ClosesAt quote (quote :: cs) k ↔ k = 0 := by
  constructor
  · intro h
    refine Nat.eq_zero_of_not_pos fun hk => ?_
    exact h.first 0 hk .start rfl
  · rintro rfl
    exact ⟨.start, rfl, by simp, by simp⟩

theorem closesAt_append_iff (hp : (c :: p).length = stride c) (hc : c ≠ quote) :
    ClosesAt quote (c :: p ++ cs) k ↔
      '\n' ∉ c :: p ∧ ∃ i, k = (c :: p).length + i ∧ ClosesAt quote cs i := by
  constructor
  · intro h
    rcases (looks_append_iff hp).mp h.looks with rfl | ⟨i, rfl, hi⟩
    · exact absurd (Option.some.inj h.here) hc
    · have hhere := h.here
      have hline := h.line
      rw [getElem?_behind] at hhere
      rw [List.take_length_add_append, List.mem_append, not_or] at hline
      refine ⟨hline.1, i, rfl, hi, hhere, fun j hj hlooks => ?_, hline.2⟩
      have hfirst := h.first _ (Nat.add_lt_add_left hj _) ((looks_append_iff hp).mpr (.inr ⟨j, rfl, hlooks⟩))
      rwa [getElem?_behind] at hfirst
  · intro he
    obtain ⟨hfront, i, rfl, h⟩ := he
    refine ⟨(looks_append_iff hp).mpr (.inr ⟨i, rfl, h.looks⟩), ?_, fun j hj hlooks => ?_, ?_⟩
    · rw [getElem?_behind]
      exact h.here
    · rcases (looks_append_iff hp).mp hlooks with rfl | ⟨m, rfl, hm⟩
      · simpa using hc
      · rw [getElem?_behind]
        exact h.first m (by omega) hm
    · rw [List.take_length_add_append, List.mem_append, not_or]
      exact ⟨hfront, h.line⟩

def Scans (quote : Char) (cs b rest : List Char) : Prop :=
  ∃ i, ClosesAt quote cs i ∧ b = cs.take i ∧ rest = cs.drop (i + 1)

theorem scans_quote_iff : Scans quote (quote :: cs) b rest ↔ b = [] ∧ rest = cs := by
  simp [Scans, closesAt_quote_iff]

theorem scans_append_iff (hp : (c :: p).length = stride c) (hc : c ≠ quote) :
    Scans quote (c :: p ++ cs) b rest ↔
      '\n' ∉ c :: p ∧ ∃ body, Scans quote cs body rest ∧ b = c :: p ++ body := by
  constructor
  · intro he
    obtain ⟨k, h, rfl, rfl⟩ := he
    obtain ⟨hline, i, rfl, hi⟩ := (closesAt_append_iff hp hc).mp h
    exact ⟨hline, cs.take i, ⟨i, hi, rfl, List.drop_length_add_append (i + 1)⟩, List.take_length_add_append i⟩
  · intro he
    obtain ⟨hline, body, ⟨i, hi, rfl, rfl⟩, rfl⟩ := he
    exact ⟨_, (closesAt_append_iff hp hc).mpr ⟨hline, i, rfl, hi⟩, (List.take_length_add_append i).symm,
      (List.drop_length_add_append (i + 1)).symm⟩

theorem not_scans_backslash (hq : quote ≠ '\\') : ¬ Scans quote ['\\'] b rest := by
  rintro ⟨i, h, -⟩
  have hhere := h.here
  cases i with
  | zero => exact hq (Option.some.inj hhere).symm
  | succ i => cases hhere

theorem map_append_eq_some_iff (front : List Char) {o : Option (List Char × List Char)} :
    (o.map fun (body, rest) => (front ++ body, rest)) = some (b, rest) ↔
      ∃ body, o = some (body, rest) ∧ b = front ++ body := by
  simp only [Option.map_eq_some_iff, Prod.exists, Prod.mk.injEq]
  constructor
  · rintro ⟨body, _, ho, rfl, rfl⟩
    exact ⟨body, ho, rfl⟩
  · rintro ⟨body, ho, rfl⟩
    exact ⟨body, rest, ho, rfl, rfl⟩

theorem close_eq_some_iff (hq : quote ≠ '\\') :
    close quote cs = some (b, rest) ↔ Scans quote cs b rest := by
  fun_induction close quote cs generalizing b rest with
  | case1 =>
    refine iff_of_false (Option.some_ne_none _).symm ?_
    rintro ⟨i, h, -⟩
    cases h.here
  | case2 text =>
    simp [scans_quote_iff, eq_comm]
  | case3 =>
    exact iff_of_false (Option.some_ne_none _).symm (not_scans_backslash hq)
  | case4 text hne =>
    refine iff_of_false (Option.some_ne_none _).symm fun h => ?_
    have hstep := (scans_append_iff (p := ['\n']) rfl hne).mp h
    exact hstep.1 (by simp)
  | case5 d text hd hne ih =>
    show _ ↔ Scans quote (['\\', d] ++ text) b rest
    rw [scans_append_iff rfl hne]
    refine (map_append_eq_some_iff ['\\', d]).trans ?_
    simp [ih, Ne.symm hd]
  | case6 text hne =>
    refine iff_of_false (Option.some_ne_none _).symm fun h => ?_
    have hstep := (scans_append_iff (p := []) rfl hne).mp h
    exact hstep.1 (by simp)
  | case7 c text hne hc hn ih =>
    show _ ↔ Scans quote ([c] ++ text) b rest
    rw [scans_append_iff (if_neg hc).symm hne]
    refine (map_append_eq_some_iff [c]).trans ?_
    simp [ih, Ne.symm hn]

/-! ## Repeating -/

def isPlain (quote c : Char) : Bool :=
  c != quote && c != '\\' && c != '\n'

def run? (quote : Char) (cs : List Char) : Option (List Char × List Char) :=
  match cs.takeWhile (isPlain quote) with
  | [] => none
  | run => some (run, cs.dropWhile (isPlain quote))

def escape? : List Char → Option (List Char × List Char)
  | '\\' :: c :: rest => if c = '\n' then none else some (['\\', c], rest)
  | _ => none

/-- What a repetition takes in one round, and what it leaves. -/
def piece? (quote : Char) (cs : List Char) : Option (List Char × List Char) :=
  (run? quote cs).or (escape? cs)

theorem run?_eq_some (h : run? quote cs = some (p, rest)) :
    cs = p ++ rest ∧ p ≠ [] ∧ ∀ c ∈ p, isPlain quote c = true := by
  unfold run? at h
  split at h
  · cases h
  · next hne =>
    cases h
    exact ⟨List.takeWhile_append_dropWhile.symm, hne, fun c hc => List.mem_takeWhile_imp hc⟩

theorem escape?_eq_some (h : escape? cs = some (p, rest)) :
    cs = p ++ rest ∧ ∃ c, p = ['\\', c] ∧ c ≠ '\n' := by
  unfold escape? at h
  split at h
  · next c text =>
    by_cases hc : c = '\n'
    · simp [hc] at h
    · rw [if_neg hc] at h
      cases h
      exact ⟨rfl, c, rfl, hc⟩
  · cases h

theorem body_of_plain (hp : ∀ c ∈ p, isPlain quote c = true) : Body quote p := by
  induction p with
  | nil => exact .nil
  | cons c p ih =>
    have hc := hp c List.mem_cons_self
    simp only [isPlain, Bool.and_eq_true, bne_iff_ne] at hc
    exact .plain hc.1.1 hc.1.2 hc.2 (ih fun d hd => hp d (List.mem_cons_of_mem c hd))

theorem piece?_eq_some (h : piece? quote cs = some (p, rest)) : cs = p ++ rest ∧ p ≠ [] ∧ Body quote p := by
  rcases Option.or_eq_some_iff.mp h with h | ⟨-, h⟩
  · obtain ⟨hcs, hne, hp⟩ := run?_eq_some h
    exact ⟨hcs, hne, body_of_plain hp⟩
  · obtain ⟨hcs, c, rfl, hc⟩ := escape?_eq_some h
    exact ⟨hcs, by simp, .escaped hc .nil⟩

def pieces (quote : Char) (cs : List Char) : List (List Char) × List Char :=
  match _ : piece? quote cs with
  | none => ([], cs)
  | some (p, rest) =>
    let tail := pieces quote rest
    (p :: tail.1, tail.2)
termination_by cs.length
decreasing_by
  obtain ⟨rfl, hne, -⟩ := piece?_eq_some ‹piece? quote cs = some _›
  have := List.length_pos_iff.mpr hne
  simp only [List.length_append]
  omega

def char? (c : Char) : List Char → Option (List Char)
  | [] => none
  | d :: rest => if d = c then some rest else none

def enclosed? (quote : Char) (cs : List Char) : Option (List Char × List Char) := do
  let text ← char? quote cs
  let (ps, rest) := pieces quote text
  return (ps.flatten, ← char? quote rest)

def literal? (cs : List Char) : Option (List Char × List Char) :=
  (enclosed? '\'' cs).or (enclosed? '"' cs)

theorem close_append_body (hq : quote ≠ '\\') (hp : Body quote p) (cs : List Char) :
    close quote (p ++ cs) = (close quote cs).map fun (b, rest) => (p ++ b, rest) := by
  induction hp with
  | nil => simp
  | plain h1 h2 h3 _ ih =>
    rw [List.cons_append, close.eq_def]
    simp [h1, h2, h3, ih, Function.comp_def]
  | escaped h1 _ ih =>
    rw [List.cons_append, List.cons_append, close.eq_def]
    simp [Ne.symm hq, h1, ih, Function.comp_def]

/-- Where no piece can be taken, only the closing quote will do. -/
theorem close_of_piece?_eq_none (h : piece? quote cs = none) :
    close quote cs = (char? quote cs).map fun rest => ([], rest) := by
  obtain ⟨hrun, hescape⟩ := Option.or_eq_none_iff.mp h
  cases cs with
  | nil => rfl
  | cons c cs =>
    by_cases hc : c = quote
    · rw [close.eq_def]
      simp [char?, hc]
    · have hchar : char? quote (c :: cs) = none := if_neg hc
      have hplain : isPlain quote c = false := by
        by_contra hplain
        simp [run?, hplain] at hrun
      rw [hchar, Option.map_none, close.eq_def]
      by_cases hslash : c = '\\'
      · subst hslash
        cases cs with
        | nil => simp [hc]
        | cons d cs =>
          have hd : d = '\n' := by simpa [escape?] using hescape
          simp [hc, hd]
      · obtain rfl : c = '\n' := by simpa [isPlain, hc, hslash] using hplain
        simp [hc]

theorem close_eq_pieces (hq : quote ≠ '\\') (cs : List Char) : close quote cs =
    (char? quote (pieces quote cs).2).map fun rest => ((pieces quote cs).1.flatten, rest) := by
  fun_induction pieces quote cs with
  | case1 cs h => exact close_of_piece?_eq_none h
  | case2 cs p rest h tail ih =>
    obtain ⟨rfl, -, hp⟩ := piece?_eq_some h
    rw [close_append_body hq hp, ih]
    simp [tail, Function.comp_def]

theorem enclosed?_cons (hq : quote ≠ '\\') (text : List Char) :
    enclosed? quote (quote :: text) = close quote text := by
  have hopen : char? quote (quote :: text) = some text := if_pos rfl
  rw [close_eq_pieces hq, enclosed?, hopen, Option.map_eq_bind]
  rfl

theorem enclosed?_cons_of_ne (hc : c ≠ quote) (text : List Char) : enclosed? quote (c :: text) = none := by
  simp [enclosed?, char?, hc]

end Quoted

namespace Lexeme

def cutQuoted? (cs : List Char) : Option (Token × List Char) :=
  (quoted? cs).map fun l => (l.token, cs.drop l.written.length)

theorem cutQuoted?_cons {q : Char} (hq : Quoted.isQuote q = true) (text : List Char) :
    cutQuoted? (q :: text) =
      (Quoted.close q text).map fun (b, rest) => (.quoted (String.ofList b), rest) := by
  simp only [cutQuoted?, quoted?, if_pos hq, Option.map_map]
  cases hclose : Quoted.close q text with
  | none => rfl
  | some p => simp [Quoted.close_eq_append hclose]

theorem cutQuoted?_cons_of_not {c : Char} (hc : Quoted.isQuote c = false) (text : List Char) :
    cutQuoted? (c :: text) = none := by
  simp [cutQuoted?, quoted?, hc]

theorem ne_backslash_of_isQuote {q : Char} (hq : Quoted.isQuote q = true) : q ≠ '\\' := by
  rintro rfl
  cases hq

theorem cutQuoted?_eq_literal? (cs : List Char) : cutQuoted? cs =
    (Quoted.literal? cs).map fun (body, rest) => (.quoted (String.ofList body), rest) := by
  cases cs with
  | nil => rfl
  | cons c text =>
    unfold Quoted.literal?
    by_cases hc : Quoted.isQuote c = true
    · rw [cutQuoted?_cons hc]
      rcases isQuote_iff.mp hc with rfl | rfl
      · rw [Quoted.enclosed?_cons_of_ne (by decide), Quoted.enclosed?_cons (by decide), Option.none_or]
      · rw [Quoted.enclosed?_cons (by decide), Quoted.enclosed?_cons_of_ne (by decide), Option.or_none]
    · have hneither := mt isQuote_iff.mpr hc
      rw [not_or] at hneither
      rw [cutQuoted?_cons_of_not (Bool.not_eq_true _ ▸ hc), Quoted.enclosed?_cons_of_ne hneither.1,
        Quoted.enclosed?_cons_of_ne hneither.2]
      rfl

theorem cutQuoted?_cons_eq_some_iff {q : Char} (hq : Quoted.isQuote q = true) {text rest : List Char}
    {token : Token} : cutQuoted? (q :: text) = some (token, rest) ↔
      ∃ i, Quoted.ClosesAt q text i ∧ token = .quoted (String.ofList (text.take i)) ∧
        rest = text.drop (i + 1) := by
  rw [cutQuoted?_cons hq, Option.map_eq_some_iff]
  constructor
  · rintro ⟨⟨b, behind⟩, hclose, htoken⟩
    obtain ⟨i, hi, rfl, rfl⟩ := (Quoted.close_eq_some_iff (ne_backslash_of_isQuote hq)).mp hclose
    cases htoken
    exact ⟨i, hi, rfl, rfl⟩
  · rintro ⟨i, hi, rfl, rfl⟩
    have hclose := (Quoted.close_eq_some_iff (ne_backslash_of_isQuote hq)).mpr ⟨i, hi, rfl, rfl⟩
    exact ⟨_, hclose, rfl⟩

/-- A quoted string is what a repetition of plain runs and escapes reads between two quotes. It is there if
and only if the text starts with a quote and a scan of what stands behind it, which passes over every
backslash together with the next character, meets that quote again before the text or its first line
ends. The token is the text up to that place, escapes and all, and the rest begins behind it. -/
theorem quoted_string_closes (cs : List Char) :
    cutQuoted? cs =
      (Quoted.literal? cs).map (fun (body, rest) => (.quoted (String.ofList body), rest)) ∧
    ∀ token rest, cutQuoted? cs = some (token, rest) ↔
      ∃ q text i, cs = q :: text ∧ (q = '"' ∨ q = '\'') ∧ Quoted.ClosesAt q text i ∧
        token = .quoted (String.ofList (text.take i)) ∧ rest = text.drop (i + 1) := by
  refine ⟨cutQuoted?_eq_literal? cs, fun token rest => ⟨fun h => ?_, fun he => ?_⟩⟩
  · cases cs with
    | nil => cases h
    | cons q text =>
      by_cases hq : Quoted.isQuote q = true
      · obtain ⟨i, hi, htoken, hrest⟩ := (cutQuoted?_cons_eq_some_iff hq).mp h
        exact ⟨q, text, i, rfl, isQuote_iff.mp hq, hi, htoken, hrest⟩
      · rw [cutQuoted?_cons_of_not (Bool.not_eq_true _ ▸ hq)] at h
        cases h
  · obtain ⟨q, text, i, rfl, hq, hi, htoken, hrest⟩ := he
    exact (cutQuoted?_cons_eq_some_iff (isQuote_iff.mpr hq)).mpr ⟨i, hi, htoken, hrest⟩

/-- The other kind of quote is plain text. -/
example : cutQuoted? "'it\\'s \"x\"' b".toList = some (.quoted "it\\'s \"x\"", " b".toList) := by
  cbv

/-- A newline ends the search, even behind a backslash. -/
example : cutQuoted? "'it\\\n's'".toList = none := by
  cbv

end Lexeme

end ActorHub
