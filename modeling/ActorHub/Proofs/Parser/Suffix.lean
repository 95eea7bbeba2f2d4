import ActorHub.Parser

/-!
# Parsers on the items that are left

`Parser.run` counts places in one input. `Parser.parse` reads the same terms as functions on the
items that are left, and forgets why a parser failed. `run_agrees` relates the two for every term,
so grammars are analysed on lists.
-/

namespace ActorHub.Parser

section
variable {ι α β : Type}

def parseMany (step : List ι → Option (α × List ι)) : Nat → List ι → List α × List ι
  | 0, ts => ([], ts)
  | rounds + 1, ts =>
    match step ts with
    | none => ([], ts)
    | some (x, rest) =>
      if rest.length = ts.length then ([], ts)
      else
        let (xs, rest) := parseMany step rounds rest
        (x :: xs, rest)

def parseSeparated (item : List ι → Option (α × List ι))
    (separator : List ι → Option (Unit × List ι)) :
    Nat → List ι → List α × List ι
  | 0, ts => ([], ts)
  | rounds + 1, ts =>
    match separator ts with
    | none => ([], ts)
    | some (_, behind) =>
      match item behind with
      | none => ([], ts)
      | some (x, rest) =>
        let (xs, rest) := parseSeparated item separator rounds rest
        (x :: xs, rest)

end

/-- The value that a parser finds at the front of the items, and the items behind it. -/
def parse {ι α : Type} (p : Parser ι α) (ts : List ι) : Option (α × List ι) :=
  match p with
  | satisfy f =>
    match ts with
    | [] => none
    | t :: rest => (f t).map fun x => (x, rest)
  | noAlternative | refuse _ => none
  | orElse p q => (p.parse ts).or (q.parse ts)
  | seq p q => (p.parse ts).bind fun (x, rest) => (q.parse rest).map fun (y, rest) => ((x, y), rest)
  | map f p => (p.parse ts).map fun (x, rest) => (f x, rest)
  | many p => some (parseMany p.parse ts.length ts)
  | sepBy p separator =>
    match p.parse ts with
    | none => some ([], ts)
    | some (x, rest) =>
      let (xs, rest) := parseSeparated p.parse separator.parse rest.length rest
      some (x :: xs, rest)
  | allConsuming p => (p.parse ts).filter fun (_, rest) => rest.isEmpty
  | inContext _ p => p.parse ts

section
variable {ι α β : Type} {input : List ι}

inductive Agrees (input : List ι) (position : Nat) : Result α → Option (α × List ι) → Prop
  | ok {next : Nat} {x : α} : position ≤ next → next ≤ input.length →
      Agrees input position (.ok (next, x)) (some (x, input.drop next))
  | error {e : Failure} : Agrees input position (.error e) none

theorem Agrees.outcome {position : Nat} {r : Result α} {o : Option (α × List ι)}
    (h : Agrees input position r o) : (∃ e, r = .error e ∧ o = none) ∨
      ∃ next x, r = .ok (next, x) ∧ o = some (x, input.drop next) ∧ position ≤ next ∧
        next ≤ input.length := by
  cases h with
  | error => exact .inl ⟨_, rfl, rfl⟩
  | ok hle hnext => exact .inr ⟨_, _, rfl, rfl, hle, hnext⟩

theorem repeatRun_agrees {step : Nat → Result α} {f : List ι → Option (α × List ι)}
    (h : ∀ position ≤ input.length, Agrees input position (step position) (f (input.drop position)))
    (rounds : Nat) {position : Nat} (hp : position ≤ input.length) :
    Agrees input position (.ok (repeatRun step rounds position))
      (some (parseMany f rounds (input.drop position))) := by
  induction rounds generalizing position with
  | zero => exact .ok (Nat.le_refl _) hp
  | succ rounds ih =>
    unfold repeatRun parseMany
    rcases (h position hp).outcome with ⟨e, hr, ho⟩ | ⟨next, x, hr, ho, hle, hnext⟩
    · rw [hr, ho]
      exact .ok (Nat.le_refl _) hp
    · -- both stop at a round that takes nothing
      have hsame : (input.drop next).length = (input.drop position).length ↔ next = position := by
        simp only [List.length_drop]; omega
      simp only [hr, ho, hsame]
      split
      · exact .ok (Nat.le_refl _) hp
      · rcases (ih hnext).outcome with ⟨e, hr', -⟩ | ⟨stop, xs, hr', ho', hle', hstop⟩
        · cases hr'
        · rw [Except.ok.inj hr', Option.some.inj ho']
          exact .ok (Nat.le_trans hle hle') hstop

theorem repeatSeparated_agrees {item : Nat → Result α} {separator : Nat → Result Unit}
    {f : List ι → Option (α × List ι)} {g : List ι → Option (Unit × List ι)}
    (hf : ∀ position ≤ input.length, Agrees input position (item position) (f (input.drop position)))
    (hg : ∀ position ≤ input.length,
      Agrees input position (separator position) (g (input.drop position)))
    (rounds : Nat) {position : Nat} (hp : position ≤ input.length) :
    Agrees input position (.ok (repeatSeparated item separator rounds position))
      (some (parseSeparated f g rounds (input.drop position))) := by
  induction rounds generalizing position with
  | zero => exact .ok (Nat.le_refl _) hp
  | succ rounds ih =>
    unfold repeatSeparated parseSeparated
    rcases (hg position hp).outcome with ⟨e, hr, ho⟩ | ⟨behind, u, hr, ho, hle, hbehind⟩
    · rw [hr, ho]
      exact .ok (Nat.le_refl _) hp
    · simp only [hr, ho]
      rcases (hf behind hbehind).outcome with ⟨e, hr, ho⟩ | ⟨next, x, hr, ho, hle', hnext⟩
      · rw [hr, ho]
        exact .ok (Nat.le_refl _) hp
      · simp only [hr, ho]
        rcases (ih hnext).outcome with ⟨e, hr', -⟩ | ⟨stop, xs, hr', ho', hle'', hstop⟩
        · cases hr'
        · rw [Except.ok.inj hr', Option.some.inj ho']
          exact .ok (by omega) hstop

theorem run_agrees (p : Parser ι α) {position : Nat} (hp : position ≤ input.length) :
    Agrees input position (run input p position) (p.parse (input.drop position)) := by
  induction p generalizing position with
  | satisfy f =>
    unfold run parse
    cases hi : input[position]? with
    | none =>
      rw [List.drop_eq_nil_of_le (List.getElem?_eq_none_iff.mp hi)]
      exact .error
    | some t =>
      obtain ⟨hlt, rfl⟩ := List.getElem?_eq_some_iff.mp hi
      rw [List.drop_eq_getElem_cons hlt]
      simp only [Option.bind_some]
      cases hf : f input[position] with
      | none => exact .error
      | some x => exact .ok (by omega) hlt
  | noAlternative | refuse => exact .error
  | orElse p q ihp ihq =>
    unfold run parse
    rcases (ihp hp).outcome with ⟨e, hr, ho⟩ | ⟨next, x, hr, ho, hle, hnext⟩
    · rw [hr, ho, Option.none_or]
      rcases (ihq hp).outcome with ⟨e', hr, ho⟩ | ⟨next, x, hr, ho, hle, hnext⟩
      · rw [hr, ho]
        exact .error
      · rw [hr, ho]
        exact .ok hle hnext
    · rw [hr, ho]
      exact .ok hle hnext
  | seq p q ihp ihq =>
    unfold run parse
    rcases (ihp hp).outcome with ⟨e, hr, ho⟩ | ⟨next, x, hr, ho, hle, hnext⟩
    · rw [hr, ho]
      exact .error
    · simp only [hr, ho, Option.bind_some]
      rcases (ihq hnext).outcome with ⟨e, hr, ho⟩ | ⟨stop, y, hr, ho, hle', hstop⟩
      · rw [hr, ho]
        exact .error
      · rw [hr, ho]
        exact .ok (Nat.le_trans hle hle') hstop
  | map f p ih =>
    unfold run parse
    rcases (ih hp).outcome with ⟨e, hr, ho⟩ | ⟨next, x, hr, ho, hle, hnext⟩
    · rw [hr, ho]
      exact .error
    · rw [hr, ho]
      exact .ok hle hnext
  | many p ih =>
    unfold run parse
    rw [List.length_drop]
    exact repeatRun_agrees (fun _ h => ih h) (input.length - position) hp
  | sepBy p separator ihp ihs =>
    unfold run parse
    rcases (ihp hp).outcome with ⟨e, hr, ho⟩ | ⟨next, x, hr, ho, hle, hnext⟩
    · rw [hr, ho]
      exact .ok (Nat.le_refl _) hp
    · have hrest := repeatSeparated_agrees (fun _ h => ihp h) (fun _ h => ihs h)
        (input.length - next) hnext
      simp only [hr, ho, List.length_drop]
      rcases hrest.outcome with ⟨e, hr', -⟩ | ⟨stop, xs, hr', ho', hle', hstop⟩
      · cases hr'
      · rw [Except.ok.inj hr', Option.some.inj ho']
        exact .ok (Nat.le_trans hle hle') hstop
  | allConsuming p ih =>
    unfold run parse
    rcases (ih hp).outcome with ⟨e, hr, ho⟩ | ⟨next, x, hr, ho, hle, hnext⟩
    · rw [hr, ho]
      exact .error
    · simp only [hr, ho]
      by_cases hlt : next < input.length
      · rw [if_pos hlt, Option.filter_some_neg (by simpa using hlt)]
        exact .error
      · rw [if_neg hlt, Option.filter_some_pos (by simpa using hlt)]
        exact .ok hle hnext
  | inContext m p ih =>
    unfold run parse
    rcases (ih hp).outcome with ⟨e, hr, ho⟩ | ⟨next, x, hr, ho, hle, hnext⟩
    · rw [hr, ho]
      exact .error
    · rw [hr, ho]
      exact .ok hle hnext

theorem exists_run_iff {p : Parser ι α} {x : α} :
    (∃ stop, run input p 0 = .ok (stop, x)) ↔ ∃ rest, p.parse input = some (x, rest) := by
  have h := run_agrees p (Nat.zero_le input.length)
  rw [List.drop_zero] at h
  rcases h.outcome with ⟨e, hr, ho⟩ | ⟨next, y, hr, ho, -, -⟩
  · simp [hr, ho]
  · simp [hr, ho]

/-- A run of a parser that reads an input as a whole or not at all stops behind the last item. -/
theorem run_eq_ok_iff {p : Parser ι α} (hp : ∀ {x rest}, p.parse input = some (x, rest) → rest = [])
    {stop : Nat} {x : α} :
    run input p 0 = .ok (stop, x) ↔ stop = input.length ∧ p.parse input = some (x, []) := by
  have h := run_agrees p (Nat.zero_le input.length)
  rw [List.drop_zero] at h
  rcases h.outcome with ⟨e, hr, ho⟩ | ⟨next, y, hr, ho, -, hnext⟩
  · simp [hr, ho]
  · have hrest := hp ho
    have hstop : next = input.length := Nat.le_antisymm hnext (List.drop_eq_nil_iff.mp hrest)
    rw [hrest] at ho
    rw [hr, ho, hstop]
    simp [eq_comm]

/-! ## Combinators -/

section
variable {ts rest : List ι}

theorem parse_map {f : α → β} {p : Parser ι α} {y : β} :
    (map f p).parse ts = some (y, rest) ↔ ∃ x, p.parse ts = some (x, rest) ∧ f x = y := by
  simp [parse, Option.map_eq_some_iff]

theorem parse_seq {p : Parser ι α} {q : Parser ι β} {x : α} {y : β} :
    (seq p q).parse ts = some ((x, y), rest) ↔
      ∃ mid, p.parse ts = some (x, mid) ∧ q.parse mid = some (y, rest) := by
  simp only [parse, Option.bind_eq_some_iff, Option.map_eq_some_iff, Prod.exists, Prod.mk.injEq]
  constructor
  · rintro ⟨_, mid, hp, _, _, hq, ⟨rfl, rfl⟩, rfl⟩; exact ⟨mid, hp, hq⟩
  · rintro ⟨mid, hp, hq⟩; exact ⟨x, mid, hp, y, rest, hq, ⟨rfl, rfl⟩, rfl⟩

theorem parse_preceded {p : Parser ι Unit} {q : Parser ι α} {x : α} :
    (preceded p q).parse ts = some (x, rest) ↔
      ∃ mid, p.parse ts = some ((), mid) ∧ q.parse mid = some (x, rest) := by
  rw [preceded, parse_map]
  constructor
  · rintro ⟨⟨_, _⟩, h, rfl⟩; exact parse_seq.mp h
  · intro h; exact ⟨((), x), parse_seq.mpr h, rfl⟩

theorem parse_inContext (message : String) (p : Parser ι α) :
    (inContext message p).parse ts = p.parse ts :=
  rfl

theorem parse_choice (ps : List (Parser ι α)) :
    (choice ps).parse ts = ps.findSome? fun p => p.parse ts := by
  suffices h : ∀ q : Parser ι α, (ps.foldl orElse q).parse ts =
      (q.parse ts).or (ps.findSome? fun p => p.parse ts) by
    rw [choice, h]; rfl
  induction ps with
  | nil => simp
  | cons p ps ih =>
    intro q
    rw [List.foldl_cons, ih, parse, Option.or_assoc, List.findSome?_cons]
    cases p.parse ts <;> simp

theorem parse_choice_mem {ps : List (Parser ι α)} {r : α × List ι}
    (h : (choice ps).parse ts = some r) : ∃ p ∈ ps, p.parse ts = some r := by
  rw [parse_choice] at h
  exact List.exists_of_findSome?_eq_some h

theorem parse_allConsuming {p : Parser ι α} {x : α} :
    (allConsuming p).parse ts = some (x, rest) ↔ p.parse ts = some (x, []) ∧ rest = [] := by
  simp only [parse, Option.filter_eq_some_iff, List.isEmpty_iff]
  constructor
  · rintro ⟨h, rfl⟩; exact ⟨h, rfl⟩
  · rintro ⟨h, rfl⟩; exact ⟨h, rfl⟩

end

/-! ## Repetition

A round that takes an item leaves fewer of them, so the number of rounds that are allowed does not
matter once it is large enough. -/

theorem length_le_of_parse {p : Parser ι α} {ts rest : List ι} {x : α}
    (h : p.parse ts = some (x, rest)) : rest.length ≤ ts.length := by
  have hr := run_agrees p (Nat.zero_le ts.length)
  rw [List.drop_zero, h] at hr
  rcases hr.outcome with ⟨e, -, ho⟩ | ⟨next, y, -, ho, -, -⟩
  · cases ho
  · cases ho
    rw [List.length_drop]
    omega

theorem parseMany_rounds (p : Parser ι α) {rounds : Nat} {ts : List ι} (h : ts.length ≤ rounds) :
    parseMany p.parse rounds ts = parseMany p.parse ts.length ts := by
  induction rounds using Nat.strongRecOn generalizing ts with
  | ind rounds ih =>
    cases rounds with
    | zero => rw [Nat.le_zero.mp h]
    | succ rounds =>
      cases ts with
      | nil =>
        unfold parseMany
        cases hp : p.parse ([] : List ι) with
        | none => rfl
        | some r =>
          have := length_le_of_parse hp
          simp only [List.length_nil, Nat.le_zero] at this
          simp [this]
      | cons t ts =>
        rw [List.length_cons, parseMany, parseMany]
        cases hp : p.parse (t :: ts) with
        | none => rfl
        | some r =>
          obtain ⟨x, rest⟩ := r
          have hle := length_le_of_parse hp
          simp only [List.length_cons] at hle h ⊢
          split
          · rfl
          · rw [ih rounds (by omega) (show rest.length ≤ rounds by omega),
              ih ts.length (by omega) (show rest.length ≤ ts.length by omega)]

theorem parse_many_eq (p : Parser ι α) (ts : List ι) : (many p).parse ts =
    match p.parse ts with
    | none => some ([], ts)
    | some (x, rest) =>
      if rest.length = ts.length then some ([], ts)
      else ((many p).parse rest).map fun (xs, rest) => (x :: xs, rest) := by
  rw [parse]
  cases hp : p.parse ts with
  | none => cases ts <;> simp [parseMany, hp]
  | some r =>
    obtain ⟨x, rest⟩ := r
    have hle := length_le_of_parse hp
    cases ts with
    | nil =>
      simp only [List.length_nil, Nat.le_zero] at hle
      simp [parseMany, hle]
    | cons t ts =>
      rw [List.length_cons, parseMany, hp]
      simp only [List.length_cons] at hle ⊢
      split
      · rfl
      · rw [parseMany_rounds p (show rest.length ≤ ts.length by omega), parse]
        rfl

theorem parseSeparated_eq_parseMany (p : Parser ι α) {separator : Parser ι Unit}
    (hs : ∀ ts u rest, separator.parse ts = some (u, rest) → rest.length < ts.length)
    (rounds : Nat) (ts : List ι) : parseSeparated p.parse separator.parse rounds ts =
      parseMany (preceded separator p).parse rounds ts := by
  induction rounds generalizing ts with
  | zero => rfl
  | succ rounds ih =>
    rw [parseSeparated, parseMany]
    cases hsep : separator.parse ts with
    | none => simp [preceded, parse, hsep]
    | some r =>
      obtain ⟨u, behind⟩ := r
      have hlt := hs _ _ _ hsep
      cases hp : p.parse behind with
      | none => simp [preceded, parse, hsep, hp]
      | some r =>
        obtain ⟨x, rest⟩ := r
        have hle := length_le_of_parse hp
        have hne : rest.length ≠ ts.length := by omega
        simp [preceded, parse, hsep, hp, hne, ih]

theorem parse_sepBy_eq (p : Parser ι α) {separator : Parser ι Unit}
    (hs : ∀ ts u rest, separator.parse ts = some (u, rest) → rest.length < ts.length)
    (ts : List ι) : (sepBy p separator).parse ts =
    match p.parse ts with
    | none => some ([], ts)
    | some (x, rest) =>
      ((many (preceded separator p)).parse rest).map fun (xs, rest) => (x :: xs, rest) := by
  rw [parse]
  cases hp : p.parse ts with
  | none => rfl
  | some r =>
    simp only [parseSeparated_eq_parseMany p hs]
    rfl

/-! ## Sequences

What a repeated parser reads is a sequence of pieces, each of which the parser reads. -/

inductive Sequence (P : List ι → α → Prop) : List ι → List α → Prop
  | nil : Sequence P [] []
  | cons {piece ts : List ι} {x : α} {xs : List α} : P piece x → Sequence P ts xs →
      Sequence P (piece ++ ts) (x :: xs)

section
variable {P : List ι → α → Prop} {p : Parser ι α}

theorem sequence_of_parse_many
    (hp : ∀ ts x rest, p.parse ts = some (x, rest) → ∃ piece, ts = piece ++ rest ∧ P piece x)
    {ts rest : List ι} {xs : List α} (h : (many p).parse ts = some (xs, rest)) :
    ∃ front, ts = front ++ rest ∧ Sequence P front xs := by
  induction hn : ts.length using Nat.strongRecOn generalizing ts xs with
  | ind n ih =>
    rw [parse_many_eq] at h
    cases hone : p.parse ts with
    | none =>
      rw [hone] at h
      cases h
      exact ⟨[], rfl, .nil⟩
    | some r =>
      obtain ⟨x, behind⟩ := r
      simp only [hone] at h
      split at h
      · cases h
        exact ⟨[], rfl, .nil⟩
      · rename_i hne
        obtain ⟨⟨ys, rest'⟩, hmany, he⟩ := Option.map_eq_some_iff.mp h
        simp only [Prod.mk.injEq] at he
        obtain ⟨rfl, rfl⟩ := he
        have hle := length_le_of_parse hone
        obtain ⟨piece, rfl, hpiece⟩ := hp _ _ _ hone
        obtain ⟨front, rfl, hfront⟩ := ih behind.length (by omega) hmany rfl
        exact ⟨piece ++ front, by rw [List.append_assoc], .cons hpiece hfront⟩

theorem parse_many_of_sequence (Follow : List ι → Prop)
    (hp : ∀ {piece : List ι} {x : α} {rest : List ι}, P piece x → Follow rest →
      piece ≠ [] ∧ p.parse (piece ++ rest) = some (x, rest))
    (hfollow : ∀ {piece : List ι} {x : α} (rest : List ι), P piece x → Follow (piece ++ rest))
    {front rest : List ι} {xs : List α} (hrest : Follow rest) (hstop : p.parse rest = none)
    (h : Sequence P front xs) : (many p).parse (front ++ rest) = some (xs, rest) := by
  induction h with
  | nil => rw [parse_many_eq, List.nil_append, hstop]
  | @cons piece ts x xs hpiece hts ih =>
    have hnext : Follow (ts ++ rest) := by
      cases hts with
      | nil => exact hrest
      | cons hpiece' _ => rw [List.append_assoc]; exact hfollow _ hpiece'
    obtain ⟨hne, hone⟩ := hp hpiece hnext
    have := List.length_pos_iff.mpr hne
    rw [parse_many_eq, List.append_assoc, hone]
    simp only [List.length_append]
    rw [if_neg (by omega), ih]
    rfl

theorem exists_parse_many (p : Parser ι α) (ts : List ι) :
    ∃ xs rest, (many p).parse ts = some (xs, rest) ∧ rest.length ≤ ts.length := by
  obtain ⟨xs, rest, h⟩ : ∃ xs rest, (many p).parse ts = some (xs, rest) := ⟨_, _, rfl⟩
  exact ⟨xs, rest, h, length_le_of_parse h⟩

/-- Repetition goes at least as far as any sequence of pieces. Only behind the last piece, where
anything may follow, it can go further. -/
theorem parse_many_reaches (Follow : List ι → Prop)
    (hp : ∀ {piece : List ι} {x : α} {rest : List ι}, P piece x → Follow rest →
      piece ≠ [] ∧ p.parse (piece ++ rest) = some (x, rest))
    (hlast : ∀ {piece : List ι} {x : α} (rest : List ι), P piece x →
      ∃ y rest', p.parse (piece ++ rest) = some (y, rest') ∧ rest'.length ≤ rest.length)
    (hfollow : ∀ {piece : List ι} {x : α} (rest : List ι), P piece x → Follow (piece ++ rest))
    (hnil : Follow []) {front : List ι} {xs : List α} (h : Sequence P front xs) (rest : List ι) :
    ∃ ys rest', (many p).parse (front ++ rest) = some (ys, rest') ∧ rest'.length ≤ rest.length := by
  induction h with
  | nil => exact exists_parse_many p rest
  | @cons piece ts x xs hpiece hts ih =>
    have hlen := List.length_pos_iff.mpr (hp hpiece hnil).1
    rw [parse_many_eq, List.append_assoc]
    cases hts with
    | nil =>
      obtain ⟨y, behind, hone, hle⟩ := hlast rest hpiece
      obtain ⟨ys, rest', hmany, hle'⟩ := exists_parse_many p behind
      rw [List.nil_append, hone]
      simp only [List.length_append]
      rw [if_neg (by omega), hmany]
      exact ⟨_, _, rfl, Nat.le_trans hle' hle⟩
    | @cons piece' ts' x' xs' hpiece' _ =>
      obtain ⟨ys, rest', hmany, hle⟩ := ih
      have hnext : Follow ((piece' ++ ts') ++ rest) := by
        rw [List.append_assoc]; exact hfollow _ hpiece'
      rw [(hp hpiece hnext).2]
      simp only [List.length_append] at hlen ⊢
      rw [if_neg (by omega), hmany]
      exact ⟨_, _, rfl, hle⟩

end

end

end ActorHub.Parser
