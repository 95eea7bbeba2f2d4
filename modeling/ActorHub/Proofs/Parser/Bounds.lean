import ActorHub.Line
import ActorHub.Proofs.Parser.Loops

/-!
# Positions of parsers

A run goes forward and stays within the input. It ends behind what it took, or with a failure at an item
that it could reach, at the end, or at no place at all. So the error of a grammar names a token of the
line or its end (`run_ends_in_bounds`).
-/

namespace ActorHub

namespace Parser

section
variable {ι α : Type} {input : List ι}

/-! ## Places -/

theorem place_furthest (a b : Failure) : (a.furthest b).place = a.place ∨
    (a.furthest b).place = b.place := by
  unfold Failure.furthest
  split
  · exact .inr rfl
  · exact .inl rfl

theorem place_missing {length position i : Nat} (h : (missing length position).place = some (.item i)) :
    i = position ∧ position < length := by
  unfold missing at h
  split at h
  · cases h
  · next hlt =>
    cases h
    exact ⟨rfl, Nat.lt_of_not_le hlt⟩

theorem place_of_run {p : Parser ι α} {position i : Nat} {e : Failure} (hp : position ≤ input.length)
    (h : run input p position = .error e) (hi : e.place = some (.item i)) :
    position ≤ i ∧ i < input.length := by
  induction p generalizing position e with
  | satisfy f =>
    unfold run at h
    split at h
    · cases h
    · cases h
      obtain ⟨rfl, hlt⟩ := place_missing hi
      exact ⟨Nat.le_refl _, hlt⟩
  | noAlternative =>
    cases h
    cases hi
  | refuse message =>
    cases h
    cases hi
  | orElse p q ihp ihq =>
    unfold run at h
    split at h
    · cases h
    · next e₁ h₁ =>
      split at h
      · cases h
      · next e₂ h₂ =>
        cases h
        obtain hplace | hplace := place_furthest e₁ e₂
        · exact ihp hp h₁ (hplace ▸ hi)
        · exact ihq hp h₂ (hplace ▸ hi)
  | seq p q ihp ihq =>
    unfold run at h
    split at h
    · next e₁ h₁ =>
      cases h
      exact ihp hp h₁ hi
    · next behind x h₁ =>
      have hbehind := between_of_run hp h₁
      split at h
      · next e₂ h₂ =>
        cases h
        have hplace := ihq hbehind.2 h₂ hi
        exact ⟨Nat.le_trans hbehind.1 hplace.1, hplace.2⟩
      · cases h
  | map f p ih =>
    unfold run at h
    split at h
    · next e₁ h₁ =>
      cases h
      exact ih hp h₁ hi
    · cases h
  | many p ih => cases h
  | sepBy p separator ihp ihs =>
    unfold run at h
    split at h <;> cases h
  | allConsuming p ih =>
    unfold run at h
    split at h
    · next e₁ h₁ =>
      cases h
      exact ih hp h₁ hi
    · next stop x h₁ =>
      split at h
      · next hlt =>
        cases h
        cases hi
        exact ⟨(between_of_run hp h₁).1, hlt⟩
      · cases h
  | inContext message p ih =>
    unfold run at h
    split at h
    · next e₁ h₁ =>
      cases h
      exact ih hp h₁ hi
    · cases h

end

/-! ## Terms without idle lists -/

section
variable {ι α β : Type} {input : List ι}

theorem lt_of_run_satisfy {f : ι → Option α} {position stop : Nat} {x : α}
    (h : run input (satisfy f) position = .ok (stop, x)) : position < stop := by
  unfold run at h
  split at h
  · cases h
    exact Nat.lt_succ_self position
  · cases h

theorem exists_run_of_map {f : α → β} {p : Parser ι α} {position stop : Nat} {y : β}
    (h : run input (map f p) position = .ok (stop, y)) :
    ∃ x, run input p position = .ok (stop, x) := by
  unfold run at h
  split at h
  · cases h
  · next h₁ =>
    cases h
    exact ⟨_, h₁⟩

theorem lt_of_run_equal [DecidableEq ι] {c : ι} {position stop : Nat}
    (h : run input (asUnit (equal c)) position = .ok (stop, ())) : position < stop := by
  obtain ⟨x, hx⟩ := exists_run_of_map h
  exact lt_of_run_satisfy hx

theorem advances_sepBy {p : Parser ι α} {separator : Parser ι Unit} (hp : p.Advances input)
    (hs : separator.Advances input)
    (htakes : ∀ {position stop : Nat}, run input separator position = .ok (stop, ()) → position < stop) :
    (sepBy p separator).Advances input :=
  ⟨hp, hs, fun _ _ hmark => absurd (htakes hmark) (Nat.lt_irrefl _)⟩

theorem advances_choice {ps : List (Parser ι α)} (h : ∀ p ∈ ps, p.Advances input) :
    (choice ps).Advances input := by
  suffices hfold : ∀ q : Parser ι α, q.Advances input → (ps.foldl orElse q).Advances input from
    hfold noAlternative trivial
  induction ps with
  | nil => exact fun q hq => hq
  | cons p ps ih =>
    intro q hq
    exact ih (fun p hp => h p (List.mem_cons_of_mem _ hp)) _ ⟨hq, h p List.mem_cons_self⟩

end

end Parser

namespace Clause

open ActorHub.Parser

variable (tokens : List Token)

theorem advances_values : values.Advances tokens :=
  ⟨trivial, trivial, trivial, trivial⟩

theorem advances_keyword : keyword.Advances tokens := by
  refine advances_choice fun p hp => ?_
  simp only [List.mem_cons, List.not_mem_nil, or_false] at hp
  rcases hp with rfl | rfl | rfl
  · exact ⟨trivial, trivial⟩
  · exact ⟨trivial, advances_values tokens⟩
  · exact trivial

theorem advances_replyBody : replyBody.Advances tokens :=
  advances_sepBy (advances_keyword tokens) trivial lt_of_run_equal

theorem advances_verbWithValues : verbWithValues.Advances tokens := by
  refine ⟨advances_choice fun p hp => ?_, trivial, trivial⟩
  simp only [List.mem_cons, List.not_mem_nil, or_false] at hp
  rcases hp with rfl | rfl | rfl
  · exact ⟨trivial, trivial, trivial, trivial⟩
  · exact ⟨trivial, trivial⟩
  · exact ⟨trivial, trivial⟩

theorem advances_command : command.Advances tokens := by
  have hkeywords : keywords.Advances tokens := advances_keyword tokens
  refine advances_choice fun p hp => ?_
  simp only [List.mem_cons, List.not_mem_nil, or_false] at hp
  rcases hp with rfl | rfl | rfl | rfl | rfl
  · exact ⟨advances_verbWithValues tokens, hkeywords⟩
  · exact ⟨trivial, trivial, advances_values tokens, hkeywords⟩
  · exact ⟨trivial, trivial, trivial⟩
  · exact ⟨trivial, trivial, hkeywords⟩
  · exact trivial

end Clause

/-! ## Errors of lines -/

namespace Line

variable {α : Type} {tokens : List Token} {line : String}

inductive Names (tokens : List Token) (line : String) (e : Failure) : LineError → Prop
  | token {i : Nat} {t : Token} : e.place = some (.item i) → tokens[i]? = some t →
      Names tokens line e
        (.unexpectedToken t.kind (String.ofList (t.text.toList.take shownLength)) line)
  | inputEnd : e.place = some .inputEnd → Names tokens line e .unexpectedEnd
  | nowhere : e.place = none → Names tokens line e .unexpectedEnd

theorem names_grammarError {e : Failure}
    (h : ∀ i, e.place = some (.item i) → i < tokens.length) :
    Names tokens line e (grammarError tokens line e) := by
  unfold grammarError
  match hplace : e.place with
  | none => exact .nowhere hplace
  | some .inputEnd => exact .inputEnd hplace
  | some (.item i) =>
    have hi := h i hplace
    have ht : tokens[i]? = some tokens[i] := List.getElem?_eq_getElem hi
    simp only [ht]
    exact .token hplace ht

theorem readBody_eq_error_iff {mode : LexMode} {p : Parser Token α} {body : String} {err : LineError}
    (h : significantTokens mode body = .ok tokens) : readBody mode p body line = .error err ↔
      ∃ e, p.run tokens 0 = .error e ∧ err = grammarError tokens line e := by
  have hlexed : (significantTokens mode body).mapError LineError.lexical = .ok tokens := by
    rw [h]
    rfl
  rw [readBody, hlexed]
  cases hrun : p.run tokens 0 with
  | ok out => simp [bind, Except.bind, hrun, pure, Except.pure]
  | error e => simp [bind, Except.bind, hrun, throw, throwThe, MonadExceptOf.throw, eq_comm]

end Line

namespace Parser

/-- A term in which no list can go on without taking an item has one result, that of the rounds allowed.
It stops between the start and the end of the input. A failure is at no place, at the end, or at an item
between the start and the last one, so the error of a grammar names a token of the line or its end. -/
theorem run_ends_in_bounds {ι α : Type} {input : List ι} {p : Parser ι α} (h : p.Advances input)
    {position : Nat} (hp : position ≤ input.length) :
    (∀ r, Runs input p position r ↔ r = run input p position) ∧
    (∀ stop x, run input p position = .ok (stop, x) → position ≤ stop ∧ stop ≤ input.length) ∧
    (∀ e, run input p position = .error e → e.place = none ∨ e.place = some .inputEnd ∨
      ∃ i, e.place = some (.item i) ∧ position ≤ i ∧ i < input.length) ∧
    ∀ {β : Type} (q : Parser Token β) mode body line tokens err,
      significantTokens mode body = .ok tokens → Line.readBody mode q body line = .error err →
      ∃ e, q.run tokens 0 = .error e ∧ Line.Names tokens line e err := by
  refine ⟨runs_iff h hp, fun stop x => between_of_run hp, fun e he => ?_, ?_⟩
  · match hplace : e.place with
    | none => exact .inl rfl
    | some .inputEnd => exact .inr (.inl rfl)
    | some (.item i) => exact .inr (.inr ⟨i, rfl, place_of_run hp he hplace⟩)
  · intro β q mode body line tokens err htokens herr
    obtain ⟨e, he, rfl⟩ := (Line.readBody_eq_error_iff htokens).mp herr
    exact ⟨e, he, Line.names_grammarError fun i hi => (place_of_run (Nat.zero_le _) he hi).2⟩

/-- The body `a=1;` is read up to the separator, which the error names. -/
theorem run_ends_in_bounds_separator :
    let tokens := [.name "a", .delimiter .equals, .value "1", .delimiter .semicolon]
    Clause.replyBody.Advances tokens ∧ 0 ≤ tokens.length ∧
    ∀ r, Runs tokens Clause.replyBody 0 r ↔ r = .error (.inContext "reply" (.unexpected 3)) := by
  intro tokens
  have h : Clause.replyBody.Advances tokens := Clause.advances_replyBody tokens
  exact ⟨h, Nat.zero_le _, (run_ends_in_bounds h (Nat.zero_le _)).1⟩

end Parser

end ActorHub
