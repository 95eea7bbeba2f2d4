import ActorHub.Proofs.Parser.Suffix

/-!
# Loops of parsers

`Parser.run` allows a loop as many rounds as there are items left. `Runs` says what the same terms come
to when a loop goes on until it stops by itself, so that a loop which never stops has no result. The two
agree on every term in which no list can go on without taking an item (`runs_iff`).
-/

namespace ActorHub.Parser

/-! ## Loops without a limit -/

section
variable {α : Type}

inductive Repeats (step : Nat → Result α → Prop) : Nat → Nat × List α → Prop
  | failed {position : Nat} {e : Failure} : step position (.error e) →
      Repeats step position (position, [])
  | idle {position : Nat} {x : α} : step position (.ok (position, x)) →
      Repeats step position (position, [])
  | next {position behind stop : Nat} {x : α} {xs : List α} : step position (.ok (behind, x)) →
      behind ≠ position → Repeats step behind (stop, xs) → Repeats step position (stop, x :: xs)

inductive RepeatsSeparated (item : Nat → Result α → Prop) (separator : Nat → Result Unit → Prop) :
    Nat → Nat × List α → Prop
  | noSeparator {position : Nat} {e : Failure} : separator position (.error e) →
      RepeatsSeparated item separator position (position, [])
  | noItem {position behind : Nat} {e : Failure} : separator position (.ok (behind, ())) →
      item behind (.error e) → RepeatsSeparated item separator position (position, [])
  | next {position behind after stop : Nat} {x : α} {xs : List α} :
      separator position (.ok (behind, ())) → item behind (.ok (after, x)) →
      RepeatsSeparated item separator after (stop, xs) →
      RepeatsSeparated item separator position (stop, x :: xs)

end

/-- The parser, run from a position with loops of any length, comes to the result. -/
def Runs {ι α : Type} (input : List ι) (p : Parser ι α) (position : Nat) (r : Result α) : Prop :=
  match p with
  | satisfy f => r = run input (satisfy f) position
  | noAlternative => r = .error .noAlternative
  | refuse message => r = .error (.refused message)
  | orElse p q => ∃ first, Runs input p position first ∧
      match first with
      | .ok _ => r = first
      | .error e => ∃ second, Runs input q position second ∧
        r = second.mapError e.furthest
  | seq p q => ∃ first, Runs input p position first ∧
      match first with
      | .error e => r = .error e
      | .ok (behind, x) => ∃ second, Runs input q behind second ∧
        r = second.map fun (stop, y) => (stop, (x, y))
  | map f p => ∃ out, Runs input p position out ∧ r = out.map fun (stop, x) => (stop, f x)
  | many p => ∃ out, Repeats (Runs input p) position out ∧ r = .ok out
  | sepBy p separator => ∃ first, Runs input p position first ∧
      match first with
      | .error _ => r = .ok (position, [])
      | .ok (behind, x) => ∃ stop xs,
        RepeatsSeparated (Runs input p) (Runs input separator) behind (stop, xs) ∧
        r = .ok (stop, x :: xs)
  | allConsuming p => ∃ out, Runs input p position out ∧
      r = out.bind fun (stop, x) =>
        if stop < input.length then .error (.unexpected stop) else .ok (stop, x)
  | inContext message p => ∃ out, Runs input p position out ∧ r = out.mapError (.inContext message)

/-- No list can go on without taking an item: where a separator takes nothing, no item takes nothing. -/
def Advances {ι α : Type} (input : List ι) (p : Parser ι α) : Prop :=
  match p with
  | satisfy _ | noAlternative | refuse _ => True
  | orElse p q => p.Advances input ∧ q.Advances input
  | seq p q => p.Advances input ∧ q.Advances input
  | map _ p | many p | allConsuming p | inContext _ p => p.Advances input
  | sepBy p separator => p.Advances input ∧ separator.Advances input ∧
      ∀ position ≤ input.length, run input separator position = .ok (position, ()) →
        ∀ x, run input p position ≠ .ok (position, x)

/-! ## Rounds

As many rounds as there are items left are enough: a round that does not end the loop takes one. -/

section
variable {α : Type} {length : Nat}

/-- The step comes to what the function says, which lies ahead and within the input. -/
structure Computes (length : Nat) (f : Nat → Result α) (step : Nat → Result α → Prop) : Prop where
  iff : ∀ {position : Nat}, position ≤ length → ∀ r, step position r ↔ r = f position
  ahead : ∀ {position stop : Nat} {x : α}, position ≤ length → f position = .ok (stop, x) →
    position ≤ stop ∧ stop ≤ length

variable {f : Nat → Result α} {step : Nat → Result α → Prop} {out : Nat × List α}

theorem repeats_repeatRun (h : Computes length f step) {rounds position : Nat}
    (hp : position ≤ length) (hrounds : length - position ≤ rounds) :
    Repeats step position (repeatRun f rounds position) := by
  induction rounds generalizing position with
  | zero =>
    cases hf : f position with
    | error e => exact .failed ((h.iff hp _).mpr hf.symm)
    | ok r =>
      obtain ⟨behind, x⟩ := r
      have hbehind := h.ahead hp hf
      obtain rfl : behind = position := by omega
      exact .idle ((h.iff hp _).mpr hf.symm)
  | succ rounds ih =>
    unfold repeatRun
    cases hf : f position with
    | error e => exact .failed ((h.iff hp _).mpr hf.symm)
    | ok r =>
      obtain ⟨behind, x⟩ := r
      have hstep : step position (.ok (behind, x)) := (h.iff hp _).mpr hf.symm
      have hbehind := h.ahead hp hf
      dsimp only
      split
      · next hsame =>
        subst hsame
        exact .idle hstep
      · next hne => exact .next hstep hne (ih hbehind.2 (by omega))

theorem eq_repeatRun (h : Computes length f step) {rounds position : Nat} (hp : position ≤ length)
    (hrounds : length - position ≤ rounds) (hout : Repeats step position out) :
    out = repeatRun f rounds position := by
  induction hout generalizing rounds with
  | failed he =>
    rw [h.iff hp] at he
    cases rounds <;> simp [repeatRun, ← he]
  | idle hx =>
    rw [h.iff hp] at hx
    cases rounds <;> simp [repeatRun, ← hx]
  | @next position behind stop x xs hx hne _ ih =>
    rw [h.iff hp] at hx
    have hbehind := h.ahead hp hx.symm
    obtain ⟨rounds, rfl⟩ : ∃ n, rounds = n + 1 := ⟨rounds - 1, by omega⟩
    have hrest : (stop, xs) = repeatRun f rounds behind := ih hbehind.2 (by omega)
    simp [repeatRun, ← hx, hne, ← hrest]

variable {g : Nat → Result Unit} {separator : Nat → Result Unit → Prop}

theorem round_advances (hf : Computes length f step) (hg : Computes length g separator)
    (hadvance : ∀ position ≤ length, g position = .ok (position, ()) →
      ∀ x, f position ≠ .ok (position, x))
    {position behind after : Nat} {x : α} (hp : position ≤ length)
    (hmark : g position = .ok (behind, ())) (hitem : f behind = .ok (after, x)) :
    position < after ∧ after ≤ length := by
  have hbehind := hg.ahead hp hmark
  have hafter := hf.ahead hbehind.2 hitem
  rcases Nat.lt_or_ge position after with hlt | hge
  · exact ⟨hlt, hafter.2⟩
  · obtain rfl : behind = position := by omega
    obtain rfl : after = behind := by omega
    exact absurd hitem (hadvance after hp hmark x)

theorem repeatsSeparated_repeatSeparated (hf : Computes length f step)
    (hg : Computes length g separator)
    (hadvance : ∀ position ≤ length, g position = .ok (position, ()) →
      ∀ x, f position ≠ .ok (position, x))
    {rounds position : Nat} (hp : position ≤ length) (hrounds : length - position ≤ rounds) :
    RepeatsSeparated step separator position (repeatSeparated f g rounds position) := by
  induction rounds generalizing position with
  | zero =>
    cases hmark : g position with
    | error e => exact .noSeparator ((hg.iff hp _).mpr hmark.symm)
    | ok r =>
      obtain ⟨behind, _⟩ := r
      have hbehind := hg.ahead hp hmark
      cases hitem : f behind with
      | error e => exact .noItem ((hg.iff hp _).mpr hmark.symm) ((hf.iff hbehind.2 _).mpr hitem.symm)
      | ok r =>
        -- at the end of the input there is nothing left to take
        have hafter := round_advances hf hg hadvance hp hmark hitem
        omega
  | succ rounds ih =>
    unfold repeatSeparated
    cases hmark : g position with
    | error e => exact .noSeparator ((hg.iff hp _).mpr hmark.symm)
    | ok r =>
      obtain ⟨behind, _⟩ := r
      have hbehind := hg.ahead hp hmark
      have hseparator : separator position (.ok (behind, ())) := (hg.iff hp _).mpr hmark.symm
      dsimp only
      cases hitem : f behind with
      | error e => exact .noItem hseparator ((hf.iff hbehind.2 _).mpr hitem.symm)
      | ok r =>
        obtain ⟨after, x⟩ := r
        have hafter := round_advances hf hg hadvance hp hmark hitem
        exact .next hseparator ((hf.iff hbehind.2 _).mpr hitem.symm) (ih hafter.2 (by omega))

theorem eq_repeatSeparated (hf : Computes length f step) (hg : Computes length g separator)
    (hadvance : ∀ position ≤ length, g position = .ok (position, ()) →
      ∀ x, f position ≠ .ok (position, x))
    {rounds position : Nat} (hp : position ≤ length) (hrounds : length - position ≤ rounds)
    (hout : RepeatsSeparated step separator position out) :
    out = repeatSeparated f g rounds position := by
  induction hout generalizing rounds with
  | noSeparator he =>
    rw [hg.iff hp] at he
    cases rounds <;> simp [repeatSeparated, ← he]
  | noItem hmark he =>
    rw [hg.iff hp] at hmark
    rw [hf.iff (hg.ahead hp hmark.symm).2] at he
    cases rounds <;> simp [repeatSeparated, ← hmark, ← he]
  | @next position behind after stop x xs hmark hitem _ ih =>
    rw [hg.iff hp] at hmark
    rw [hf.iff (hg.ahead hp hmark.symm).2] at hitem
    have hafter := round_advances hf hg hadvance hp hmark.symm hitem.symm
    obtain ⟨rounds, rfl⟩ : ∃ n, rounds = n + 1 := ⟨rounds - 1, by omega⟩
    have hrest : (stop, xs) = repeatSeparated f g rounds after := ih hafter.2 (by omega)
    simp [repeatSeparated, ← hmark, ← hitem, ← hrest]

end

/-! ## Terms -/

section
variable {ι α : Type} {input : List ι}

theorem between_of_run {p : Parser ι α} {position stop : Nat} {x : α} (hp : position ≤ input.length)
    (h : run input p position = .ok (stop, x)) : position ≤ stop ∧ stop ≤ input.length := by
  rcases (run_agrees p hp).outcome with ⟨e, hr, -⟩ | ⟨next, y, hr, -, hle, hnext⟩
  · rw [h] at hr
    cases hr
  · rw [h] at hr
    cases hr
    exact ⟨hle, hnext⟩

/-- Where no list can go on without taking an item, every loop stops, and the rounds that it is allowed
are enough. -/
theorem runs_iff {p : Parser ι α} (h : p.Advances input) {position : Nat} (hp : position ≤ input.length)
    (r : Result α) : Runs input p position r ↔ r = run input p position := by
  induction p generalizing position with
  | satisfy f => rfl
  | noAlternative => rfl
  | refuse message => rfl
  | orElse p q ihp ihq =>
    simp only [Runs, run, ihp h.1 hp, ihq h.2 hp, exists_eq_left]
    cases run input p position with
    | ok out => rfl
    | error e => cases run input q position <;> rfl
  | seq p q ihp ihq =>
    simp only [Runs, run, ihp h.1 hp, exists_eq_left]
    cases hfirst : run input p position with
    | error e => rfl
    | ok out =>
      obtain ⟨behind, x⟩ := out
      simp only [ihq h.2 (between_of_run hp hfirst).2, exists_eq_left]
      cases run input q behind <;> rfl
  | map f p ih =>
    simp only [Runs, run, ih h hp, exists_eq_left]
    cases run input p position <;> rfl
  | many p ih =>
    have hone : Computes input.length (run input p) (Runs input p) :=
      ⟨fun hp r => ih h hp r, between_of_run⟩
    constructor
    · rintro ⟨out, hout, rfl⟩
      rw [run, ← eq_repeatRun hone hp (Nat.le_refl _) hout]
    · rintro rfl
      exact ⟨_, repeats_repeatRun hone hp (Nat.le_refl _), rfl⟩
  | sepBy p separator ihp ihs =>
    have hitem : Computes input.length (run input p) (Runs input p) :=
      ⟨fun hp r => ihp h.1 hp r, between_of_run⟩
    have hseparator : Computes input.length (run input separator) (Runs input separator) :=
      ⟨fun hp r => ihs h.2.1 hp r, between_of_run⟩
    simp only [Runs, run, ihp h.1 hp, exists_eq_left]
    cases hfirst : run input p position with
    | error e => rfl
    | ok out =>
      obtain ⟨behind, x⟩ := out
      have hbehind := (between_of_run hp hfirst).2
      constructor
      · rintro ⟨stop, xs, hrest, rfl⟩
        simp only [← eq_repeatSeparated hitem hseparator h.2.2 hbehind (Nat.le_refl _) hrest]
      · rintro rfl
        exact ⟨_, _, repeatsSeparated_repeatSeparated hitem hseparator h.2.2 hbehind (Nat.le_refl _),
          rfl⟩
  | allConsuming p ih =>
    simp only [Runs, run, ih h hp, exists_eq_left]
    cases run input p position <;> rfl
  | inContext message p ih =>
    simp only [Runs, run, ih h hp, exists_eq_left]
    cases run input p position <;> rfl

/-! ## Lists that go on for ever -/

theorem not_runs_of_idle {p : Parser ι α} {separator : Parser ι Unit} {position : Nat} {x : α}
    (hp : ∀ r, Runs input p position r ↔ r = .ok (position, x))
    (hs : ∀ r, Runs input separator position r ↔ r = .ok (position, ())) (r : Result (List α)) :
    ¬Runs input (sepBy p separator) position r := by
  have hrest (out : Nat × List α) :
      ¬RepeatsSeparated (Runs input p) (Runs input separator) position out := by
    intro hout
    induction hout with
    | noSeparator he => cases (hs _).mp he
    | noItem hmark he =>
      cases (hs _).mp hmark
      cases (hp _).mp he
    | next hmark hx _ ih =>
      cases (hs _).mp hmark
      cases (hp _).mp hx
      exact ih hp hs
  rintro ⟨first, hfirst, hr⟩
  obtain rfl := (hp _).mp hfirst
  obtain ⟨stop, xs, hout, -⟩ := hr
  exact hrest _ hout

end

end ActorHub.Parser
