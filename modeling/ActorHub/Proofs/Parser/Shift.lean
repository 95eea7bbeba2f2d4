import ActorHub.Proofs.Parser.Loops

/-!
# Parsers look ahead only

What stands before the position that a run starts at plays no part in it: behind other items the run does
the same further on (`run_behind`). So an alternative that is tried again from an earlier position, or a
term that is run inside of another, does what it does alone.
-/

namespace ActorHub

/-! ## Places further on -/

def Place.shift (n : Nat) : Place → Place
  | item i => .item (n + i)
  | inputEnd => .inputEnd

namespace Failure

def shift (n : Nat) : Failure → Failure
  | unexpected i => .unexpected (n + i)
  | endOfInput => .endOfInput
  | noAlternative => .noAlternative
  | refused message => .refused message
  | inContext message inner => .inContext message (inner.shift n)

variable (n : Nat)

theorem place_shift (e : Failure) : (e.shift n).place = e.place.map (Place.shift n) := by
  induction e with
  | unexpected | endOfInput | noAlternative | refused => rfl
  | inContext message inner ih => exact ih

theorem root_shift (e : Failure) : (e.shift n).root = e.root.shift n := by
  induction e with
  | unexpected | endOfInput | noAlternative | refused => rfl
  | inContext message inner ih => exact ih

theorem before_shift (p q : Place) : (p.shift n).before (q.shift n) = p.before q := by
  cases p with
  | item i =>
    cases q with
    | item j => simp [Place.before, Place.shift]
    | inputEnd => rfl
  | inputEnd => cases q <;> rfl

theorem isBehind_shift (a b : Failure) : (a.shift n).isBehind (b.shift n) = a.isBehind b := by
  unfold isBehind
  rw [place_shift, place_shift]
  cases a.place with
  | none => cases b.place <;> rfl
  | some p =>
    cases b.place with
    | none => rfl
    | some q => exact before_shift n p q

theorem furthest_shift (a b : Failure) : (a.shift n).furthest (b.shift n) = (a.furthest b).shift n := by
  unfold furthest
  rw [isBehind_shift]
  split <;> rfl

end Failure

namespace Parser

section
variable {ι α : Type}

def shift (n : Nat) : Result α → Result α
  | .ok (stop, x) => .ok (n + stop, x)
  | .error e => .error (e.shift n)

@[simp] theorem shift_ok (n stop : Nat) (x : α) : shift n (.ok (stop, x)) = .ok (n + stop, x) :=
  rfl

@[simp] theorem shift_error (n : Nat) (e : Failure) :
    shift n (.error e : Result α) = .error (e.shift n) :=
  rfl

theorem missing_shift (n length position : Nat) :
    missing (n + length) (n + position) = (missing length position).shift n := by
  unfold missing
  simp only [Nat.add_le_add_iff_left]
  split <;> rfl

/-! ## Loops -/

variable {n : Nat} {step step' : Nat → Result α}

theorem repeatRun_shift (h : ∀ position, step' (n + position) = shift n (step position))
    (rounds position : Nat) : repeatRun step' rounds (n + position) =
      (n + (repeatRun step rounds position).1, (repeatRun step rounds position).2) := by
  induction rounds generalizing position with
  | zero => rfl
  | succ rounds ih =>
    simp only [repeatRun, h]
    cases step position with
    | error e => rfl
    | ok r =>
      obtain ⟨behind, x⟩ := r
      simp only [shift, Nat.add_right_inj, ih]
      split <;> rfl

variable {separator separator' : Nat → Result Unit}

theorem repeatSeparated_shift (h : ∀ position, step' (n + position) = shift n (step position))
    (hs : ∀ position, separator' (n + position) = shift n (separator position))
    (rounds position : Nat) : repeatSeparated step' separator' rounds (n + position) =
      (n + (repeatSeparated step separator rounds position).1,
        (repeatSeparated step separator rounds position).2) := by
  induction rounds generalizing position with
  | zero => rfl
  | succ rounds ih =>
    simp only [repeatSeparated, hs]
    cases separator position with
    | error e => rfl
    | ok r =>
      obtain ⟨behind, _⟩ := r
      simp only [shift, h]
      cases step behind with
      | error e => rfl
      | ok r =>
        obtain ⟨after, x⟩ := r
        simp only [ih]

/-! ## Terms -/

/-- A run that starts behind other items goes as it goes without them, with every position further on by
their number. -/
theorem run_append (front input : List ι) (p : Parser ι α) (position : Nat) :
    run (front ++ input) p (front.length + position) = shift front.length (run input p position) := by
  have hrest (position : Nat) : (front ++ input).length - (front.length + position) =
      input.length - position := by
    rw [List.length_append, Nat.add_sub_add_left]
  induction p generalizing position with
  | satisfy f =>
    have hitem : (front ++ input)[front.length + position]? = input[position]? := by
      rw [List.getElem?_append_right (Nat.le_add_right _ _), Nat.add_sub_cancel_left]
    rw [run, run, hitem, List.length_append, missing_shift]
    cases input[position]?.bind f <;> rfl
  | noAlternative => rfl
  | refuse message => rfl
  | orElse p q ihp ihq =>
    simp only [run, ihp, ihq]
    cases run input p position with
    | ok r => rfl
    | error e =>
      cases run input q position with
      | ok r => rfl
      | error e' => simp only [shift, Failure.furthest_shift]
  | seq p q ihp ihq =>
    simp only [run, ihp]
    cases run input p position with
    | error e => rfl
    | ok r =>
      obtain ⟨behind, x⟩ := r
      simp only [shift, ihq]
      cases run input q behind <;> rfl
  | map f p ih =>
    simp only [run, ih]
    cases run input p position <;> rfl
  | many p ih =>
    simp only [run, hrest, repeatRun_shift ih]
    rfl
  | sepBy p separator ihp ihs =>
    simp only [run, ihp]
    cases run input p position with
    | error e => rfl
    | ok r =>
      obtain ⟨behind, x⟩ := r
      simp only [shift, hrest, repeatSeparated_shift ihp ihs]
  | allConsuming p ih =>
    simp only [run, ih]
    cases run input p position with
    | error e => rfl
    | ok r =>
      obtain ⟨stop, x⟩ := r
      simp only [shift, List.length_append, Nat.add_lt_add_iff_left]
      split <;> rfl
  | inContext message p ih =>
    simp only [run, ih]
    cases run input p position <;> rfl

/-! ## Loops without a limit -/

def Shifts (n : Nat) (runs runs' : Nat → Result α → Prop) : Prop :=
  ∀ position r, runs' (n + position) r ↔ ∃ r', runs position r' ∧ r = shift n r'

section
variable {runs runs' : Nat → Result α → Prop} {position stop : Nat} {x : α} {e : Failure}

theorem Shifts.ok_iff (h : Shifts n runs runs') : runs' (n + position) (.ok (stop, x)) ↔
    ∃ stop', runs position (.ok (stop', x)) ∧ stop = n + stop' := by
  rw [h]
  constructor
  · rintro ⟨r, hr, he⟩
    cases r with
    | error e => cases he
    | ok out =>
      cases he
      exact ⟨_, hr, rfl⟩
  · rintro ⟨stop', hr, rfl⟩
    exact ⟨_, hr, rfl⟩

theorem Shifts.error_iff (h : Shifts n runs runs') : runs' (n + position) (.error e) ↔
    ∃ e', runs position (.error e') ∧ e = e'.shift n := by
  rw [h]
  constructor
  · rintro ⟨r, hr, he⟩
    cases r with
    | ok out => cases he
    | error e' =>
      cases he
      exact ⟨_, hr, rfl⟩
  · rintro ⟨e', hr, rfl⟩
    exact ⟨_, hr, rfl⟩

theorem repeats_shift (h : Shifts n runs runs') {out : Nat × List α} :
    Repeats runs' (n + position) out ↔
      ∃ stop xs, Repeats runs position (stop, xs) ∧ out = (n + stop, xs) := by
  constructor
  · intro hout
    generalize hstart : n + position = start at hout
    induction hout generalizing position with
    | failed he =>
      subst hstart
      obtain ⟨e', he', -⟩ := h.error_iff.mp he
      exact ⟨position, [], .failed he', rfl⟩
    | idle hx =>
      subst hstart
      obtain ⟨stop', hx', hstop⟩ := h.ok_iff.mp hx
      obtain rfl := Nat.add_left_cancel hstop
      exact ⟨position, [], .idle hx', rfl⟩
    | next hx hne _ ih =>
      subst hstart
      obtain ⟨behind, hx', rfl⟩ := h.ok_iff.mp hx
      obtain ⟨stop, xs, hrest, hout⟩ := ih rfl
      cases hout
      exact ⟨stop, _, .next hx' (fun he => hne (he ▸ rfl)) hrest, rfl⟩
  · rintro ⟨stop, xs, hout, rfl⟩
    generalize hend : (stop, xs) = out at hout
    induction hout generalizing stop xs with
    | failed he =>
      cases hend
      exact .failed (h.error_iff.mpr ⟨_, he, rfl⟩)
    | idle hx =>
      cases hend
      exact .idle (h.ok_iff.mpr ⟨_, hx, rfl⟩)
    | next hx hne _ ih =>
      cases hend
      exact .next (h.ok_iff.mpr ⟨_, hx, rfl⟩) (fun he => hne (Nat.add_left_cancel he)) (ih _ _ rfl)

theorem repeatsSeparated_shift {marks marks' : Nat → Result Unit → Prop}
    (h : Shifts n runs runs') (hs : Shifts n marks marks') {out : Nat × List α} :
    RepeatsSeparated runs' marks' (n + position) out ↔
      ∃ stop xs, RepeatsSeparated runs marks position (stop, xs) ∧ out = (n + stop, xs) := by
  constructor
  · intro hout
    generalize hstart : n + position = start at hout
    induction hout generalizing position with
    | noSeparator he =>
      subst hstart
      obtain ⟨e', he', -⟩ := hs.error_iff.mp he
      exact ⟨position, [], .noSeparator he', rfl⟩
    | noItem hmark he =>
      subst hstart
      obtain ⟨behind, hmark', rfl⟩ := hs.ok_iff.mp hmark
      obtain ⟨e', he', -⟩ := h.error_iff.mp he
      exact ⟨position, [], .noItem hmark' he', rfl⟩
    | next hmark hx _ ih =>
      subst hstart
      obtain ⟨behind, hmark', rfl⟩ := hs.ok_iff.mp hmark
      obtain ⟨after, hx', rfl⟩ := h.ok_iff.mp hx
      obtain ⟨stop, xs, hrest, hout⟩ := ih rfl
      cases hout
      exact ⟨stop, _, .next hmark' hx' hrest, rfl⟩
  · rintro ⟨stop, xs, hout, rfl⟩
    generalize hend : (stop, xs) = out at hout
    induction hout generalizing stop xs with
    | noSeparator he =>
      cases hend
      exact .noSeparator (hs.error_iff.mpr ⟨_, he, rfl⟩)
    | noItem hmark he =>
      cases hend
      exact .noItem (hs.ok_iff.mpr ⟨_, hmark, rfl⟩) (h.error_iff.mpr ⟨_, he, rfl⟩)
    | next hmark hx _ ih =>
      cases hend
      exact .next (hs.ok_iff.mpr ⟨_, hmark, rfl⟩) (h.ok_iff.mpr ⟨_, hx, rfl⟩) (ih _ _ rfl)

end

theorem Shifts.bind {β : Type} {runs runs' : Nat → Result α → Prop}
    {follows follows' : Result α → Result β → Prop} (h : Shifts n runs runs')
    (hfollows : ∀ first r, follows' (shift n first) r ↔ ∃ r', follows first r' ∧ r = shift n r')
    (position : Nat) (r : Result β) : (∃ first, runs' (n + position) first ∧ follows' first r) ↔
      ∃ r', (∃ first, runs position first ∧ follows first r') ∧ r = shift n r' := by
  constructor
  · rintro ⟨_, hfirst', hr⟩
    obtain ⟨first, hfirst, rfl⟩ := (h _ _).mp hfirst'
    obtain ⟨r', hr', rfl⟩ := (hfollows _ _).mp hr
    exact ⟨r', ⟨first, hfirst, hr'⟩, rfl⟩
  · rintro ⟨r', ⟨first, hfirst, hr'⟩, rfl⟩
    exact ⟨_, (h _ _).mpr ⟨_, hfirst, rfl⟩, (hfollows _ _).mpr ⟨_, hr', rfl⟩⟩

theorem Shifts.map {β : Type} {runs runs' : Nat → Result α → Prop} {g g' : Result α → Result β}
    (h : Shifts n runs runs') (hg : ∀ out, g' (shift n out) = shift n (g out)) (position : Nat)
    (r : Result β) : (∃ out, runs' (n + position) out ∧ r = g' out) ↔
      ∃ r', (∃ out, runs position out ∧ r' = g out) ∧ r = shift n r' := by
  constructor
  · rintro ⟨_, hout', rfl⟩
    obtain ⟨out, hout, rfl⟩ := (h _ _).mp hout'
    exact ⟨_, ⟨out, hout, rfl⟩, hg out⟩
  · rintro ⟨_, ⟨out, hout, rfl⟩, rfl⟩
    exact ⟨_, (h _ _).mpr ⟨out, hout, rfl⟩, (hg out).symm⟩

/-- The same holds of loops of any length, whether or not they stop. -/
theorem runs_append (front input : List ι) (p : Parser ι α) :
    Shifts front.length (Runs input p) (Runs (front ++ input) p) := by
  induction p with
  | satisfy f =>
    intro position r
    simp only [Runs, exists_eq_left, run_append]
  | noAlternative =>
    intro position r
    simp only [Runs, exists_eq_left]
    rfl
  | refuse message =>
    intro position r
    simp only [Runs, exists_eq_left]
    rfl
  | orElse p q ihp ihq =>
    intro position
    refine ihp.bind (fun first r => ?_) position
    cases first with
    | ok out => simp only [shift, exists_eq_left]
    | error e =>
      refine ihq.map (fun second => ?_) position r
      cases second with
      | ok out => rfl
      | error e' => exact congrArg Except.error (Failure.furthest_shift _ e e')
  | seq p q ihp ihq =>
    intro position
    refine ihp.bind (fun first r => ?_) position
    cases first with
    | error e => simp only [shift, exists_eq_left]
    | ok out =>
      obtain ⟨behind, x⟩ := out
      refine ihq.map (fun second => ?_) behind r
      cases second <;> rfl
  | map f p ih =>
    refine ih.map fun out => ?_
    cases out <;> rfl
  | many p ih =>
    intro position r
    constructor
    · rintro ⟨_, hout', rfl⟩
      obtain ⟨stop, xs, hout, rfl⟩ := (repeats_shift ih).mp hout'
      exact ⟨_, ⟨_, hout, rfl⟩, rfl⟩
    · rintro ⟨_, ⟨out, hout, rfl⟩, rfl⟩
      exact ⟨_, (repeats_shift ih).mpr ⟨_, _, hout, rfl⟩, rfl⟩
  | sepBy p separator ihp ihs =>
    intro position
    refine ihp.bind (fun first r => ?_) position
    cases first with
    | error e => simp only [shift, exists_eq_left]
    | ok out =>
      obtain ⟨behind, x⟩ := out
      constructor
      · rintro ⟨_, _, hrest', rfl⟩
        obtain ⟨stop, xs, hrest, he⟩ := (repeatsSeparated_shift ihp ihs).mp hrest'
        cases he
        exact ⟨_, ⟨stop, _, hrest, rfl⟩, rfl⟩
      · rintro ⟨_, ⟨stop, xs, hrest, rfl⟩, rfl⟩
        exact ⟨_, _, (repeatsSeparated_shift ihp ihs).mpr ⟨stop, xs, hrest, rfl⟩, rfl⟩
  | allConsuming p ih =>
    refine ih.map fun out => ?_
    cases out with
    | error e => rfl
    | ok out =>
      obtain ⟨stop, x⟩ := out
      simp only [shift, Except.bind, List.length_append, Nat.add_lt_add_iff_left]
      split <;> rfl
  | inContext message p ih =>
    refine ih.map fun out => ?_
    cases out <;> rfl

/-! ## Runs behind other items -/

/-- A run of any term that starts behind other items, whatever they are, has the result of the run without
them, with the position where it stops and those that its failure names further on by their number; what it
reads, the other failures and the place at the end of the input are the same. That holds for loops with a
limit and for loops of any length, which have a result here just if they have one there. -/
theorem run_behind (front input : List ι) (p : Parser ι α) (position : Nat) :
    run (front ++ input) p (front.length + position) =
        shift front.length (run input p position) ∧
      (∀ r, Runs (front ++ input) p (front.length + position) r ↔
        ∃ r', Runs input p position r' ∧ r = shift front.length r') ∧
      ∀ e : Failure, (e.shift front.length).place = e.place.map (Place.shift front.length) ∧
        (e.shift front.length).root = e.root.shift front.length :=
  ⟨run_append front input p position, runs_append front input p position,
    fun e => ⟨Failure.place_shift _ e, Failure.root_shift _ e⟩⟩

end

end Parser

end ActorHub
